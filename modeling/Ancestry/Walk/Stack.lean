/-!
The stack of a walk: the nodes that wait for their parents to be linearized. It is never empty and
knows its height.
-/
namespace Ancestry.Walk

/-- A node that waits for its parents to be linearized. -/
structure Frame (α : Type) where
  node : α
  parents : List α
  /-- The parents that the walk has not turned to yet. -/
  pending : List α

/-- A stack of frames with at least one frame. -/
structure Stack (α : Type) where
  top : Frame α
  /-- The other frames, from top to bottom. -/
  below : List (Frame α)
  height : Nat
  height_eq : height = below.length + 1

namespace Stack

variable {α : Type}

def single (frame : Frame α) : Stack α := ⟨frame, [], 1, rfl⟩

def push (frame : Frame α) (stack : Stack α) : Stack α :=
  ⟨frame, stack.top :: stack.below, stack.height + 1, by
    rw [stack.height_eq, List.length_cons]⟩

def setTop (frame : Frame α) (stack : Stack α) : Stack α :=
  ⟨frame, stack.below, stack.height, stack.height_eq⟩

/-- The stack without its topmost frame, unless that is the only one. -/
def pop? (stack : Stack α) : Option (Stack α) :=
  match h : stack.below with
  | [] => none
  | frame :: below => some ⟨frame, below, stack.height - 1, by
      rw [stack.height_eq, h, List.length_cons, Nat.add_sub_cancel]⟩

/-- The nodes on the stack, from bottom to top. -/
def chain (stack : Stack α) : List α := (stack.top :: stack.below).reverse.map (·.node)

@[simp] theorem pop?_single (frame : Frame α) : (single frame).pop? = none := rfl

@[simp] theorem pop?_push (frame : Frame α) (stack : Stack α) :
    (stack.push frame).pop? = some stack := rfl

@[simp] theorem pop?_setTop (frame : Frame α) (stack : Stack α) :
    (stack.setTop frame).pop? = stack.pop? := rfl

theorem height_of_pop? {stack lower : Stack α} (h : stack.pop? = some lower) :
    stack.height = lower.height + 1 := by
  obtain ⟨top, below, height, hHeight⟩ := stack
  cases below with
  | nil => cases h
  | cons frame below =>
      cases h
      simp only [List.length_cons] at hHeight
      simp only
      omega

theorem length_chain (stack : Stack α) : stack.chain.length = stack.height := by
  simp [chain, stack.height_eq]

end Stack

end Ancestry.Walk
