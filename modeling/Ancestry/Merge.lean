import Std.Data.HashMap
import Ancestry.Linearization

/-!
The merge of the orders of a node's parents with the order of the parents themselves.

A node can come next when it heads one of the orders and stands behind the head of none. Several
may qualify; the one taken is the first met when the nodes placed so far are visited newest first
and the direct parents of each in their order. For each node the merge counts how often it stands
behind a head, so that a candidate is tested without a search through the orders.
-/
namespace Ancestry.Merge

variable {α : Type} [DecidableEq α]

def isHeadOf (node : α) : List α → Bool
  | [] => false
  | head :: _ => head = node

/-- What is left of an order after the node is taken from its head. -/
def dropHead (node : α) : List α → List α
  | [] => []
  | head :: tail => if head = node then tail else head :: tail

theorem length_dropHead_le (node : α) (input : List α) :
    (dropHead node input).length ≤ input.length := by
  unfold dropHead
  split
  · exact Nat.le_refl _
  · split <;> simp

theorem length_dropHead_lt {node : α} {input : List α} (h : isHeadOf node input = true) :
    (dropHead node input).length < input.length := by
  cases input with
  | nil => cases h
  | cons head tail => simp_all [isHeadOf, dropHead]

theorem length_flatten_dropHead_le (node : α) (inputs : List (List α)) :
    (inputs.map (dropHead node)).flatten.length ≤ inputs.flatten.length := by
  induction inputs with
  | nil => exact Nat.le_refl _
  | cons input rest ih =>
    have hInput := length_dropHead_le node input
    simp only [List.map_cons, List.flatten_cons, List.length_append]
    omega

theorem length_flatten_dropHead_lt {node : α} {inputs : List (List α)}
    (h : inputs.any (isHeadOf node) = true) :
    (inputs.map (dropHead node)).flatten.length < inputs.flatten.length := by
  induction inputs with
  | nil => simp at h
  | cons input rest ih =>
    simp only [List.any_cons, Bool.or_eq_true] at h
    simp only [List.map_cons, List.flatten_cons, List.length_append]
    rcases h with hHead | hRest
    · have hRest := length_flatten_dropHead_le node rest
      have hInput := length_dropHead_lt hHead
      omega
    · have hInput := length_dropHead_le node input
      have hSmaller := ih hRest
      omega

variable [Hashable α]

structure State (α : Type) [DecidableEq α] [Hashable α] where
  /-- The nodes placed after the first one, newest first. -/
  placed : List α
  /-- The direct parents of each placed node, newest first, ending with those of the first. -/
  searched : List (List α)
  /-- What is left of each order. -/
  inputs : List (List α)
  /-- How often each node stands behind the head of an order. No count exceeds the number of
  elements of the orders, so that counts of 32 bits are the same below `2 ^ 32` elements. -/
  behind : Std.HashMap α Nat

def countUp (counts : Std.HashMap α Nat) (node : α) : Std.HashMap α Nat :=
  counts.insert node (counts.getD node 0 + 1)

def countBehind (inputs : List (List α)) : Std.HashMap α Nat :=
  inputs.foldl (fun counts input => input.tail.foldl countUp counts) ∅

/-- The merge of the given orders for a node with the given parents, before its first step. -/
def State.start (parents : List α) (orders : List (Linearization α)) : State α :=
  let inputs := orders.map (·.toList) ++ [parents]
  ⟨[], [parents], inputs, countBehind inputs⟩

namespace State

def isExhausted (state : State α) : Bool := state.inputs.all (·.isEmpty)

def isHead (state : State α) (node : α) : Bool := state.inputs.any (isHeadOf node)

/-- Whether the node can come next. -/
def isFree (state : State α) (node : α) : Bool :=
  state.behind.getD node 0 == 0 && state.isHead node

/-- The node that comes next, if any can. -/
def candidate? (state : State α) : Option α :=
  state.searched.findSome? fun parents => parents.find? state.isFree

/-- Where the node heads an order, the next element is a head now and no longer behind one. -/
def uncover (node : α) (counts : Std.HashMap α Nat) : List α → Std.HashMap α Nat
  | head :: next :: _ => if head = node then counts.modify next (· - 1) else counts
  | _ => counts

/-- Places a node whose direct parents are given. -/
def place (state : State α) (node : α) (parents : List α) : State α :=
  ⟨node :: state.placed, parents :: state.searched, state.inputs.map (dropHead node),
    state.inputs.foldl (uncover node) state.behind⟩

def size (state : State α) : Nat := state.inputs.flatten.length

theorem isHead_of_candidate? {state : State α} {node : α} (h : state.candidate? = some node) :
    state.isHead node = true := by
  obtain ⟨parents, _, hParents⟩ := List.exists_of_findSome?_eq_some h
  have hFree := List.find?_some hParents
  simp only [isFree, Bool.and_eq_true] at hFree
  exact hFree.2

theorem size_place_lt {state : State α} {node : α} (h : state.candidate? = some node)
    (parents : List α) : (state.place node parents).size < state.size :=
  length_flatten_dropHead_lt (isHead_of_candidate? h)

/-- Places candidates as long as there are any; `parents` gives the direct parents of each. -/
def run (parents : α → List α) (state : State α) : State α :=
  if state.isExhausted then state
  else match _h : state.candidate? with
    | none => state
    | some node => run parents (state.place node (parents node))
termination_by state.size
decreasing_by exact size_place_lt _h _

end State

end Merge

open Merge in
/-- The linearization of a node from its direct parents and their linearizations, given in the
same order; `parentsOf` gives the direct parents of the other nodes. -/
def merge {α : Type} [DecidableEq α] [Hashable α] (parentsOf : α → List α) (node : α)
    (parents : List α) (orders : List (Linearization α)) :
    Except (Conflict α) (Linearization α) :=
  let final := (State.start parents orders).run parentsOf
  if final.isExhausted then .ok ⟨node, final.placed.reverse⟩
  else .error ⟨node, parents, node :: final.placed.reverse, final.inputs⟩

end Ancestry
