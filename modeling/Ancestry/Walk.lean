import Ancestry.Merge
import Ancestry.Walk.Stack

/-!
The walk that linearizes a node after all its ancestors.

The walk holds the nodes that wait for the linearization of a parent on a stack, each a direct
parent of the one below it. The limit bounds the height of the stack, so that a cycle of parents
ends in a failure. Linearizations found or made on the way are kept in a memo; a store that is
shared between walks is asked before a node is entered and told when one is done.

Main statement: no walk goes on for ever (`Walk.State.accessible`), whatever the parents are and
whatever the store answers.
-/
namespace Ancestry

/-- The known linearizations of a resolver's nodes. -/
abbrev Memo (α : Type) [DecidableEq α] [Hashable α] := Std.HashMap α (Linearization α)

/-- How a walk uses linearizations that are kept elsewhere, in a store of type `σ`. Each use may
change the store. -/
structure Store (σ α : Type) where
  find : α → σ → Option (Linearization α) × σ
  keep : α → Linearization α → σ → σ

/-- The store that never keeps anything. -/
def Store.absent (α : Type) : Store Unit α where
  find := fun _ store => (none, store)
  keep := fun _ _ store => store

namespace Walk

structure Setting (σ α : Type) where
  parents : α → List α
  /-- The largest height of the stack, although one node is always allowed. -/
  limit : Nat
  store : Store σ α

section

variable {σ α : Type} [DecidableEq α] [Hashable α]

/-- The frame of a node at which the walk arrives. -/
def Setting.enter (setting : Setting σ α) (node : α) : Frame α :=
  ⟨node, setting.parents node, setting.parents node⟩

/-- A walk under way: its stack, and the linearizations known to it. -/
structure State (σ α : Type) [DecidableEq α] [Hashable α] where
  stack : Stack α
  memo : Memo α
  store : σ

structure Outcome (σ α : Type) [DecidableEq α] [Hashable α] where
  result : Except (Failure α) (Linearization α)
  memo : Memo α
  store : σ

inductive Progress (σ α : Type) [DecidableEq α] [Hashable α] where
  | running (state : State σ α)
  | finished (outcome : Outcome σ α)

/-- The linearization of a node from the memo or, failing that, from the store. What the store
gives goes into the memo, so that it stays known even if the store loses it. -/
def lookup (store : Store σ α) (node : α) (memo : Memo α) (stored : σ) :
    Option (Linearization α) × Memo α × σ :=
  match memo[node]? with
  | some found => (some found, memo, stored)
  | none => match store.find node stored with
    | (some found, stored) => (some found, memo.insert node found, stored)
    | (none, stored) => (none, memo, stored)

/-- The known linearizations of a frame's parents, in the order of the parents. -/
def Frame.orders (frame : Frame α) (memo : Memo α) : List (Linearization α) :=
  frame.parents.filterMap (memo[·]?)

/-- Turns to a parent of the topmost node, given that node's other pending parents. An unknown
parent is entered unless the stack is full. -/
def turnTo (setting : Setting σ α) (requested parent : α) (pending : List α)
    (state : State σ α) : Progress σ α :=
  let stack := state.stack.setTop { state.stack.top with pending }
  match lookup setting.store parent state.memo state.store with
  | (some _, memo, store) => .running ⟨stack, memo, store⟩
  | (none, memo, store) =>
    if setting.limit ≤ stack.height then
      .finished ⟨.error (.tooDeep requested parent setting.limit stack.chain), memo, store⟩
    else .running ⟨stack.push (setting.enter parent), memo, store⟩

def Setting.merge (setting : Setting σ α) (frame : Frame α) (memo : Memo α) :
    Except (Conflict α) (Linearization α) :=
  Ancestry.merge setting.parents frame.node frame.parents (frame.orders memo)

/-- Makes the linearization of the topmost node known and leaves that node. -/
def leaveWith (setting : Setting σ α) (order : Linearization α) (state : State σ α) :
    Progress σ α :=
  let node := state.stack.top.node
  let memo := state.memo.insert node order
  let store := setting.store.keep node order state.store
  match state.stack.pop? with
  | none => .finished ⟨.ok order, memo, store⟩
  | some stack => .running ⟨stack, memo, store⟩

/-- Leaves the topmost node, whose parents have all been turned to, by merging their
linearizations. -/
def leave (setting : Setting σ α) (state : State σ α) : Progress σ α :=
  match setting.merge state.stack.top state.memo with
  | .error conflict => .finished ⟨.error (.inconsistent conflict), state.memo, state.store⟩
  | .ok order => leaveWith setting order state

/-- One step of a walk that was asked for the linearization of `requested`. -/
def step (setting : Setting σ α) (requested : α) (state : State σ α) : Progress σ α :=
  match state.stack.top.pending with
  | parent :: pending => turnTo setting requested parent pending state
  | [] => leave setting state

/-- A state follows another if one step of the walk leads to it. -/
def Follows (setting : Setting σ α) (requested : α) (next state : State σ α) : Prop :=
  step setting requested state = .running next

/-- A step turns to a parent that is known, enters one that is not, or leaves the topmost node. -/
theorem Follows.cases {setting : Setting σ α} {requested : α} {next state : State σ α}
    (h : Follows setting requested next state) :
    (∃ parent pending, state.stack.top.pending = parent :: pending ∧
      (next.stack = state.stack.setTop { state.stack.top with pending } ∨
        state.stack.height < setting.limit ∧
        next.stack = (state.stack.setTop { state.stack.top with pending }).push
          (setting.enter parent))) ∨
    (state.stack.top.pending = [] ∧ state.stack.pop? = some next.stack) := by
  unfold Follows step at h
  split at h
  · rename_i parent pending hPending
    refine .inl ⟨parent, pending, hPending, ?_⟩
    simp only [turnTo] at h
    split at h
    · cases h
      exact .inl rfl
    · split at h
      · cases h
      · rename_i hLimit
        cases h
        exact .inr ⟨Nat.lt_of_not_le hLimit, rfl⟩
  · rename_i hPending
    refine .inr ⟨hPending, ?_⟩
    unfold leave at h
    split at h
    · cases h
    · simp only [leaveWith] at h
      split at h
      · cases h
      · rename_i hPop
        cases h
        exact hPop

/-- Whether every walk comes to an end that starts with the given stack. -/
private def Ends (setting : Setting σ α) (requested : α) (stack : Stack α) : Prop :=
  ∀ memo store, Acc (Follows setting requested) ⟨stack, memo, store⟩

/-- If walks come to an end without the topmost frame, then so they do with it. `room` bounds the
number of frames that fit above. -/
private theorem ends_of_pop? {setting : Setting σ α} {requested : α} (room : Nat) :
    ∀ pending (stack : Stack α), stack.top.pending = pending →
      setting.limit ≤ stack.height + room →
      (∀ lower, stack.pop? = some lower → Ends setting requested lower) →
      Ends setting requested stack := by
  induction room using Nat.strongRecOn with
  | ind room ihRoom =>
      intro pending
      induction pending with
      | nil =>
          intro stack hPending _ hLower memo store
          refine ⟨_, fun next hNext => ?_⟩
          rcases hNext.cases with ⟨_, _, hOther, _⟩ | ⟨_, hPop⟩
          · rw [hPending] at hOther
            cases hOther
          · exact hLower next.stack hPop next.memo next.store
      | cons parent pending ih =>
          intro stack hPending hRoom hLower memo store
          refine ⟨_, fun next hNext => ?_⟩
          rcases hNext.cases with ⟨_, _, hSame, hStack⟩ | ⟨hOther, _⟩
          · rw [hPending] at hSame
            cases hSame
            have hTurned : Ends setting requested
                (stack.setTop { stack.top with pending }) :=
              ih _ rfl hRoom fun lower hPop => hLower lower hPop
            rcases hStack with hStack | ⟨hHeight, hStack⟩
            · have hEnds := hTurned next.memo next.store
              rwa [← hStack] at hEnds
            · simp only at hHeight
              have hEnds : Ends setting requested
                  ((stack.setTop { stack.top with pending }).push (setting.enter parent)) := by
                refine ihRoom (room - 1) (by omega) _ _ rfl ?_ ?_
                · simp only [Stack.push, Stack.setTop]
                  omega
                · intro lower hPop
                  cases hPop
                  exact hTurned
              have hEnds := hEnds next.memo next.store
              rwa [← hStack] at hEnds
          · rw [hPending] at hOther
            cases hOther

theorem State.accessible (setting : Setting σ α) (requested : α) (state : State σ α) :
    Acc (Follows setting requested) state := by
  suffices h : ∀ height (stack : Stack α),
      stack.height = height → Ends setting requested stack from
    h _ state.stack rfl state.memo state.store
  intro height
  induction height with
  | zero =>
      intro stack hHeight
      rw [stack.height_eq] at hHeight
      cases hHeight
  | succ height ih =>
      intro stack hHeight
      refine ends_of_pop? setting.limit _ stack rfl (by omega) fun lower hPop => ih lower ?_
      have hLower := Stack.height_of_pop? hPop
      omega

/-- The states of one walk, ordered so that each step leads to a smaller one. -/
structure Descending (setting : Setting σ α) (requested : α) where
  state : State σ α

instance (setting : Setting σ α) (requested : α) :
    WellFoundedRelation (Descending setting requested) where
  rel := InvImage (Follows setting requested) (·.state)
  wf := InvImage.wf _ ⟨State.accessible setting requested⟩

def run (setting : Setting σ α) (requested : α) (state : State σ α) : Outcome σ α :=
  match _h : step setting requested state with
  | .finished outcome => outcome
  | .running next => run setting requested next
termination_by (⟨state⟩ : Descending setting requested)
decreasing_by exact _h

theorem run_eq (setting : Setting σ α) (requested : α) (state : State σ α) :
    run setting requested state = match step setting requested state with
      | .finished outcome => outcome
      | .running next => run setting requested next := by
  rw [run]
  split <;> simp_all

/-- Looks a node up and, if it is not known, walks from it. -/
def Setting.linearize (setting : Setting σ α) (node : α) (memo : Memo α) (store : σ) :
    Outcome σ α :=
  match lookup setting.store node memo store with
  | (some found, memo, store) => ⟨.ok found, memo, store⟩
  | (none, memo, store) => run setting node ⟨.single (setting.enter node), memo, store⟩

end

end Walk

/-- The height of the stack that a walk is allowed unless another limit is chosen. -/
def defaultLimit : Nat := 4096

/-- The linearization of a node from the direct parents of all nodes, with nothing known
beforehand. -/
def linearize {α : Type} [DecidableEq α] [Hashable α] (parents : α → List α) (node : α)
    (limit : Nat) : Except (Failure α) (Linearization α) :=
  (Walk.Setting.linearize ⟨parents, limit, Store.absent α⟩ node ∅ ()).result

end Ancestry
