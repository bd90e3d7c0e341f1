import Ancestry.Proofs.Merge.Steps
import Ancestry.Proofs.Walk.Answer
import Ancestry.Proofs.Walk.Steps
import Mathlib.Algebra.BigOperators.Group.List.Basic
import Mathlib.Algebra.GroupWithZero.Nat

/-! How long a walk takes. Nothing is assumed about what is known to it: the memo and the store may
hold anything, and the store may change whenever it is used. Main statement: a walk ends within a
number of steps that its parents and its limit determine, its stack stays within the limit, and each
of its merges places no more nodes than there are elements to be merged (`Setting.walk_ends`). -/
namespace Ancestry

namespace Merge.State

variable {α : Type} [DecidableEq α] [Hashable α] {parentsOf : α → List α} {state next : State α}

/-- Each node that is placed is taken off the head of an order. -/
theorem Leads.length_placed_le (h : Leads parentsOf state next) :
    next.placed.length + next.size ≤ state.placed.length + state.size := by
  induction h with
  | refl => exact Nat.le_refl _
  | @tail middle _ _ hPlaces ih =>
      obtain ⟨node, hCandidate, rfl⟩ := hPlaces
      have hSize := size_place_lt hCandidate (parentsOf node)
      have hPlaced : (middle.place node (parentsOf node)).placed.length =
          middle.placed.length + 1 := List.length_cons
      omega

end Merge.State

namespace Walk

variable {σ α : Type} [DecidableEq α] [Hashable α]

/-- The walk ends after exactly so many steps, and this is what it leaves behind. -/
inductive EndsAfter (setting : Setting σ α) (requested : α) :
    Nat → State σ α → Outcome σ α → Prop where
  | last {state : State σ α} {outcome : Outcome σ α}
      (hStep : step setting requested state = .finished outcome) :
      EndsAfter setting requested 1 state outcome
  | more {count : Nat} {state next : State σ α} {outcome : Outcome σ α}
      (hStep : step setting requested state = .running next)
      (hRest : EndsAfter setting requested count next outcome) :
      EndsAfter setting requested (count + 1) state outcome

/-- Any number of steps of a walk. -/
abbrev Leads (setting : Setting σ α) (requested : α) : State σ α → State σ α → Prop :=
  Relation.ReflTransGen fun state next => Follows setting requested next state

/-- A bound for the steps that a walk takes for a node with the given pending parents, where `room`
more nodes fit on the stack: one step for each parent, the steps for the parent if it is entered,
and one step to leave the node. -/
def effort (parents : α → List α) : Nat → List α → Nat
  | 0, pending => pending.length + 1
  | room + 1, pending =>
    (pending.map fun parent => effort parents room (parents parent) + 1).sum + 1

section

omit [DecidableEq α] [Hashable α]

variable (parents : α → List α) (room : Nat) (parent : α) (pending : List α)

theorem effort_zero : effort parents 0 pending = pending.length + 1 := rfl

theorem effort_succ : effort parents (room + 1) pending =
    (pending.map fun parent => effort parents room (parents parent) + 1).sum + 1 := rfl

@[simp] theorem effort_nil : effort parents room [] = 1 := by
  cases room <;> rfl

/-- What is left to do when the walk has entered a parent. -/
theorem effort_cons : effort parents (room + 1) (parent :: pending) =
    effort parents room (parents parent) + 1 + effort parents (room + 1) pending := by
  rw [effort_succ, effort_succ, List.map_cons, List.sum_cons]
  omega

theorem effort_lt_cons : effort parents room pending < effort parents room (parent :: pending) := by
  cases room with
  | zero =>
      rw [effort_zero, effort_zero]
      exact Nat.lt_succ_self _
  | succ room =>
      rw [effort_cons]
      omega

theorem effort_pos : 0 < effort parents room pending := by
  cases pending with
  | nil => simp
  | cons parent pending => exact Nat.zero_lt_of_lt (effort_lt_cons parents room parent pending)

end

/-- The effort for the frames of a stack, given from top to bottom. -/
def framesEffort (setting : Setting σ α) : List (Frame α) → Nat
  | [] => 0
  | frame :: below =>
    effort setting.parents (setting.limit - (below.length + 1)) frame.pending +
      framesEffort setting below

def Stack.effort (setting : Setting σ α) (stack : Stack α) : Nat :=
  framesEffort setting (stack.top :: stack.below)

section

variable {setting : Setting σ α} {requested : α} {state next : State σ α}

omit [DecidableEq α] [Hashable α] in
theorem Stack.effort_pos (stack : Stack α) : 0 < stack.effort setting :=
  Nat.add_pos_left (Walk.effort_pos _ _ _) _

omit [DecidableEq α] [Hashable α] in
theorem Stack.effort_of_pop? {stack lower : Stack α} (h : stack.pop? = some lower) :
    stack.effort setting =
      Walk.effort setting.parents (setting.limit - stack.height) stack.top.pending +
        lower.effort setting := by
  obtain ⟨top, below, height, hHeight⟩ := stack
  cases below with
  | nil => cases h
  | cons frame below =>
      cases h
      subst hHeight
      rfl

/-- Every step leaves less to do. -/
theorem Follows.effort_lt (h : Follows setting requested next state) :
    next.stack.effort setting < state.stack.effort setting := by
  obtain ⟨⟨⟨node, parents, pending⟩, below, height, hHeight⟩, memo, store⟩ := state
  rcases h.cases with ⟨parent, rest, hPending, hStack⟩ | ⟨hPending, hPop⟩
  · obtain rfl : pending = parent :: rest := hPending
    rcases hStack with hStack | ⟨hRoom, hStack⟩
    · rw [hStack]
      exact Nat.add_lt_add_right (effort_lt_cons _ _ _ _) _
    · -- The parent takes the place on the stack that was counted as room.
      have hHere : height < setting.limit := hRoom
      obtain ⟨room, hLimit⟩ : ∃ room, setting.limit - height = room + 1 :=
        ⟨setting.limit - height - 1, by omega⟩
      have hAbove : setting.limit - (height + 1) = room := by omega
      rw [hStack]
      simp only [Stack.effort, framesEffort, Stack.push, Stack.setTop, Setting.enter,
        List.length_cons, ← hHeight, hLimit, hAbove, effort_cons]
      omega
  · rw [Stack.effort_of_pop? hPop]
    exact Nat.lt_add_of_pos_left (effort_pos _ _ _)

/-- A walk takes no more steps than its stack gives it to do. -/
theorem exists_endsAfter (setting : Setting σ α) (requested : α) (state : State σ α) :
    ∃ count, count ≤ state.stack.effort setting ∧
      EndsAfter setting requested count state (run setting requested state) := by
  induction hEffort : state.stack.effort setting using Nat.strongRecOn generalizing state with
  | ind bound ih =>
      subst hEffort
      cases hStep : step setting requested state with
      | finished outcome =>
          rw [run_of_finished hStep]
          exact ⟨1, state.stack.effort_pos, .last hStep⟩
      | running next =>
          have hLess : next.stack.effort setting < state.stack.effort setting :=
            Follows.effort_lt hStep
          obtain ⟨count, hCount, hEnds⟩ := ih _ hLess next rfl
          rw [run_of_running hStep]
          exact ⟨count + 1, by omega, .more hStep hEnds⟩

end

/-- Whatever a look-up finds is in the memo afterwards, beside all that was there before. -/
theorem mem_of_lookup {store : Store σ α} {node : α} {memo known : Memo α} {stored left : σ}
    {found? : Option (Linearization α)}
    (h : lookup store node memo stored = (found?, known, left)) :
    (∀ key, key ∈ memo → key ∈ known) ∧ (found?.isSome = true → node ∈ known) := by
  unfold lookup at h
  split at h
  · rename_i found hFound
    cases h
    exact ⟨fun _ hKey => hKey, fun _ => Std.HashMap.mem_iff_isSome_getElem?.2 (by rw [hFound]; rfl)⟩
  · split at h
    · cases h
      exact ⟨fun _ hKey => Std.HashMap.mem_insert.2 (.inr hKey),
        fun _ => Std.HashMap.mem_insert_self⟩
    · cases h
      exact ⟨fun _ hKey => hKey, fun hSome => by cases hSome⟩

/-- What holds of every state of a walk, whatever is in the memo and in the store: each frame knows
the parents that it has turned to, and the stack is not too high. -/
structure State.InOrder (setting : Setting σ α) (requested : α) (state : State σ α) : Prop where
  parents_eq : state.stack.top.parents = setting.parents state.stack.top.node
  known : state.stack.top.KnownBefore state.memo state.stack.top.pending
  waits : Waits setting.parents requested state.memo state.stack.top.node state.stack.below
  height_le : state.stack.height ≤ max 1 setting.limit

namespace State.InOrder

variable {setting : Setting σ α} {requested : α} {state next : State σ α}

/-- The state in which a walk begins. -/
theorem enter (setting : Setting σ α) (node : α) (memo : Memo α) (store : σ) :
    State.InOrder setting node ⟨.single (setting.enter node), memo, store⟩ :=
  ⟨rfl, ⟨[], rfl, by simp⟩, rfl, Nat.le_max_left _ _⟩

theorem of_turnTo {parent : α} {pending : List α} (h : state.InOrder setting requested)
    (hPending : state.stack.top.pending = parent :: pending)
    (hNext : turnTo setting requested parent pending state = .running next) :
    next.InOrder setting requested := by
  have hTop := h.known
  rw [hPending] at hTop
  cases hLookup : lookup setting.store parent state.memo state.store with
  | mk found? rest =>
      obtain ⟨memo, store⟩ := rest
      obtain ⟨hLarger, hFound⟩ := mem_of_lookup hLookup
      have hKnown := hTop.mono hLarger
      have hWaits := h.waits.mono hLarger
      have hHeight := h.height_le
      simp only [turnTo, hLookup] at hNext
      cases found? with
      | some found =>
          cases hNext
          exact ⟨h.parents_eq, hKnown.tail (hFound rfl), hWaits, hHeight⟩
      | none =>
          by_cases hLimit : setting.limit ≤ state.stack.height
          · have hFull : setting.limit ≤
                (state.stack.setTop { state.stack.top with pending }).height := hLimit
            simp only [if_pos hFull] at hNext
            cases hNext
          · have hRoom : ¬setting.limit ≤
                (state.stack.setTop { state.stack.top with pending }).height := hLimit
            simp only [if_neg hRoom] at hNext
            cases hNext
            refine ⟨rfl, ⟨[], rfl, by simp⟩, ⟨h.parents_eq, hKnown, hWaits⟩, ?_⟩
            simp only [Stack.push, Stack.setTop]
            omega

theorem of_leave (h : state.InOrder setting requested)
    (hNext : leave setting state = .running next) : next.InOrder setting requested := by
  have hHeight := h.height_le
  obtain ⟨⟨top, below, height, hEq⟩, memo, store⟩ := state
  unfold leave at hNext
  split at hNext
  · cases hNext
  · rename_i order _
    cases below with
    | nil => cases hNext
    | cons frame below =>
        cases hNext
        have hLarger : ∀ key, key ∈ memo → key ∈ memo.insert top.node order :=
          fun key hKey => Std.HashMap.mem_insert.2 (.inr hKey)
        obtain ⟨hParents, hKnown, hBelow⟩ := h.waits.mono hLarger
        refine ⟨hParents, hKnown.tail Std.HashMap.mem_insert_self, hBelow, ?_⟩
        simp only at hHeight ⊢
        omega

theorem of_follows (h : state.InOrder setting requested)
    (hNext : Follows setting requested next state) : next.InOrder setting requested := by
  unfold Follows step at hNext
  split at hNext
  · rename_i parent pending hPending
    exact h.of_turnTo hPending hNext
  · exact h.of_leave hNext

theorem of_leads (h : state.InOrder setting requested)
    (hLeads : Leads setting requested state next) :
    next.InOrder setting requested := by
  induction hLeads with
  | refl => exact h
  | tail _ hNext ih => exact ih.of_follows hNext

/-- When the walk leaves a node, it knows all parents of the node. -/
theorem forall_parents_mem (h : state.InOrder setting requested)
    (hPending : state.stack.top.pending = []) :
    ∀ parent ∈ state.stack.top.parents, parent ∈ state.memo := by
  obtain ⟨turned, hTurned, hKnown⟩ := h.known
  rw [hPending, List.append_nil] at hTurned
  exact hTurned ▸ hKnown

end State.InOrder

/-- Whatever the parents are, and whatever is known when it begins or becomes known on the way, a
walk ends after so many steps as its effort allows. At each state that it comes to, the stack is no
higher than the limit, one node apart that is always allowed. When it comes to leave a node, it
knows all parents of the node, so that it needs no other walk; the merge then places no more nodes
than its orders have elements, and comes to an end. -/
theorem Setting.walk_ends (setting : Setting σ α) (node : α) (memo : Memo α) (store : σ) :
    let start : State σ α := ⟨.single (setting.enter node), memo, store⟩
    (∃ count, count ≤ effort setting.parents (setting.limit - 1) (setting.parents node) ∧
      EndsAfter setting node count start (run setting node start)) ∧
    ∀ state, Leads setting node start state →
      state.stack.height ≤ max 1 setting.limit ∧
      (state.stack.top.pending = [] →
        let frame := state.stack.top
        let orders := frame.orders state.memo
        let merging := Merge.State.start frame.parents orders
        (∀ parent ∈ frame.parents, parent ∈ state.memo) ∧
        (∀ later, Merge.State.Leads setting.parents merging later →
          later.placed.length ≤ (orders.map (·.toList) ++ [frame.parents]).flatten.length) ∧
        Merge.State.Leads setting.parents merging (merging.run setting.parents) ∧
        (merging.run setting.parents).candidate? = none) := by
  intro start
  refine ⟨exists_endsAfter setting node start, fun state hLeads => ?_⟩
  have hState := (State.InOrder.enter setting node memo store).of_leads hLeads
  refine ⟨hState.height_le, fun hPending => ?_⟩
  refine ⟨hState.forall_parents_mem hPending, fun later hLater => ?_, Merge.State.leads_run _ _⟩
  calc later.placed.length
      ≤ later.placed.length + later.size := Nat.le_add_right _ _
    _ ≤ 0 + _ := hLater.length_placed_le
    _ = _ := Nat.zero_add _

/-- The nodes have no last ancestor. -/
def endlessParents (node : Nat) : List Nat := [node + 1]

/-- What is remembered for the only parent is no linearization at all. -/
theorem Setting.walk_ends_endless :
    let setting : Setting Unit Nat := ⟨endlessParents, 3, .absent Nat⟩
    let memo : Memo Nat := (∅ : Memo Nat).insert 1 ⟨7, [7, 7]⟩
    let start : State Unit Nat := ⟨.single (setting.enter 0), memo, ()⟩
    let state : State Unit Nat := ⟨.single ⟨0, [1], []⟩, memo, ()⟩
    (∃ count, count ≤ 6 ∧ EndsAfter setting 0 count start (run setting 0 start)) ∧
    Leads setting 0 start state ∧ state.stack.top.pending = [] ∧
    state.stack.height ≤ 3 ∧ 1 ∈ memo ∧
    let merging := Merge.State.start [1] (state.stack.top.orders memo)
    Merge.State.Leads endlessParents merging (merging.run endlessParents) ∧
      (merging.run endlessParents).placed.length ≤ 4 := by
  intro setting memo start state
  have hFound : memo[1]? = some ⟨7, [7, 7]⟩ := Std.HashMap.getElem?_insert_self
  have hLeads : Leads setting 0 start state :=
    .single (step_of_known rfl (lookup_of_known hFound))
  obtain ⟨hEnds, hStates⟩ := setting.walk_ends 0 memo ()
  obtain ⟨hHeight, hMerge⟩ := hStates state hLeads
  obtain ⟨hKnown, hPlaced, hRun, _⟩ := hMerge rfl
  have hElements :
      ((state.stack.top.orders memo).map Linearization.toList ++ [[1]]).flatten.length = 4 := by
    simp [state, Frame.orders, Stack.single, hFound, Linearization.toList]
  exact ⟨hEnds, hLeads, rfl, hHeight, hKnown 1 List.mem_cons_self, hRun,
    (hPlaced _ hRun).trans_eq hElements⟩

end Walk

end Ancestry
