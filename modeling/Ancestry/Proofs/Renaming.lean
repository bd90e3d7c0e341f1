import Ancestry.Proofs.Merge.Extended
import Ancestry.Proofs.Walk.Answer
import Ancestry.Proofs.Walk.Steps
import Mathlib.Data.List.Basic

/-! Nodes under other names. A walk compares nodes with each other and does nothing else with them,
so that it goes the same way under other names. Main statement: if the names are different and the
parents go by them as well, then so does the answer, whichever it is (`linearize_renamed`). -/
namespace Ancestry

variable {α β γ : Type}

/-- The order under other names. -/
def Linearization.map (names : α → β) (order : Linearization α) : Linearization β :=
  ⟨names order.node, order.ancestors.map names⟩

/-- The conflict under other names. -/
def Conflict.map (names : α → β) (conflict : Conflict α) : Conflict β :=
  ⟨names conflict.node, conflict.parents.map names, conflict.placed.map names,
    conflict.remaining.map (·.map names)⟩

/-- The failure under other names. -/
def Failure.map (names : α → β) : Failure α → Failure β
  | inconsistent conflict => .inconsistent (conflict.map names)
  | tooDeep requested node limit chain =>
    .tooDeep (names requested) (names node) limit (chain.map names)

/-- The answer of a walk under other names. -/
def underNames (names : α → β) (result : Except (Failure α) (Linearization α)) :
    Except (Failure β) (Linearization β) :=
  (result.map (·.map names)).mapError (·.map names)

theorem underNames_underNames (names : α → β) (others : β → γ)
    (result : Except (Failure α) (Linearization α)) :
    underNames others (underNames names result) = underNames (others ∘ names) result := by
  cases result with
  | ok order => simp [underNames, Except.map, Except.mapError, Linearization.map]
  | error failure =>
      cases failure <;>
        simp [underNames, Except.map, Except.mapError, Failure.map, Conflict.map,
          Function.comp_def]

theorem Linearization.toList_map (names : α → β) (order : Linearization α) :
    (order.map names).toList = order.toList.map names := rfl

section

variable [DecidableEq α] [DecidableEq β] {parentsOf : α → List α} {othersOf : β → List β}
  {rename : α → β} (hInjective : Function.Injective rename)
  (hParents : ∀ node, othersOf (rename node) = (parentsOf node).map rename)

namespace Merge.Plain

include hInjective in
theorem isEligible_renamed (remaining : List (List α)) (node : α) :
    isEligible (remaining.map (·.map rename)) (rename node) = isEligible remaining node := by
  have hHead (input : List α) :
      ((input.map rename).head? == some (rename node)) = (input.head? == some node) := by
    rw [Bool.eq_iff_iff, beq_iff_eq, beq_iff_eq, ← List.append_nil (input.map rename)]
    exact head?_extended hInjective List.not_mem_nil input
  have hBehind (input : List α) :
      ((input.map rename).drop 1).contains (rename node) = (input.drop 1).contains node := by
    rw [Bool.eq_iff_iff, List.contains_iff_mem, List.contains_iff_mem,
      ← List.append_nil (input.map rename)]
    exact mem_drop_one_extended hInjective List.not_mem_nil input
  simp only [isEligible, List.any_map, List.all_map, Function.comp_def, hHead, hBehind]

include hInjective in
theorem remove_renamed (node : α) (remaining : List (List α)) :
    remove (rename node) (remaining.map (·.map rename)) =
      (remove node remaining).map (·.map rename) := by
  have hHead (input : List α) :
      dropHead (rename node) (input.map rename) = (dropHead node input).map rename := by
    simpa using dropHead_extended hInjective (List.not_mem_nil (a := rename node)) input
  simp [remove_eq, Function.comp_def, hHead]

include hInjective hParents in
theorem next?_renamed (parents placed : List α) (remaining : List (List α)) :
    next? othersOf (parents.map rename) (placed.map rename) (remaining.map (·.map rename)) =
      (next? parentsOf parents placed remaining).map rename := by
  have hSearched : (placed.map rename).reverse.map othersOf ++ [parents.map rename] =
      (placed.reverse.map parentsOf ++ [parents]).map (·.map rename) := by
    simp [Function.comp_def, hParents]
  have hFind (nodes : List α) :
      (nodes.map rename).find? (isEligible (remaining.map (·.map rename))) =
        (nodes.find? (isEligible remaining)).map rename := by
    rw [List.find?_map]
    congr 2
    exact funext fun node => isEligible_renamed hInjective remaining node
  rw [next?, next?, hSearched, List.findSome?_map, List.map_findSome?]
  congr 1
  exact funext hFind

include hInjective hParents in
theorem mergeFrom_renamed (node : α) (parents placed : List α) (remaining : List (List α)) :
    mergeFrom othersOf (rename node) (parents.map rename) (placed.map rename)
        (remaining.map (·.map rename)) =
      ((mergeFrom parentsOf node parents placed remaining).map (·.map rename)).mapError
        (·.map rename) := by
  induction hSize : remaining.flatten.length using Nat.strongRecOn
    generalizing placed remaining with
  | ind size ih =>
      subst hSize
      have hNext := next?_renamed hInjective hParents parents placed remaining
      cases hCandidate : next? parentsOf parents placed remaining with
      | none =>
          rw [hCandidate] at hNext
          rw [mergeFrom_of_next?_eq_none _ hCandidate, mergeFrom_of_next?_eq_none _ hNext]
          have hEmpty : (remaining.map (·.map rename)).all (·.isEmpty) =
              remaining.all (·.isEmpty) := by
            simp [Function.comp_def]
          rw [hEmpty]
          split <;> rfl
      | some candidate =>
          rw [hCandidate] at hNext
          have hSmaller := length_flatten_remove_lt (isEligible_of_next? hCandidate)
          rw [mergeFrom_of_next? _ hCandidate, mergeFrom_of_next? _ hNext,
            remove_renamed hInjective]
          simpa using ih _ hSmaller (placed ++ [candidate]) _ rfl

end Merge.Plain

variable [Hashable α] [Hashable β]

include hInjective hParents in
/-- The merge of the same orders under other names. -/
theorem merge_renamed (node : α) (parents : List α) (orders : List (Linearization α)) :
    merge othersOf (rename node) (parents.map rename) (orders.map (·.map rename)) =
      ((merge parentsOf node parents orders).map (·.map rename)).mapError (·.map rename) := by
  apply Merge.Plain.eq_of_map_toList
  have hLists : (orders.map (·.map rename)).map (·.toList) ++ [parents.map rename] =
      (orders.map (·.toList) ++ [parents]).map (·.map rename) := by
    simp [Function.comp_def, Linearization.toList_map]
  rw [← Merge.Plain.merge_eq, Merge.Plain.merge, hLists]
  refine (Merge.Plain.mergeFrom_renamed hInjective hParents node parents [] _).trans ?_
  rw [← Merge.Plain.merge, Merge.Plain.merge_eq]
  cases merge parentsOf node parents orders <;> rfl

/-- The second memo knows under other names what the first one knows. -/
def Memo.Renames (rename : α → β) (memo : Memo α) (other : Memo β) : Prop :=
  ∀ node, other[rename node]? = memo[node]?.map (·.map rename)

theorem Memo.renames_empty (rename : α → β) : Memo.Renames rename ∅ ∅ := by
  intro node
  simp

include hInjective in
theorem Memo.Renames.insert {memo : Memo α} {other : Memo β} (h : Memo.Renames rename memo other)
    (node : α) (order : Linearization α) :
    Memo.Renames rename (memo.insert node order)
      (other.insert (rename node) (order.map rename)) := by
  intro next
  rw [Std.HashMap.getElem?_insert, Std.HashMap.getElem?_insert]
  by_cases hSame : node = next
  · simp [hSame]
  · simp [hSame, hInjective.eq_iff, h next]

namespace Walk

def Frame.map (rename : α → β) (frame : Frame α) : Frame β :=
  ⟨rename frame.node, frame.parents.map rename, frame.pending.map rename⟩

def Stack.map (rename : α → β) (stack : Stack α) : Stack β :=
  ⟨stack.top.map rename, stack.below.map (·.map rename), stack.height, by
    rw [List.length_map, stack.height_eq]⟩

omit [DecidableEq α] [DecidableEq β] [Hashable α] [Hashable β] in
theorem Stack.pop?_map (rename : α → β) (stack : Stack α) :
    (stack.map rename).pop? = stack.pop?.map (·.map rename) := by
  obtain ⟨top, below, height, hHeight⟩ := stack
  cases below <;> rfl

omit [DecidableEq α] [DecidableEq β] [Hashable α] [Hashable β] in
theorem Stack.chain_map (rename : α → β) (stack : Stack α) :
    (stack.map rename).chain = stack.chain.map rename := by
  simp [chain, Stack.map, Frame.map, Function.comp_def]

theorem Frame.orders_map {memo : Memo α} {other : Memo β} (h : Memo.Renames rename memo other)
    (frame : Frame α) :
    (frame.map rename).orders other = (frame.orders memo).map (·.map rename) := by
  rw [Frame.orders, Frame.orders, Frame.map, List.filterMap_map, List.map_filterMap]
  exact congrArg (List.filterMap · frame.parents) (funext h)

/-- Both walks are at the same point, the second one under other names. -/
structure State.Renames (rename : α → β) (state : State Unit α) (other : State Unit β) : Prop where
  stack : other.stack = state.stack.map rename
  memo : Memo.Renames rename state.memo other.memo

inductive Progress.Renames (rename : α → β) : Progress Unit α → Progress Unit β → Prop where
  | running {state : State Unit α} {other : State Unit β} (h : state.Renames rename other) :
      Progress.Renames rename (.running state) (.running other)
  | finished {outcome : Outcome Unit α} {other : Outcome Unit β}
      (h : other.result = underNames rename outcome.result) :
      Progress.Renames rename (.finished outcome) (.finished other)

variable {limit : Nat} {state : State Unit α} {other : State Unit β}

include hParents in
/-- Both walks turn to the same parent. -/
theorem State.Renames.turn (h : state.Renames rename other) {parent : α} {pending : List α}
    (hPending : state.stack.top.pending = parent :: pending) (requested : α) :
    Progress.Renames rename (step ⟨parentsOf, limit, .absent α⟩ requested state)
      (step ⟨othersOf, limit, .absent β⟩ (rename requested) other) := by
  obtain ⟨stack, memo, _⟩ := state
  obtain ⟨_, others, _⟩ := other
  obtain ⟨rfl, hMemo⟩ := h
  have hOther : (stack.map rename).top.pending = rename parent :: pending.map rename := by
    rw [Stack.map, Frame.map, hPending, List.map_cons]
  have hParent := hMemo parent
  cases hKnown : memo[parent]? with
  | some found =>
      rw [hKnown] at hParent
      rw [step_of_known hPending (lookup_of_known hKnown),
        step_of_known hOther (lookup_of_known hParent)]
      exact .running ⟨rfl, hMemo⟩
  | none =>
      rw [hKnown] at hParent
      by_cases hRoom : stack.height < limit
      · rw [step_of_unknown hPending (lookup_absent hKnown) hRoom,
          step_of_unknown hOther (lookup_absent hParent) hRoom]
        have hEnter : Setting.enter ⟨othersOf, limit, .absent β⟩ (rename parent) =
            (Setting.enter ⟨parentsOf, limit, .absent α⟩ parent).map rename := by
          simp only [Setting.enter, Frame.map, hParents]
        rw [hEnter]
        exact .running ⟨rfl, hMemo⟩
      · have hFull : limit ≤ stack.height := Nat.le_of_not_lt hRoom
        rw [step_of_full hPending (lookup_absent hKnown) hFull,
          step_of_full hOther (lookup_absent hParent) hFull]
        refine .finished ?_
        rw [Stack.chain_map]
        rfl

include hInjective hParents in
/-- Both walks leave the same node. -/
theorem State.Renames.leave (h : state.Renames rename other)
    (hPending : state.stack.top.pending = []) (requested : α) :
    Progress.Renames rename (step ⟨parentsOf, limit, .absent α⟩ requested state)
      (step ⟨othersOf, limit, .absent β⟩ (rename requested) other) := by
  obtain ⟨stack, memo, _⟩ := state
  obtain ⟨_, others, _⟩ := other
  obtain ⟨rfl, hMemo⟩ := h
  have hOther : (stack.map rename).top.pending = [] := by
    rw [Stack.map, Frame.map, hPending, List.map_nil]
  have hMerge : Setting.merge ⟨othersOf, limit, .absent β⟩ (stack.map rename).top others =
      ((Setting.merge ⟨parentsOf, limit, .absent α⟩ stack.top memo).map (·.map rename)).mapError
        (·.map rename) := by
    rw [Setting.merge, Setting.merge, ← merge_renamed hInjective hParents,
      ← Frame.orders_map hMemo]
    rfl
  cases hResult : Setting.merge ⟨parentsOf, limit, .absent α⟩ stack.top memo with
  | error conflict =>
      rw [hResult] at hMerge
      rw [step_of_conflict hPending hResult, step_of_conflict hOther hMerge]
      exact .finished rfl
  | ok order =>
      rw [hResult] at hMerge
      have hPop := Stack.pop?_map rename stack
      have hInsert := hMemo.insert hInjective stack.top.node order
      cases hLower : stack.pop? with
      | none =>
          rw [hLower] at hPop
          rw [step_of_last hPending hResult hLower, step_of_last hOther hMerge hPop]
          exact .finished rfl
      | some lower =>
          rw [hLower] at hPop
          rw [step_of_merged hPending hResult hLower, step_of_merged hOther hMerge hPop]
          exact .running ⟨rfl, hInsert⟩

include hInjective hParents in
theorem State.Renames.step (h : state.Renames rename other) (requested : α) :
    Progress.Renames rename (Walk.step ⟨parentsOf, limit, .absent α⟩ requested state)
      (Walk.step ⟨othersOf, limit, .absent β⟩ (rename requested) other) := by
  cases hPending : state.stack.top.pending with
  | nil => exact h.leave hInjective hParents hPending requested
  | cons parent pending => exact h.turn hParents hPending requested

include hInjective hParents in
/-- From the same point on, both walks give the same answer. -/
theorem State.Renames.run (h : state.Renames rename other) (requested : α) :
    (Walk.run ⟨othersOf, limit, .absent β⟩ (rename requested) other).result =
      underNames rename (Walk.run ⟨parentsOf, limit, .absent α⟩ requested state).result := by
  induction State.accessible ⟨parentsOf, limit, .absent α⟩ requested state generalizing other with
  | intro state _ ih =>
      have hStep : Progress.Renames rename
          (Walk.step ⟨parentsOf, limit, .absent α⟩ requested state)
          (Walk.step ⟨othersOf, limit, .absent β⟩ (rename requested) other) :=
        h.step hInjective hParents requested
      generalize hNext : Walk.step ⟨parentsOf, limit, .absent α⟩ requested state = progress at hStep
      generalize hOther : Walk.step ⟨othersOf, limit, .absent β⟩ (rename requested) other =
        otherProgress at hStep
      cases hStep with
      | running hRenames =>
          rw [run_of_running hNext, run_of_running hOther]
          exact ih _ hNext hRenames
      | finished hResult =>
          rw [run_of_finished hNext, run_of_finished hOther]
          exact hResult

end Walk

include hInjective hParents in
/-- A walk for a node under another name gives the same answer under the other names, be it a
linearization, a conflict or a chain that is too long. -/
theorem linearize_renamed (node : α) (limit : Nat) :
    linearize othersOf (rename node) limit =
      underNames rename (linearize parentsOf node limit) := by
  have hUnknown : (∅ : Memo α)[node]? = none := Std.HashMap.getElem?_empty
  have hOther : (∅ : Memo β)[rename node]? = none := Std.HashMap.getElem?_empty
  rw [linearize, linearize, Walk.Setting.linearize, Walk.Setting.linearize,
    Walk.lookup_absent hUnknown, Walk.lookup_absent hOther]
  apply Walk.State.Renames.run hInjective hParents
  refine ⟨?_, Memo.renames_empty rename⟩
  simp only [Walk.Setting.enter, hParents]
  rfl

include hInjective hParents in
/-- A node has a linearization just when it has one under another name. -/
theorem exists_linearizes_renamed_iff (node : α) :
    (∃ order, Linearizes othersOf (rename node) order) ↔
      ∃ order, Linearizes parentsOf node order := by
  constructor
  · rintro ⟨order, hOrder⟩
    have hFound := hOrder.linearize_eq (Nat.le_refl _)
    rw [linearize_renamed hInjective hParents] at hFound
    cases hResult : linearize parentsOf node order.toList.length with
    | ok own => exact ⟨own, .of_linearize hResult⟩
    | error failure =>
        rw [hResult] at hFound
        cases hFound
  · rintro ⟨order, hOrder⟩
    have hFound := linearize_renamed hInjective hParents node order.toList.length
    rw [hOrder.linearize_eq (Nat.le_refl _)] at hFound
    exact ⟨_, .of_linearize hFound⟩

end

end Ancestry
