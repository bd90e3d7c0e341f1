import Ancestry.Merge
import Mathlib.Data.List.Induction
import Mathlib.Logic.Relation

/-! The merge as a sequence of steps, each of which places one node, and what its counts mean.
Main statements: at every step the counts are the numbers of occurrences behind the heads
(`State.Leads.counted`), so that a node is taken for free exactly when it may come next, and no
count ever exceeds the number of elements that are merged (`State.Leads.behind_le`). -/
namespace Ancestry.Merge

variable {α : Type} [DecidableEq α]

/-- The node heads an order and stands behind the head of none. -/
def Eligible (inputs : List (List α)) (node : α) : Prop :=
  (∃ rest, node :: rest ∈ inputs) ∧ ∀ input ∈ inputs, node ∉ input.tail

@[simp] theorem isHeadOf_eq_true_iff (node : α) (input : List α) :
    isHeadOf node input = true ↔ ∃ rest, input = node :: rest := by
  cases input <;> simp [isHeadOf]

variable [Hashable α]

/-- The counts are the numbers of occurrences behind the heads of the orders. An element that
occurs several times in one order counts as often. -/
def Counts (counts : Std.HashMap α Nat) (inputs : List (List α)) : Prop :=
  ∀ node, counts.getD node 0 = (inputs.flatMap List.tail).count node

theorem getD_foldl_countUp (nodes : List α) (counts : Std.HashMap α Nat) (node : α) :
    (nodes.foldl countUp counts).getD node 0 = counts.getD node 0 + nodes.count node := by
  induction nodes generalizing counts with
  | nil => simp
  | cons head tail ih =>
      rw [List.foldl_cons, ih, countUp, Std.HashMap.getD_insert, List.count_cons]
      by_cases hSame : head = node
      · subst hSame
        simp only [BEq.rfl, if_true]
        omega
      · simp [hSame]

/-- The counts that a merge begins with. -/
theorem counts_countBehind (inputs : List (List α)) : Counts (countBehind inputs) inputs := by
  intro node
  suffices h : ∀ counts : Std.HashMap α Nat,
      (inputs.foldl (fun counts input => input.tail.foldl countUp counts) counts).getD node 0 =
        counts.getD node 0 + (inputs.flatMap List.tail).count node by
    simpa [countBehind] using h ∅
  induction inputs with
  | nil => simp
  | cons input rest ih =>
      intro counts
      rw [List.foldl_cons, ih, getD_foldl_countUp, List.flatMap_cons, List.count_append]
      omega

/-- A count does not exceed the number of elements. -/
theorem Counts.getD_le {counts : Std.HashMap α Nat} {inputs : List (List α)}
    (h : Counts counts inputs) (node : α) : counts.getD node 0 ≤ inputs.flatten.length := by
  rw [h node]
  clear h
  induction inputs with
  | nil => simp
  | cons input rest ih =>
      have hInput : input.tail.count node ≤ input.length :=
        Nat.le_trans ((List.tail_sublist input).count_le node) List.count_le_length
      rw [List.flatMap_cons, List.count_append, List.flatten_cons, List.length_append]
      omega

/-- Lowering a positive count takes one occurrence away. -/
theorem getD_modify_pred {counts : Std.HashMap α Nat} {node : α} (h : 0 < counts.getD node 0)
    (other : α) :
    (counts.modify node (· - 1)).getD other 0 + (if node = other then 1 else 0) =
      counts.getD other 0 := by
  rw [Std.HashMap.getD_modify]
  by_cases hSame : node = other
  · subst hSame
    rw [Std.HashMap.getD_eq_getD_getElem?] at h ⊢
    cases hFound : counts[node]? with
    | none => simp [hFound] at h
    | some count =>
        simp only [hFound, Option.getD_some] at h
        simp only [BEq.rfl, if_true, Option.map_some, Option.getD_some]
        omega
  · simp [hSame]

/-- An element right behind a head is counted, whatever the other orders are. -/
theorem Counts.pos {counts : Std.HashMap α Nat} {before after : List (List α)} {head next : α}
    {rest : List α} (h : Counts counts (before ++ (head :: next :: rest) :: after)) :
    0 < counts.getD next 0 := by
  rw [h next, List.count_pos_iff]
  simp

/-- When the head of one order is dropped, the element that becomes a head is counted once
less. -/
theorem Counts.uncover {counts : Std.HashMap α Nat} {before after : List (List α)}
    {input : List α} (node : α) (h : Counts counts (before ++ input :: after)) :
    Counts (State.uncover node counts input) (before ++ dropHead node input :: after) := by
  intro other
  have hOther := h other
  cases input with
  | nil => exact hOther
  | cons head tail =>
      cases tail with
      | nil =>
          by_cases hHead : head = node <;> simpa [State.uncover, dropHead, hHead] using hOther
      | cons next rest =>
          by_cases hHead : head = node
          · -- The element is still counted here, even if the orders in front have lowered it
            -- before.
            have hLowered := getD_modify_pred h.pos other
            simp only [List.flatMap_append, List.flatMap_cons, List.tail_cons, List.count_append,
              List.count_cons, beq_iff_eq] at hOther
            simp only [State.uncover, dropHead, if_pos hHead, List.flatMap_append,
              List.flatMap_cons, List.tail_cons, List.count_append]
            omega
          · simpa [State.uncover, dropHead, hHead] using hOther

/-- Heads are dropped from left to right; the orders further right are not touched before their
turn. -/
theorem Counts.foldl_uncover {counts : Std.HashMap α Nat} {inputs after : List (List α)}
    (node : α) (h : Counts counts (inputs ++ after)) :
    Counts (inputs.foldl (State.uncover node) counts) (inputs.map (dropHead node) ++ after) := by
  induction inputs using List.reverseRec generalizing after with
  | nil => exact h
  | append_singleton inputs input ih =>
      rw [List.foldl_append, List.map_append, List.append_assoc]
      exact Counts.uncover node (ih (by simpa using h))

namespace State

theorem isExhausted_iff (state : State α) :
    state.isExhausted = true ↔ ∀ input ∈ state.inputs, input = [] := by
  simp [isExhausted]

/-- The counts of the state are those of its orders. -/
def Counted (state : State α) : Prop := Counts state.behind state.inputs

/-- Placing the node never lowers a count that is zero: when an element becomes a head, the
occurrence that it leaves behind is still counted. -/
def NoUnderflow (state : State α) (node : α) : Prop :=
  ∀ before next rest after, state.inputs = before ++ (node :: next :: rest) :: after →
    0 < (before.foldl (uncover node) state.behind).getD next 0

theorem counted_start (parents : List α) (orders : List (Linearization α)) :
    (start parents orders).Counted :=
  counts_countBehind _

theorem Counted.place {state : State α} (h : state.Counted) (node : α) (parents : List α) :
    (state.place node parents).Counted := by
  have hInputs : Counts state.behind (state.inputs ++ []) := by
    rw [List.append_nil]
    exact h
  have hPlaced := hInputs.foldl_uncover node
  rwa [List.append_nil] at hPlaced

theorem Counted.noUnderflow {state : State α} (h : state.Counted) (node : α) :
    state.NoUnderflow node := by
  intro before next rest after hInputs
  have hTurn : Counts state.behind (before ++ (node :: next :: rest) :: after) := hInputs ▸ h
  exact (hTurn.foldl_uncover node).pos

/-- The test by counts is right: it finds what a search through all orders would find. -/
theorem Counted.isFree_iff {state : State α} (h : state.Counted) (node : α) :
    state.isFree node = true ↔ Eligible state.inputs node := by
  simp only [isFree, isHead, Bool.and_eq_true, beq_iff_eq, h node, List.count_eq_zero,
    List.any_eq_true, isHeadOf_eq_true_iff, Eligible, List.mem_flatMap, not_exists, not_and]
  constructor
  · rintro ⟨hBehind, input, hInput, rest, rfl⟩
    exact ⟨⟨rest, hInput⟩, hBehind⟩
  · rintro ⟨⟨rest, hInput⟩, hBehind⟩
    exact ⟨hBehind, _, hInput, rest, rfl⟩

/-- One step of a merge: the candidate is placed. -/
def Places (parentsOf : α → List α) (state next : State α) : Prop :=
  ∃ node, state.candidate? = some node ∧ next = state.place node (parentsOf node)

/-- Any number of steps of a merge. -/
abbrev Leads (parentsOf : α → List α) : State α → State α → Prop :=
  Relation.ReflTransGen (Places parentsOf)

theorem Leads.counted {parentsOf : α → List α} {state next : State α}
    (hLeads : Leads parentsOf state next) (h : state.Counted) : next.Counted := by
  induction hLeads with
  | refl => exact h
  | tail _ hStep ih =>
      obtain ⟨node, _, rfl⟩ := hStep
      exact ih.place node _

theorem Leads.size_le {parentsOf : α → List α} {state next : State α}
    (hLeads : Leads parentsOf state next) : next.size ≤ state.size := by
  induction hLeads with
  | refl => exact Nat.le_refl _
  | tail _ hStep ih =>
      obtain ⟨node, hNode, rfl⟩ := hStep
      exact Nat.le_trans (Nat.le_of_lt (size_place_lt hNode _)) ih

/-- The counts of a merge never exceed the number of elements that it begins with. -/
theorem Leads.behind_le {parentsOf : α → List α} {parents : List α}
    {orders : List (Linearization α)} {state : State α}
    (hLeads : Leads parentsOf (start parents orders) state) (node : α) :
    state.behind.getD node 0 ≤ (start parents orders).size := by
  have hCounted := hLeads.counted (counted_start parents orders)
  exact Nat.le_trans (hCounted.getD_le node) hLeads.size_le

theorem mem_searched_of_candidate? {state : State α} {node : α}
    (h : state.candidate? = some node) : ∃ parents ∈ state.searched, node ∈ parents := by
  obtain ⟨parents, hParents, hFind⟩ := List.exists_of_findSome?_eq_some h
  exact ⟨parents, hParents, List.mem_of_find?_eq_some hFind⟩

theorem isFree_of_candidate? {state : State α} {node : α} (h : state.candidate? = some node) :
    state.isFree node = true := by
  obtain ⟨_, _, hFind⟩ := List.exists_of_findSome?_eq_some h
  exact List.find?_some hFind

/-- A free node is not missed when it is a parent of a placed one. -/
theorem candidate?_isSome_of_mem {state : State α} {node : α} {parents : List α}
    (hParents : parents ∈ state.searched) (hNode : node ∈ parents)
    (hFree : state.isFree node = true) : state.candidate?.isSome = true := by
  rw [candidate?, List.findSome?_isSome_iff]
  exact ⟨parents, hParents, List.find?_isSome.2 ⟨node, hNode, hFree⟩⟩

theorem candidate?_eq_none_of_isExhausted {state : State α} (h : state.isExhausted = true) :
    state.candidate? = none := by
  cases hNext : state.candidate? with
  | none => rfl
  | some node =>
      have hHead := isHead_of_candidate? hNext
      simp only [isHead, List.any_eq_true, isHeadOf_eq_true_iff] at hHead
      obtain ⟨_, hInput, rest, rfl⟩ := hHead
      cases (isExhausted_iff state).1 h _ hInput

theorem run_of_candidate?_eq_none (parentsOf : α → List α) {state : State α}
    (h : state.candidate? = none) : state.run parentsOf = state := by
  rw [run]
  split
  · rfl
  · split
    · rfl
    · simp_all

theorem run_of_candidate? (parentsOf : α → List α) {state : State α} {node : α}
    (h : state.candidate? = some node) :
    state.run parentsOf = (state.place node (parentsOf node)).run parentsOf := by
  rw [run, if_neg]
  · split
    · simp_all
    · simp_all
  · intro hExhausted
    rw [candidate?_eq_none_of_isExhausted hExhausted] at h
    cases h

/-- A merge takes steps until no candidate is left. -/
theorem leads_run (parentsOf : α → List α) (state : State α) :
    Leads parentsOf state (state.run parentsOf) ∧ (state.run parentsOf).candidate? = none := by
  induction hSize : state.size using Nat.strongRecOn generalizing state with
  | ind size ih =>
      subst hSize
      cases hNext : state.candidate? with
      | none =>
          rw [run_of_candidate?_eq_none parentsOf hNext]
          exact ⟨.refl, hNext⟩
      | some node =>
          rw [run_of_candidate? parentsOf hNext]
          obtain ⟨hLeads, hLast⟩ := ih _ (size_place_lt hNext (parentsOf node)) _ rfl
          exact ⟨.head ⟨node, hNext, rfl⟩ hLeads, hLast⟩

end State

/-- Without parents there is nothing to merge. -/
theorem merge_nil (parentsOf : α → List α) (node : α) :
    merge parentsOf node [] [] = .ok ⟨node, []⟩ := by
  have hExhausted : (State.start ([] : List α) []).isExhausted = true := rfl
  have hLast := State.run_of_candidate?_eq_none parentsOf
    (State.candidate?_eq_none_of_isExhausted hExhausted)
  simp only [merge, hLast, hExhausted, if_true]
  rfl

end Ancestry.Merge
