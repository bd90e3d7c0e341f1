import Ancestry.Proofs.Merge.Steps
import Mathlib.Data.List.Forall2
import Mathlib.Data.List.Nodup

/-! What a merge keeps of the orders that it merges. Main statements: a merge that succeeds keeps
each of them in one order without repetition (`merge_eq_ok`), and a merge that fails is stuck
(`merge_eq_error`), so that there is no such order (`Stuck.no_common_order`). -/
namespace Ancestry.Merge

variable {α : Type}

/-- An order of which some elements have been placed, in their order, and the others are left. -/
def SplitBy (placed original rest : List α) : Prop :=
  ∃ consumed, original = consumed ++ rest ∧ consumed.Sublist placed

/-- An order without repetition in which each of the given ones is kept. -/
def IsCommonOrder (inputs : List (List α)) (common : List α) : Prop :=
  common.Nodup ∧ ∀ input ∈ inputs, input.Sublist common

/-- Every element of the order except the first is a direct parent of an earlier one. -/
def Linked (parentsOf : α → List α) (order : List α) : Prop :=
  ∀ before member after, order = before ++ member :: after →
    before = [] ∨ ∃ earlier ∈ before, member ∈ parentsOf earlier

theorem exists_left_of_forall₂ {β γ : Type} {related : β → γ → Prop} {lefts : List β}
    {rights : List γ} (h : List.Forall₂ related lefts rights) {right : γ}
    (hRight : right ∈ rights) : ∃ left ∈ lefts, related left right := by
  induction h with
  | nil => cases hRight
  | @cons left _ _ _ hHead _ ih =>
      rcases List.mem_cons.1 hRight with rfl | hTail
      · exact ⟨left, List.mem_cons_self, hHead⟩
      · obtain ⟨other, hOther, hRelated⟩ := ih hTail
        exact ⟨other, List.mem_cons_of_mem _ hOther, hRelated⟩

theorem exists_right_of_forall₂ {β γ : Type} {related : β → γ → Prop} {lefts : List β}
    {rights : List γ} (h : List.Forall₂ related lefts rights) {left : β} (hLeft : left ∈ lefts) :
    ∃ right ∈ rights, related left right := by
  have hFlip : List.Forall₂ (flip related) rights lefts := h.flip
  exact exists_left_of_forall₂ hFlip hLeft

/-- Whenever something is left of the orders that have a common order, some node is eligible: the
first of the common order that is a head. -/
theorem IsCommonOrder.exists_eligible {inputs : List (List α)} {common : List α}
    (h : IsCommonOrder inputs common) (hLeft : ∃ input ∈ inputs, input ≠ []) :
    ∃ node, Eligible inputs node := by
  induction common with
  | nil =>
      obtain ⟨input, hInput, hNonempty⟩ := hLeft
      exact absurd (List.sublist_nil.1 (h.2 input hInput)) hNonempty
  | cons first others ih =>
      obtain ⟨hFirst, hOthers⟩ := List.nodup_cons.1 h.1
      by_cases hHead : ∃ rest, first :: rest ∈ inputs
      · refine ⟨first, hHead, fun input hInput hTail => ?_⟩
        exact hFirst ((h.2 input hInput).tail.subset hTail)
      · -- No order begins with this element, so that it can be left out of the common order.
        refine ih ⟨hOthers, fun input hInput => ?_⟩
        rcases List.sublist_cons_iff.1 (h.2 input hInput) with hSkip | ⟨rest, rfl, _⟩
        · exact hSkip
        · exact absurd ⟨rest, hInput⟩ hHead

/-- Orders to be merged for a node with the given parents: that of the parents themselves, or a
linked one that begins with a parent. -/
def IsInput (parentsOf : α → List α) (parents original : List α) : Prop :=
  original = parents ∨ Linked parentsOf original ∧ ∀ first ∈ original.head?, first ∈ parents

theorem isInput_of_mem {parentsOf : α → List α} {parents original : List α}
    {orders : List (Linearization α)}
    (hOrders : ∀ order ∈ orders, order.node ∈ parents ∧ Linked parentsOf order.toList)
    (hOriginal : original ∈ orders.map (·.toList) ++ [parents]) :
    IsInput parentsOf parents original := by
  rw [List.mem_append, List.mem_map, List.mem_singleton] at hOriginal
  rcases hOriginal with ⟨order, hOrder, rfl⟩ | hSame
  · obtain ⟨hNode, hLinked⟩ := hOrders order hOrder
    exact .inr ⟨hLinked, by simpa [Linearization.toList] using hNode⟩
  · exact .inl hSame

/-- What is left of orders keeps the common order that the whole had. -/
theorem IsCommonOrder.of_split {placed common : List α} {originals rests : List (List α)}
    (h : IsCommonOrder originals common) (hSplit : List.Forall₂ (SplitBy placed) originals rests) :
    IsCommonOrder rests common := by
  refine ⟨h.1, fun rest hRest => ?_⟩
  obtain ⟨original, hOriginal, consumed, rfl, _⟩ := exists_left_of_forall₂ hSplit hRest
  exact (List.sublist_append_right consumed rest).trans (h.2 _ hOriginal)

/-- A merge of the given orders that got stuck. Each of them splits into what has been placed and
what is left, something is left, and none of it can come next. -/
structure Stuck (originals : List (List α)) (conflict : Conflict α) : Prop where
  split : List.Forall₂ (SplitBy conflict.placed.tail) originals conflict.remaining
  left : ∃ input ∈ conflict.remaining, input ≠ []
  not_eligible : ∀ node, ¬Eligible conflict.remaining node

theorem Stuck.no_common_order {originals : List (List α)} {conflict : Conflict α}
    (h : Stuck originals conflict) : ¬∃ common, IsCommonOrder originals common := by
  rintro ⟨common, hCommon⟩
  obtain ⟨node, hNode⟩ := (hCommon.of_split h.split).exists_eligible h.left
  exact h.not_eligible node hNode

/-- Orders without repetition leave none. -/
theorem Stuck.nodup {originals : List (List α)} {conflict : Conflict α}
    (h : Stuck originals conflict) (hNodup : ∀ original ∈ originals, original.Nodup) :
    ∀ input ∈ conflict.remaining, input.Nodup := by
  intro input hInput
  obtain ⟨original, hOriginal, consumed, rfl, _⟩ := exists_left_of_forall₂ h.split hInput
  exact (List.nodup_append.1 (hNodup _ hOriginal)).2.1

variable [DecidableEq α]

theorem SplitBy.dropHead {placed original rest : List α} (h : SplitBy placed original rest)
    (node : α) : SplitBy (placed ++ [node]) original (Merge.dropHead node rest) := by
  obtain ⟨consumed, rfl, hConsumed⟩ := h
  cases rest with
  | nil => exact ⟨consumed, rfl, hConsumed.trans (List.sublist_append_left _ _)⟩
  | cons head tail =>
      by_cases hHead : head = node
      · refine ⟨consumed ++ [node], ?_, hConsumed.append (List.Sublist.refl _)⟩
        simp [Merge.dropHead, hHead]
      · refine ⟨consumed, ?_, hConsumed.trans (List.sublist_append_left _ _)⟩
        simp [Merge.dropHead, hHead]

/-- An eligible node is gone from an order once it has been dropped from its head. -/
theorem not_mem_dropHead {node : α} {input : List α} (h : node ∉ input.tail) :
    node ∉ dropHead node input := by
  cases input with
  | nil => exact h
  | cons head tail =>
      by_cases hHead : head = node
      · simpa [dropHead, hHead] using h
      · rw [dropHead, if_neg hHead, List.mem_cons, not_or]
        exact ⟨Ne.symm hHead, h⟩

theorem dropHead_subset (node : α) (input : List α) : dropHead node input ⊆ input := by
  cases input with
  | nil => exact List.Subset.refl _
  | cons head tail =>
      rw [dropHead]
      split
      · exact List.subset_cons_self head tail
      · exact List.Subset.refl _

variable [Hashable α]

namespace State

/-- What holds at every step of a merge of the given orders. -/
structure Invariant (parentsOf : α → List α) (parents : List α) (originals : List (List α))
    (state : State α) : Prop where
  counted : state.Counted
  searched_eq : state.searched = state.placed.map parentsOf ++ [parents]
  split : List.Forall₂ (SplitBy state.placed.reverse) originals state.inputs
  nodup : state.placed.Nodup
  /-- What is placed does not come up again. -/
  fresh : ∀ node ∈ state.placed, ∀ input ∈ state.inputs, node ∉ input
  source : ∀ node ∈ state.placed, ∃ original ∈ originals, node ∈ original
  linked : ∀ node older, node :: older <:+ state.placed →
    node ∈ parents ∨ ∃ earlier ∈ older, node ∈ parentsOf earlier

section

variable {parentsOf : α → List α} {parents : List α} {originals : List (List α)} {state : State α}

theorem Invariant.start (parentsOf : α → List α) (parents : List α)
    (orders : List (Linearization α)) :
    Invariant parentsOf parents (orders.map (·.toList) ++ [parents]) (.start parents orders) where
  counted := counted_start parents orders
  searched_eq := rfl
  split := List.forall₂_same.2 fun input _ => ⟨[], rfl, List.Sublist.refl _⟩
  nodup := List.nodup_nil
  fresh := by simp [State.start]
  source := by simp [State.start]
  linked := by simp [State.start]

theorem Invariant.place {node : α} (h : Invariant parentsOf parents originals state)
    (hNext : state.candidate? = some node) :
    Invariant parentsOf parents originals (state.place node (parentsOf node)) := by
  obtain ⟨⟨rest, hHead⟩, hTails⟩ := (h.counted.isFree_iff node).1 (isFree_of_candidate? hNext)
  have hNew : node ∉ state.placed := fun hPlaced =>
    h.fresh node hPlaced _ hHead List.mem_cons_self
  refine ⟨h.counted.place node _, ?_, ?_, List.nodup_cons.2 ⟨hNew, h.nodup⟩, ?_, ?_, ?_⟩
  · simp [State.place, h.searched_eq]
  · simp only [State.place, List.reverse_cons, List.forall₂_map_right_iff]
    exact h.split.imp fun original left hSplit => hSplit.dropHead node
  · intro other hOther input hInput
    obtain ⟨left, hLeft, rfl⟩ := List.mem_map.1 hInput
    rcases List.mem_cons.1 hOther with rfl | hPlaced
    · exact not_mem_dropHead (hTails left hLeft)
    · exact fun hMember => h.fresh other hPlaced left hLeft (dropHead_subset node left hMember)
  · intro other hOther
    rcases List.mem_cons.1 hOther with rfl | hPlaced
    · obtain ⟨original, hOriginal, consumed, rfl, _⟩ := exists_left_of_forall₂ h.split hHead
      exact ⟨_, hOriginal, List.mem_append_right _ List.mem_cons_self⟩
    · exact h.source other hPlaced
  · intro other older hSuffix
    rcases List.suffix_cons_iff.1 hSuffix with hSame | hOlder
    · cases hSame
      obtain ⟨searched, hSearched, hMember⟩ := mem_searched_of_candidate? hNext
      rw [h.searched_eq, List.mem_append, List.mem_map, List.mem_singleton] at hSearched
      rcases hSearched with ⟨earlier, hEarlier, rfl⟩ | rfl
      · exact .inr ⟨earlier, hEarlier, hMember⟩
      · exact .inl hMember
    · exact h.linked other older hOlder

theorem Leads.invariant {next : State α} (hLeads : Leads parentsOf state next)
    (h : Invariant parentsOf parents originals state) :
    Invariant parentsOf parents originals next := by
  induction hLeads with
  | refl => exact h
  | tail _ hStep ih =>
      obtain ⟨node, hNext, rfl⟩ := hStep
      exact ih.place hNext

/-- The search looks only at the direct parents of the placed nodes, yet every head is among
them. -/
theorem Invariant.exists_searched {node : α} {rest : List α}
    (h : Invariant parentsOf parents originals state)
    (hOriginals : ∀ original ∈ originals, IsInput parentsOf parents original)
    (hHead : node :: rest ∈ state.inputs) : ∃ searched ∈ state.searched, node ∈ searched := by
  rw [h.searched_eq]
  obtain ⟨original, hOriginal, consumed, rfl, hConsumed⟩ := exists_left_of_forall₂ h.split hHead
  have hParents : node ∈ parents →
      ∃ searched ∈ state.placed.map parentsOf ++ [parents], node ∈ searched :=
    fun hNode => ⟨parents, by simp, hNode⟩
  rcases hOriginals _ hOriginal with hSame | ⟨hLinked, hFirst⟩
  · exact hParents (hSame ▸ by simp)
  -- What stood in front of the head has been placed, its direct child included.
  · rcases hLinked consumed node rest rfl with rfl | ⟨earlier, hEarlier, hNode⟩
    · exact hParents (hFirst node (by simp))
    · have hPlaced : earlier ∈ state.placed := List.mem_reverse.1 (hConsumed.subset hEarlier)
      exact ⟨parentsOf earlier, List.mem_append_left _ (List.mem_map_of_mem hPlaced), hNode⟩

/-- So the search never misses an eligible node. -/
theorem Invariant.candidate?_isSome {node : α} (h : Invariant parentsOf parents originals state)
    (hOriginals : ∀ original ∈ originals, IsInput parentsOf parents original)
    (hNode : Eligible state.inputs node) : state.candidate?.isSome = true := by
  obtain ⟨rest, hHead⟩ := hNode.1
  obtain ⟨searched, hSearched, hMember⟩ := h.exists_searched hOriginals hHead
  exact candidate?_isSome_of_mem hSearched hMember ((h.counted.isFree_iff node).2 hNode)

end

end State

/-- The ancestors that a merge of the given orders puts behind a node with the given parents. -/
structure Merged (parentsOf : α → List α) (parents : List α) (inputs : List (List α))
    (ancestors : List α) : Prop where
  nodup : ancestors.Nodup
  sublist : ∀ input ∈ inputs, input.Sublist ancestors
  source : ∀ member ∈ ancestors, ∃ input ∈ inputs, member ∈ input
  linked : ∀ before member after, ancestors = before ++ member :: after →
    member ∈ parents ∨ ∃ earlier ∈ before, member ∈ parentsOf earlier

section

variable {parentsOf : α → List α} {node : α} {parents : List α} {orders : List (Linearization α)}

/-- A merge ends in a state without a candidate, and its answer is read off that state. -/
theorem exists_final (parentsOf : α → List α) (node : α) (parents : List α)
    (orders : List (Linearization α)) :
    ∃ final : State α, State.Leads parentsOf (.start parents orders) final ∧
      final.Invariant parentsOf parents (orders.map (·.toList) ++ [parents]) ∧
      final.candidate? = none ∧
      merge parentsOf node parents orders =
        if final.isExhausted then .ok ⟨node, final.placed.reverse⟩
        else .error ⟨node, parents, node :: final.placed.reverse, final.inputs⟩ := by
  obtain ⟨hLeads, hLast⟩ := State.leads_run parentsOf (.start parents orders)
  exact ⟨_, hLeads, hLeads.invariant (.start parentsOf parents orders), hLast, rfl⟩

/-- A successful merge keeps each order, adds nothing and repeats nothing. -/
theorem merge_eq_ok {order : Linearization α}
    (h : merge parentsOf node parents orders = .ok order) :
    order.node = node ∧
      Merged parentsOf parents (orders.map (·.toList) ++ [parents]) order.ancestors := by
  obtain ⟨final, _, hFinal, _, hMerge⟩ := exists_final parentsOf node parents orders
  rw [h] at hMerge
  split at hMerge
  · rename_i hExhausted
    cases hMerge
    refine ⟨rfl, List.nodup_reverse.2 hFinal.nodup, ?_, ?_, ?_⟩
    · intro input hInput
      obtain ⟨rest, hRest, consumed, rfl, hConsumed⟩ :=
        exists_right_of_forall₂ hFinal.split hInput
      rw [(State.isExhausted_iff final).1 hExhausted rest hRest, List.append_nil]
      exact hConsumed
    · exact fun member hMember => hFinal.source member (List.mem_reverse.1 hMember)
    · intro before member after hSplit
      have hSuffix : member :: before.reverse <:+ final.placed :=
        ⟨after.reverse, by simpa using (congrArg List.reverse hSplit).symm⟩
      simpa using hFinal.linked member before.reverse hSuffix
  · cases hMerge

/-- A merge of orders that are linked and begin with the parents gets stuck only where no node can
come next. -/
theorem merge_eq_error {conflict : Conflict α}
    (h : merge parentsOf node parents orders = .error conflict)
    (hOrders : ∀ order ∈ orders, order.node ∈ parents ∧ Linked parentsOf order.toList) :
    Stuck (orders.map (·.toList) ++ [parents]) conflict := by
  obtain ⟨final, _, hFinal, hLast, hMerge⟩ := exists_final parentsOf node parents orders
  by_cases hExhausted : final.isExhausted = true
  · rw [h, if_pos hExhausted] at hMerge
    cases hMerge
  · rw [h, if_neg hExhausted] at hMerge
    cases hMerge
    refine ⟨hFinal.split, by simpa [State.isExhausted_iff] using hExhausted, fun other hOther => ?_⟩
    have hFound := hFinal.candidate?_isSome (fun _ => isInput_of_mem hOrders) hOther
    rw [hLast] at hFound
    cases hFound

end

end Ancestry.Merge
