import Ancestry.Proofs.Merge.Extended
import Ancestry.Proofs.Walk.Answer

/-! One graph of parents inside another one. The nodes go by other names there, and so do their
direct parents, but a node without parents may go on to a tail of further nodes. Main statements:
the linearizations of such nodes are those of the original ones with the tail behind them
(`Embeds.linearizes_iff`), and so are the clashes that are met (`Embeds.meetsClash_iff`). -/
namespace Ancestry

variable {α β : Type} [DecidableEq α] [Hashable α] [DecidableEq β] [Hashable β]

/-- The nodes of one graph of parents are nodes of another one under other names. All that follow
on the last ancestors of a node make its tail. -/
structure Embeds (parentsOf : α → List α) (othersOf : β → List β) (rename : α → β)
    (tail : α → List β) : Prop where
  injective : Function.Injective rename
  apart : ∀ node other, rename node ∉ tail other
  othersOf_rename : ∀ node, parentsOf node ≠ [] →
    othersOf (rename node) = (parentsOf node).map rename
  linearizes_last : ∀ node, parentsOf node = [] →
    Linearizes othersOf (rename node) ⟨rename node, tail node⟩
  tail_eq : ∀ node, ∀ parent ∈ parentsOf node, tail parent = tail node

namespace Embeds

variable {parentsOf : α → List α} {othersOf : β → List β} {rename : α → β} {tail : α → List β}
  {node : α}

omit [DecidableEq α] [Hashable α] in
theorem tail_eq_of_reaches (h : Embeds parentsOf othersOf rename tail) {ancestor : α}
    (hReach : Reaches parentsOf node ancestor) : tail ancestor = tail node := by
  induction hReach with
  | refl => rfl
  | tail _ hParent ih => exact (h.tail_eq _ _ hParent).trans ih

section

variable {orders : α → Linearization α}
  (hParents : ∀ parent ∈ parentsOf node, Linearizes parentsOf parent (orders parent))
  (hOthers : ∀ parent ∈ parentsOf node,
    Linearizes othersOf (rename parent) ((orders parent).extended rename (tail node)))

include hParents hOthers

/-- The merges for a node start at the same point. What comes in the tail is found from the order of
any parent, in the graph with the tail. -/
theorem extends_start (h : Embeds parentsOf othersOf rename tail) {first : α}
    (hFirst : first ∈ parentsOf node) :
    Merge.Plain.Extends parentsOf othersOf rename (tail node) (orders first).toList []
      (((parentsOf node).map orders).map (·.toList)) (parentsOf node) where
  injective := h.injective
  apart := fun other => h.apart other node
  nodup := by
    have hNodup := (hOthers first hFirst).nodup
    rw [Linearization.toList, Linearization.extended, ← List.cons_append] at hNodup
    exact (List.nodup_append.1 hNodup).2.1
  othersOf_rename := by
    rintro other (hNone | ⟨_, hRest, hOther⟩)
    · cases hNone
    · by_cases hLast : parentsOf other = []
      · refine .inr ⟨hLast, fun next hNext => ?_⟩
        rw [List.map_map, List.mem_map] at hRest
        obtain ⟨parent, hParent, rfl⟩ := hRest
        have hReach := ((hParents parent hParent).mem_toList_iff other).1 hOther
        rw [← h.tail_eq_of_reaches (.head hParent hReach)]
        exact (h.linearizes_last other hLast).parents_sublist_ancestors.subset hNext
      · exact .inl (h.othersOf_rename other hLast)
  linked := by
    intro before other after hSplit
    have hWhole : ((orders first).extended rename (tail node)).toList =
        ((orders first).toList.map rename ++ before) ++ other :: after := by
      rw [List.append_assoc, ← hSplit]
      rfl
    rcases (hOthers first hFirst).linked _ other after hWhole with hNone | hEarlier
    · cases hNone
    · exact hEarlier
  spine_mem := fun _ hSpine =>
    .inr ⟨_, List.mem_map_of_mem (List.mem_map_of_mem hFirst), hSpine⟩
  own_mem := by
    intro parent hParent
    refine ⟨_, List.mem_map_of_mem (List.mem_map_of_mem hParent), ?_⟩
    rw [(hParents parent hParent).toList_eq]
    exact List.mem_cons_self
  rests_ne_nil := by simpa using List.ne_nil_of_mem hFirst

/-- So they go the same way, whoever supplies the linearizations. -/
theorem merge_eq (h : Embeds parentsOf othersOf rename tail) (hNonempty : parentsOf node ≠ [])
    {others : β → Linearization β}
    (hSupplied : ∀ other ∈ othersOf (rename node), Linearizes othersOf other (others other)) :
    merge othersOf (rename node) (othersOf (rename node)) ((othersOf (rename node)).map others) =
      ((merge parentsOf node (parentsOf node) ((parentsOf node).map orders)).map
        (Linearization.extended rename (tail node))).mapError
          (Conflict.extended rename (tail node)) := by
  obtain ⟨first, hFirst⟩ := List.exists_mem_of_ne_nil _ hNonempty
  have hSame : ((parentsOf node).map rename).map others =
      ((parentsOf node).map orders).map (Linearization.extended rename (tail node)) := by
    rw [List.map_map, List.map_map]
    refine List.map_congr_left fun parent hParent => ?_
    refine (hSupplied (rename parent) ?_).unique (hOthers parent hParent)
    rw [h.othersOf_rename node hNonempty]
    exact List.mem_map_of_mem hParent
  rw [h.othersOf_rename node hNonempty, hSame]
  exact Merge.merge_extended node (h.extends_start hParents hOthers hFirst)

omit hParents [DecidableEq α] [Hashable α] in
theorem exists_others (h : Embeds parentsOf othersOf rename tail)
    (hNonempty : parentsOf node ≠ []) : ∃ others : β → Linearization β,
      ∀ other ∈ othersOf (rename node), Linearizes othersOf other (others other) := by
  refine ⟨Function.extend rename (fun parent => (orders parent).extended rename (tail node))
    (fun other => ⟨other, []⟩), ?_⟩
  rw [h.othersOf_rename node hNonempty]
  intro other hOther
  obtain ⟨parent, hParent, rfl⟩ := List.mem_map.1 hOther
  rw [h.injective.extend_apply]
  exact hOthers parent hParent

end

theorem linearizes (h : Embeds parentsOf othersOf rename tail) {order : Linearization α}
    (hOrder : Linearizes parentsOf node order) :
    Linearizes othersOf (rename node) (order.extended rename (tail node)) := by
  induction hOrder with
  | @of_merge node order orders hParents hMerge ih =>
      by_cases hLast : parentsOf node = []
      · rw [(Linearizes.of_merge orders hParents hMerge).unique (.of_no_parents hLast)]
        exact h.linearizes_last node hLast
      · have hOthers : ∀ parent ∈ parentsOf node, Linearizes othersOf (rename parent)
            ((orders parent).extended rename (tail node)) :=
          fun parent hParent => h.tail_eq node parent hParent ▸ ih parent hParent
        obtain ⟨others, hSupplied⟩ := h.exists_others hOthers hLast
        refine .of_merge others hSupplied ?_
        rw [h.merge_eq hParents hOthers hLast hSupplied, hMerge]
        rfl

/-- Let the parents of a node have linearizations. Then the merges for it go the same way. -/
theorem merge_eq_of_linearizes (h : Embeds parentsOf othersOf rename tail)
    (hNonempty : parentsOf node ≠ []) {orders : α → Linearization α}
    (hParents : ∀ parent ∈ parentsOf node, Linearizes parentsOf parent (orders parent))
    {others : β → Linearization β}
    (hSupplied : ∀ other ∈ othersOf (rename node), Linearizes othersOf other (others other)) :
    merge othersOf (rename node) (othersOf (rename node)) ((othersOf (rename node)).map others) =
      ((merge parentsOf node (parentsOf node) ((parentsOf node).map orders)).map
        (Linearization.extended rename (tail node))).mapError
          (Conflict.extended rename (tail node)) :=
  h.merge_eq hParents
    (fun parent hParent => h.tail_eq node parent hParent ▸ h.linearizes (hParents parent hParent))
    hNonempty hSupplied

/-- No node gets a linearization by being renamed. -/
theorem exists_linearizes (h : Embeds parentsOf othersOf rename tail) {other : Linearization β}
    (hOther : Linearizes othersOf (rename node) other) :
    ∃ order, Linearizes parentsOf node order := by
  generalize hName : rename node = name at hOther
  induction hOther generalizing node with
  | @of_merge name other others hSupplied hMerge ih =>
      subst hName
      by_cases hLast : parentsOf node = []
      · exact ⟨_, .of_no_parents hLast⟩
      · obtain ⟨orders, hParents⟩ : ∃ orders : α → Linearization α,
            ∀ parent ∈ parentsOf node, Linearizes parentsOf parent (orders parent) := by
          refine Linearizes.exists_orders fun parent hParent => ih (rename parent) ?_ rfl
          rw [h.othersOf_rename node hLast]
          exact List.mem_map_of_mem hParent
        rw [h.merge_eq_of_linearizes hLast hParents hSupplied] at hMerge
        cases hOrder : merge parentsOf node (parentsOf node) ((parentsOf node).map orders) with
        | error conflict =>
            rw [hOrder] at hMerge
            cases hMerge
        | ok order => exact ⟨order, .of_merge orders hParents hOrder⟩

/-- A node has a linearization under its other name exactly if it has one, and then it is the same
with the tail. -/
theorem linearizes_iff (h : Embeds parentsOf othersOf rename tail) {other : Linearization β} :
    Linearizes othersOf (rename node) other ↔
      ∃ order, Linearizes parentsOf node order ∧
        other = order.extended rename (tail node) := by
  constructor
  · intro hOther
    obtain ⟨order, hOrder⟩ := h.exists_linearizes hOther
    exact ⟨order, hOrder, hOther.unique (h.linearizes hOrder)⟩
  · rintro ⟨order, hOrder, rfl⟩
    exact h.linearizes hOrder

theorem clashes_iff (h : Embeds parentsOf othersOf rename tail) {other : Conflict β} :
    Clashes othersOf (rename node) other ↔
      ∃ conflict, Clashes parentsOf node conflict ∧
        other = conflict.extended rename (tail node) := by
  constructor
  · intro hOther
    have hNonempty : parentsOf node ≠ [] :=
      fun hLast => hOther.not_linearizes (h.linearizes_last node hLast)
    obtain ⟨others, hSupplied, hMerge⟩ := hOther
    obtain ⟨orders, hParents⟩ : ∃ orders : α → Linearization α,
        ∀ parent ∈ parentsOf node, Linearizes parentsOf parent (orders parent) := by
      refine Linearizes.exists_orders fun parent hParent =>
        h.exists_linearizes (hSupplied (rename parent) ?_)
      rw [h.othersOf_rename node hNonempty]
      exact List.mem_map_of_mem hParent
    rw [h.merge_eq_of_linearizes hNonempty hParents hSupplied] at hMerge
    cases hConflict : merge parentsOf node (parentsOf node) ((parentsOf node).map orders) with
    | error conflict =>
        rw [hConflict] at hMerge
        exact ⟨conflict, ⟨orders, hParents, hConflict⟩, (Except.error.inj hMerge).symm⟩
    | ok order =>
        rw [hConflict] at hMerge
        cases hMerge
  · rintro ⟨conflict, hClash, rfl⟩
    have hNonempty : parentsOf node ≠ [] :=
      fun hLast => hClash.not_linearizes (.of_no_parents hLast)
    obtain ⟨orders, hParents, hMerge⟩ := hClash
    obtain ⟨others, hSupplied⟩ := h.exists_others (fun parent hParent =>
      h.tail_eq node parent hParent ▸ h.linearizes (hParents parent hParent)) hNonempty
    refine .of_merge others hSupplied ?_
    rw [h.merge_eq_of_linearizes hNonempty hParents hSupplied, hMerge]
    rfl

/-- A walk turns to the same parents. -/
theorem turnsTo_iff (h : Embeds parentsOf othersOf rename tail) (hNonempty : parentsOf node ≠ [])
    {other : β} : TurnsTo othersOf (rename node) other ↔
      ∃ parent, TurnsTo parentsOf node parent ∧ other = rename parent := by
  constructor
  · rintro ⟨before, after, hSplit, hBefore⟩
    rw [h.othersOf_rename node hNonempty, List.map_eq_append_iff] at hSplit
    obtain ⟨ahead, behind, hParents, rfl, hBehind⟩ := hSplit
    obtain ⟨parent, later, rfl, rfl, rfl⟩ := List.map_eq_cons_iff.1 hBehind
    refine ⟨parent, ⟨ahead, later, hParents, fun earlier hEarlier => ?_⟩, rfl⟩
    obtain ⟨order, hOrder⟩ := hBefore (rename earlier) (List.mem_map_of_mem hEarlier)
    exact h.exists_linearizes hOrder
  · rintro ⟨parent, ⟨before, after, hParents, hBefore⟩, rfl⟩
    refine ⟨before.map rename, after.map rename, ?_, fun other hOther => ?_⟩
    · rw [h.othersOf_rename node hNonempty, hParents, List.map_append, List.map_cons]
    · obtain ⟨earlier, hEarlier, rfl⟩ := List.mem_map.1 hOther
      obtain ⟨order, hOrder⟩ := hBefore earlier hEarlier
      exact ⟨_, h.linearizes hOrder⟩

/-- A node meets a clash under its other name exactly if it meets one, and then it is the same with
the tail. -/
theorem meetsClash_iff (h : Embeds parentsOf othersOf rename tail) {other : Conflict β} :
    MeetsClash othersOf (rename node) other ↔
      ∃ conflict, MeetsClash parentsOf node conflict ∧
        other = conflict.extended rename (tail node) := by
  constructor
  · intro hOther
    generalize hName : rename node = name at hOther
    induction hOther generalizing node with
    | own hClash =>
        subst hName
        obtain ⟨conflict, hConflict, rfl⟩ := h.clashes_iff.1 hClash
        exact ⟨conflict, .own hConflict, rfl⟩
    | ancestral hTurn hMeets ih =>
        subst hName
        have hNonempty : parentsOf node ≠ [] := fun hLast =>
          (MeetsClash.ancestral hTurn hMeets).not_linearizes (h.linearizes_last node hLast)
        obtain ⟨parent, hParent, rfl⟩ := (h.turnsTo_iff hNonempty).1 hTurn
        obtain ⟨conflict, hConflict, rfl⟩ := ih rfl
        rw [h.tail_eq node parent hParent.directParent]
        exact ⟨conflict, .ancestral hParent hConflict, rfl⟩
  · rintro ⟨conflict, hMeets, rfl⟩
    induction hMeets with
    | own hClash => exact .own (h.clashes_iff.2 ⟨_, hClash, rfl⟩)
    | @ancestral node parent conflict hTurn _ ih =>
        have hNonempty := List.ne_nil_of_mem hTurn.directParent
        rw [h.tail_eq node parent hTurn.directParent] at ih
        exact .ancestral ((h.turnsTo_iff hNonempty).2 ⟨parent, hTurn, rfl⟩) ih

/-- From some limit on, the walk for a node does not meet the limit under its other name exactly if
that is so for the node. -/
theorem exists_not_hitsLimit_iff (h : Embeds parentsOf othersOf rename tail) (node : α) :
    (∃ enough, ∀ limit, enough ≤ limit →
        ¬Walk.HitsLimit (linearize othersOf (rename node) limit)) ↔
      ∃ enough, ∀ limit, enough ≤ limit → ¬Walk.HitsLimit (linearize parentsOf node limit) := by
  rw [Ancestry.exists_not_hitsLimit_iff, Ancestry.exists_not_hitsLimit_iff]
  simp only [h.linearizes_iff, h.meetsClash_iff]
  constructor
  · rintro (⟨_, order, hOrder, _⟩ | ⟨_, conflict, hMeets, _⟩)
    · exact .inl ⟨order, hOrder⟩
    · exact .inr ⟨conflict, hMeets⟩
  · rintro (⟨order, hOrder⟩ | ⟨conflict, hMeets⟩)
    · exact .inl ⟨_, order, hOrder, rfl⟩
    · exact .inr ⟨_, conflict, hMeets, rfl⟩

end Embeds

end Ancestry
