import Ancestry.Proofs.Merge.Order
import Mathlib.Data.List.Perm.Subperm

/-! Which order is the linearization of a node, without a walk: a rule that merges the
linearizations of the direct parents. Main statements: a linearization holds the node and its
ancestors, each once (`Linearizes.mem_toList_iff`, `Linearizes.nodup`), and within it every member
keeps its own linearization (`Linearizes.exists_sublist`). -/
namespace Ancestry

open Merge (IsCommonOrder Linked Merged)

variable {α : Type} [DecidableEq α] [Hashable α]

def DirectParent (parents : α → List α) (child parent : α) : Prop := parent ∈ parents child

/-- The nodes reached from a node through direct parents: its ancestors and the node itself. -/
abbrev Reaches (parents : α → List α) : α → α → Prop :=
  Relation.ReflTransGen (DirectParent parents)

/-- The linearization of a node is the merge of those of its direct parents. Derivations are
finite, so that a node from which a cycle of parents is reached has none. -/
inductive Linearizes (parents : α → List α) : α → Linearization α → Prop where
  | of_merge {node : α} {order : Linearization α} (orders : α → Linearization α)
      (hParents : ∀ parent ∈ parents node, Linearizes parents parent (orders parent))
      (hMerge : merge parents node (parents node) ((parents node).map orders) = .ok order) :
      Linearizes parents node order

/-- The merge of the linearizations of a node's direct parents gets stuck. -/
inductive Clashes (parents : α → List α) (node : α) (conflict : Conflict α) : Prop where
  | of_merge (orders : α → Linearization α)
      (hParents : ∀ parent ∈ parents node, Linearizes parents parent (orders parent))
      (hMerge : merge parents node (parents node) ((parents node).map orders) = .error conflict)

variable {parents : α → List α} {node : α} {order : Linearization α}

/-- The linearization of a node without parents is the node alone. -/
theorem Linearizes.of_no_parents (h : parents node = []) :
    Linearizes parents node ⟨node, []⟩ := by
  refine .of_merge (fun parent => ⟨parent, []⟩) (by simp [h]) ?_
  rw [h]
  exact Merge.merge_nil parents node

/-- A node has at most one linearization. -/
theorem Linearizes.unique {other : Linearization α} (h : Linearizes parents node order)
    (hOther : Linearizes parents node other) : order = other := by
  induction h generalizing other with
  | of_merge orders _ hMerge ih =>
      obtain ⟨others, hParents, hOther⟩ := hOther
      have hSame : (parents _).map orders = (parents _).map others :=
        List.map_congr_left fun parent hParent => ih parent hParent (hParents parent hParent)
      rw [hSame, hOther] at hMerge
      exact (Except.ok.inj hMerge).symm

/-- So it does not matter who supplies the linearizations of the parents. -/
theorem Linearizes.map_eq_map {orders others : α → Linearization α}
    (h : ∀ parent ∈ parents node, Linearizes parents parent (orders parent))
    (hOthers : ∀ parent ∈ parents node, Linearizes parents parent (others parent)) :
    (parents node).map orders = (parents node).map others :=
  List.map_congr_left fun parent hParent => (h parent hParent).unique (hOthers parent hParent)

/-- One function for the linearizations of all parents. -/
theorem Linearizes.exists_orders
    (h : ∀ parent ∈ parents node, ∃ own, Linearizes parents parent own) :
    ∃ orders : α → Linearization α,
      ∀ parent ∈ parents node, Linearizes parents parent (orders parent) := by
  have hOwn : ∀ parent, ∃ own : Linearization α,
      parent ∈ parents node → Linearizes parents parent own := by
    intro parent
    by_cases hParent : parent ∈ parents node
    · obtain ⟨own, hOwn⟩ := h parent hParent
      exact ⟨own, fun _ => hOwn⟩
    · exact ⟨⟨parent, []⟩, fun hOther => absurd hOther hParent⟩
  choose orders hOrders using hOwn
  exact ⟨orders, hOrders⟩

theorem Clashes.not_linearizes {conflict : Conflict α} (h : Clashes parents node conflict) :
    ¬Linearizes parents node order := by
  intro hOrder
  obtain ⟨orders, hParents, hMerge⟩ := h
  obtain ⟨others, hOthers, hOther⟩ := hOrder
  rw [Linearizes.map_eq_map hParents hOthers, hOther] at hMerge
  cases hMerge

omit [Hashable α] in
theorem exists_idxOf?_lt {list : List α} {first second : α} (hNodup : list.Nodup)
    (h : [first, second].Sublist list) :
    ∃ i j, list.idxOf? first = some i ∧ list.idxOf? second = some j ∧ i < j := by
  induction list with
  | nil => cases h
  | cons head tail ih =>
      obtain ⟨hHead, hTail⟩ := List.nodup_cons.1 hNodup
      have hLater : ∀ member ∈ tail, ∀ k, tail.idxOf? member = some k →
          (head :: tail).idxOf? member = some (k + 1) := by
        intro member hMember k hFound
        have hNe : head ≠ member := fun hSame => hHead (hSame ▸ hMember)
        simp [List.idxOf?_cons, hNe, hFound]
      rcases List.sublist_cons_iff.1 h with hSkip | ⟨rest, hSame, hRest⟩
      · obtain ⟨i, j, hFirst, hSecond, hLess⟩ := ih hTail hSkip
        have hMembers := hSkip.subset
        exact ⟨i + 1, j + 1, hLater first (hMembers (by simp)) i hFirst,
          hLater second (hMembers (by simp)) j hSecond, Nat.succ_lt_succ hLess⟩
      · cases hSame
        have hMember : second ∈ tail := List.singleton_sublist.1 hRest
        obtain ⟨j, hSecond⟩ := Option.isSome_iff_exists.1 (List.isSome_idxOf?.2 hMember)
        exact ⟨0, j + 1, by simp [List.idxOf?_cons], hLater second hMember j hSecond,
          Nat.succ_pos j⟩

omit [Hashable α] in
theorem Linearization.precedes_of_sublist {first second : α} (hNodup : order.toList.Nodup)
    (h : [first, second].Sublist order.toList) : order.precedes first second = true := by
  obtain ⟨i, j, hFirst, hSecond, hLess⟩ := exists_idxOf?_lt hNodup h
  simp [Linearization.precedes, Linearization.position?, hFirst, hSecond, hLess]

omit [DecidableEq α] [Hashable α] in
theorem Merge.sublist_behind {front back after : List α} {middle : α}
    (h : (middle :: after).Sublist (front ++ middle :: back)) (hFront : middle ∉ front) :
    after.Sublist back := by
  obtain ⟨first, second, hSplit, hFirst, hSecond⟩ := List.sublist_append_iff.1 h
  cases first with
  | nil =>
      rw [List.nil_append] at hSplit
      rw [← hSplit] at hSecond
      exact List.cons_sublist_cons.1 hSecond
  | cons head rest =>
      obtain ⟨rfl, _⟩ := List.cons.inj hSplit
      exact absurd (hFirst.subset List.mem_cons_self) hFront

omit [DecidableEq α] [Hashable α] in
/-- Two orders that overlap in one node leave no choice. -/
theorem Merge.eq_of_overlap {common before after : List α} {middle : α} (hNodup : common.Nodup)
    (hFirst : (before ++ [middle]).Sublist common) (hSecond : (middle :: after).Sublist common)
    (hSource : ∀ member ∈ common, member ∈ before ++ middle :: after) :
    common = before ++ middle :: after := by
  have hMiddle : middle ∈ common := hSecond.subset List.mem_cons_self
  obtain ⟨front, back, rfl⟩ := List.append_of_mem hMiddle
  obtain ⟨hFrontNodup, hBackNodup, hApart⟩ := List.nodup_append.1 hNodup
  have hNotBack := (List.nodup_cons.1 hBackNodup).1
  have hNotFront : middle ∉ front := fun hMember => hApart _ hMember _ List.mem_cons_self rfl
  have hAfter : after.Sublist back := sublist_behind hSecond hNotFront
  have hReverse : (middle :: before.reverse).Sublist (back.reverse ++ middle :: front.reverse) := by
    simpa using hFirst.reverse
  have hBefore : before.Sublist front := by
    simpa using sublist_behind hReverse (by simpa using hNotBack)
  have hKept := hBefore.append (hAfter.cons_cons middle)
  have hLength := (List.subperm_of_subset hNodup hSource).length_le
  exact (hKept.eq_of_length_le hLength).symm

namespace Linearizes

/-- What the merge says about a linearization. -/
theorem merged (h : Linearizes parents node order) :
    order.node = node ∧ ∃ orders : α → Linearization α,
      (∀ parent ∈ parents node, Linearizes parents parent (orders parent)) ∧
      Merged parents (parents node)
        (((parents node).map orders).map (·.toList) ++ [parents node]) order.ancestors := by
  obtain ⟨orders, hParents, hMerge⟩ := h
  obtain ⟨hNode, hMerged⟩ := Merge.merge_eq_ok hMerge
  exact ⟨hNode, orders, hParents, hMerged⟩

theorem node_eq (h : Linearizes parents node order) : order.node = node := h.merged.1

theorem toList_eq (h : Linearizes parents node order) :
    order.toList = node :: order.ancestors := by
  rw [Linearization.toList, h.node_eq]

/-- A direct parent keeps its linearization among the ancestors. -/
theorem exists_parent (h : Linearizes parents node order) {parent : α}
    (hParent : parent ∈ parents node) :
    ∃ own, Linearizes parents parent own ∧ own.toList.Sublist order.ancestors := by
  obtain ⟨_, orders, hParents, hMerged⟩ := h.merged
  refine ⟨orders parent, hParents parent hParent, hMerged.sublist _ ?_⟩
  exact List.mem_append_left _ (List.mem_map_of_mem (List.mem_map_of_mem hParent))

theorem parents_sublist_ancestors (h : Linearizes parents node order) :
    (parents node).Sublist order.ancestors := by
  obtain ⟨_, _, _, hMerged⟩ := h.merged
  exact hMerged.sublist _ (by simp)

/-- Every ancestor comes from the linearization of a direct parent. -/
theorem exists_parent_of_mem_ancestors (h : Linearizes parents node order) {member : α}
    (hMember : member ∈ order.ancestors) :
    ∃ parent ∈ parents node, ∃ own, Linearizes parents parent own ∧ member ∈ own.toList ∧
      own.toList.Sublist order.ancestors := by
  obtain ⟨_, orders, hParents, hMerged⟩ := h.merged
  obtain ⟨input, hInput, hMemberInput⟩ := hMerged.source member hMember
  rw [List.map_map, List.mem_append, List.mem_map, List.mem_singleton] at hInput
  rcases hInput with ⟨parent, hParent, rfl⟩ | rfl
  · refine ⟨parent, hParent, orders parent, hParents parent hParent, hMemberInput, ?_⟩
    exact hMerged.sublist _ (by simpa using .inl ⟨parent, hParent, rfl⟩)
  · -- The member is a parent itself.
    obtain ⟨own, hOwn, hSublist⟩ := h.exists_parent hMemberInput
    exact ⟨member, hMemberInput, own, hOwn, by simp [hOwn.toList_eq], hSublist⟩

/-- The linearization holds the node and its ancestors, nothing else. -/
theorem mem_toList_iff (h : Linearizes parents node order) (member : α) :
    member ∈ order.toList ↔ Reaches parents node member := by
  induction h generalizing member with
  | @of_merge node order orders hParents hMerge ih =>
      have hOrder : Linearizes parents node order := .of_merge orders hParents hMerge
      rw [hOrder.toList_eq, List.mem_cons, Reaches, Relation.ReflTransGen.cases_head_iff, eq_comm]
      refine or_congr_right ⟨fun hMember => ?_, fun ⟨parent, hParent, hReach⟩ => ?_⟩
      · obtain ⟨parent, hParent, own, hOwn, hMemberOwn, _⟩ :=
          hOrder.exists_parent_of_mem_ancestors hMember
        rw [hOwn.unique (hParents parent hParent)] at hMemberOwn
        exact ⟨parent, hParent, (ih parent hParent member).1 hMemberOwn⟩
      · obtain ⟨own, hOwn, hSublist⟩ := hOrder.exists_parent hParent
        rw [hOwn.unique (hParents parent hParent)] at hSublist
        exact hSublist.subset ((ih parent hParent member).2 hReach)

/-- A node that has a linearization is on no cycle of parents. -/
theorem not_transGen_self (h : Linearizes parents node order) :
    ¬Relation.TransGen (DirectParent parents) node node := by
  induction h with
  | of_merge _ _ _ ih =>
      intro hCycle
      obtain ⟨parent, hParent, hBack⟩ := Relation.TransGen.head'_iff.1 hCycle
      exact ih parent hParent (.tail' hBack hParent)

theorem not_mem_ancestors (h : Linearizes parents node order) : node ∉ order.ancestors := by
  intro hMember
  obtain ⟨parent, hParent, own, hOwn, hNode, _⟩ := h.exists_parent_of_mem_ancestors hMember
  exact h.not_transGen_self (.head' hParent ((hOwn.mem_toList_iff node).1 hNode))

theorem nodup (h : Linearizes parents node order) : order.toList.Nodup := by
  obtain ⟨_, _, _, hMerged⟩ := h.merged
  rw [h.toList_eq]
  exact List.nodup_cons.2 ⟨h.not_mem_ancestors, hMerged.nodup⟩

/-- Every member has a linearization of its own, which is kept. -/
theorem exists_sublist (h : Linearizes parents node order) {member : α}
    (hMember : member ∈ order.toList) :
    ∃ own, Linearizes parents member own ∧ own.toList.Sublist order.toList := by
  induction h with
  | @of_merge node order orders hParents hMerge ih =>
      have hOrder : Linearizes parents node order := .of_merge orders hParents hMerge
      have hAncestors : order.ancestors.Sublist order.toList := List.sublist_cons_self _ _
      rw [hOrder.toList_eq, List.mem_cons] at hMember
      rcases hMember with rfl | hMember
      · exact ⟨order, hOrder, List.Sublist.refl _⟩
      · obtain ⟨parent, hParent, own, hOwn, hMemberOwn, hSublist⟩ :=
          hOrder.exists_parent_of_mem_ancestors hMember
        obtain rfl := hOwn.unique (hParents parent hParent)
        obtain ⟨inner, hInner, hInnerSublist⟩ := ih parent hParent hMemberOwn
        exact ⟨inner, hInner, (hInnerSublist.trans hSublist).trans hAncestors⟩

/-- Every node precedes its ancestors. -/
theorem precedes (h : Linearizes parents node order) {member ancestor : α}
    (hMember : member ∈ order.toList) (hReach : Reaches parents member ancestor)
    (hNe : ancestor ≠ member) : order.precedes member ancestor = true := by
  obtain ⟨own, hOwn, hSublist⟩ := h.exists_sublist hMember
  have hAncestor : ancestor ∈ own.ancestors := by
    have hIn := (hOwn.mem_toList_iff ancestor).2 hReach
    rw [hOwn.toList_eq] at hIn
    exact (List.mem_cons.1 hIn).resolve_left hNe
  refine Linearization.precedes_of_sublist h.nodup (List.Sublist.trans ?_ hSublist)
  rw [hOwn.toList_eq]
  exact (List.singleton_sublist.2 hAncestor).cons_cons member

/-- Of two parents, the one that is listed first is no ancestor of the other. -/
theorem not_reaches_of_listed (h : Linearizes parents node order) {first second : α}
    (hListed : [first, second].Sublist (parents node)) (hNe : first ≠ second) :
    ¬Reaches parents second first := by
  intro hReach
  have hSecond : second ∈ parents node := hListed.subset (by simp)
  obtain ⟨own, hOwn, hSublist⟩ := h.exists_parent hSecond
  have hFirst : first ∈ own.ancestors := by
    have hIn := (hOwn.mem_toList_iff first).2 hReach
    rw [hOwn.toList_eq] at hIn
    exact (List.mem_cons.1 hIn).resolve_left hNe
  have hBefore := hListed.trans h.parents_sublist_ancestors
  have hBehind : [second, first].Sublist order.ancestors := by
    apply List.Sublist.trans _ hSublist
    rw [hOwn.toList_eq]
    exact (List.singleton_sublist.2 hFirst).cons_cons second
  have hNodup : order.ancestors.Nodup := h.nodup.sublist (List.sublist_cons_self _ _)
  obtain ⟨i, j, hFirstAt, hSecondAt, hLess⟩ := exists_idxOf?_lt hNodup hBefore
  obtain ⟨k, l, hSecondAt', hFirstAt', hMore⟩ := exists_idxOf?_lt hNodup hBehind
  obtain rfl := Option.some.inj (hFirstAt.symm.trans hFirstAt')
  obtain rfl := Option.some.inj (hSecondAt.symm.trans hSecondAt')
  omega

/-- Every member but the first is a direct parent of an earlier one. -/
theorem linked (h : Linearizes parents node order) : Linked parents order.toList := by
  intro before member after hSplit
  obtain ⟨_, _, _, hMerged⟩ := h.merged
  rw [h.toList_eq] at hSplit
  cases before with
  | nil => exact .inl rfl
  | cons first others =>
      obtain ⟨rfl, hAncestors⟩ := List.cons.inj hSplit
      right
      rcases hMerged.linked others member after hAncestors with
        hParent | ⟨earlier, hEarlier, hParent⟩
      · exact ⟨node, List.mem_cons_self, hParent⟩
      · exact ⟨earlier, List.mem_cons_of_mem _ hEarlier, hParent⟩

/-- The last member has no parents: they would come behind it. -/
theorem parents_of_last (h : Linearizes parents node order) {last : α}
    (hLast : order.toList.getLast? = some last) : parents last = [] := by
  obtain ⟨front, hFront⟩ := List.getLast?_eq_some_iff.1 hLast
  obtain ⟨own, hOwn, hSublist⟩ := h.exists_sublist (List.mem_of_getLast? hLast)
  rw [hFront, hOwn.toList_eq] at hSublist
  have hNotFront : last ∉ front := fun hMember =>
    (List.nodup_append.1 (hFront ▸ h.nodup)).2.2 last hMember last List.mem_cons_self rfl
  have hBehind := Merge.sublist_behind hSublist hNotFront
  exact List.sublist_nil.1 (hOwn.parents_sublist_ancestors.trans hBehind)

/-- No chain of parents from the node is longer than its linearization. -/
theorem length_chain_le {chain : List α} (h : Linearizes parents node order)
    (hChain : List.IsChain (DirectParent parents) (node :: chain)) :
    (node :: chain).length ≤ order.toList.length := by
  induction chain generalizing node order with
  | nil => simp [Linearization.toList]
  | cons next rest ih =>
      rw [List.isChain_cons_cons] at hChain
      obtain ⟨own, hOwn, hSublist⟩ := h.exists_parent hChain.1
      have hRest := ih hOwn hChain.2
      have hLength := hSublist.length_le
      simp only [Linearization.toList, List.length_cons] at hRest hLength ⊢
      omega

end Linearizes

section

variable {orders : α → Linearization α}

/-- A linearization is a common order of what was merged for it. -/
theorem Linearizes.isCommonOrder (h : Linearizes parents node order)
    (hParents : ∀ parent ∈ parents node, Linearizes parents parent (orders parent)) :
    IsCommonOrder ((parents node).map (fun parent => (orders parent).toList) ++ [parents node])
      order.ancestors := by
  refine ⟨(List.nodup_cons.1 (h.toList_eq ▸ h.nodup)).2, fun input hInput => ?_⟩
  rw [List.mem_append, List.mem_map, List.mem_singleton] at hInput
  rcases hInput with ⟨parent, hParent, rfl⟩ | rfl
  · obtain ⟨own, hOwn, hSublist⟩ := h.exists_parent hParent
    rwa [hOwn.unique (hParents parent hParent)] at hSublist
  · exact h.parents_sublist_ancestors

/-- The orders that are merged for a node are linked, and each begins with the parent. -/
theorem Linearizes.linked_of_mem_map
    (hParents : ∀ parent ∈ parents node, Linearizes parents parent (orders parent)) :
    ∀ own ∈ (parents node).map orders, own.node ∈ parents node ∧ Linked parents own.toList := by
  intro own hOwn
  obtain ⟨parent, hParent, rfl⟩ := List.mem_map.1 hOwn
  have hOrder := hParents parent hParent
  refine ⟨?_, hOrder.linked⟩
  rwa [hOrder.node_eq]

/-- A merge for a node that fails is stuck. -/
theorem Clashes.stuck {conflict : Conflict α} (h : Clashes parents node conflict)
    (hParents : ∀ parent ∈ parents node, Linearizes parents parent (orders parent)) :
    Merge.Stuck ((parents node).map (fun parent => (orders parent).toList) ++ [parents node])
      conflict := by
  obtain ⟨others, hOthers, hMerge⟩ := h
  rw [Linearizes.map_eq_map hOthers hParents] at hMerge
  have hStuck := Merge.merge_eq_error hMerge (Linearizes.linked_of_mem_map hParents)
  rwa [List.map_map] at hStuck

theorem Clashes.no_common_order {conflict : Conflict α} (h : Clashes parents node conflict)
    (hParents : ∀ parent ∈ parents node, Linearizes parents parent (orders parent)) :
    ¬∃ common, IsCommonOrder
      ((parents node).map (fun parent => (orders parent).toList) ++ [parents node]) common :=
  (h.stuck hParents).no_common_order

/-- If two of the orders to be merged overlap in one node and hold all nodes between them, then the
merge puts the one behind the other. -/
theorem Linearizes.of_overlap {before after : List α} {middle : α}
    (hParents : ∀ parent ∈ parents node, Linearizes parents parent (orders parent))
    (hCommon : Merge.IsCommonOrder
      ((parents node).map (fun parent => (orders parent).toList) ++ [parents node])
      (before ++ middle :: after))
    (hFirst : before ++ [middle] ∈
      (parents node).map (fun parent => (orders parent).toList) ++ [parents node])
    (hSecond : middle :: after ∈
      (parents node).map (fun parent => (orders parent).toList) ++ [parents node]) :
    Linearizes parents node ⟨node, before ++ middle :: after⟩ := by
  refine .of_merge orders hParents ?_
  cases hMerge : merge parents node (parents node) ((parents node).map orders) with
  | error conflict =>
      have hClash : Clashes parents node conflict := ⟨orders, hParents, hMerge⟩
      exact absurd ⟨_, hCommon⟩ (hClash.no_common_order hParents)
  | ok order =>
      obtain ⟨hNode, hMerged⟩ := Merge.merge_eq_ok hMerge
      rw [List.map_map] at hMerged
      have hSame := Merge.eq_of_overlap hMerged.nodup (hMerged.sublist _ hFirst)
        (hMerged.sublist _ hSecond) fun member hMember => by
          obtain ⟨input, hInput, hMemberInput⟩ := hMerged.source member hMember
          exact (hCommon.2 input hInput).subset hMemberInput
      obtain ⟨first, ancestors⟩ := order
      cases hNode
      cases hSame
      rfl

/-- The linearization of an only parent is put behind the node. -/
theorem Linearizes.of_only_parent {parent : α} {rest : List α} (h : parents node = [parent])
    (hParent : Linearizes parents parent ⟨parent, rest⟩) :
    Linearizes parents node ⟨node, parent :: rest⟩ := by
  have hOrders : ∀ other ∈ parents node,
      Linearizes parents other ((fun _ => ⟨parent, rest⟩ : α → Linearization α) other) := by
    simpa [h] using hParent
  refine @Linearizes.of_overlap _ _ _ _ _ _ [] rest parent hOrders ⟨hParent.nodup, ?_⟩ ?_ ?_
  · simp [h, Linearization.toList]
  · simp [h]
  · simp [h, Linearization.toList]

end

end Ancestry
