import Ancestry.Proofs.Walk.Depth

/-! What a conflict records. Each of the orders that were to be merged has been consumed up to some
point, and the conflict says what remains of it. Main statement: the record is exact, whatever was
known when the walk started that met the conflict (`Linearizer.outcome_recorded`). -/
namespace Ancestry

section

variable {α : Type}

/-- The conflict tells exactly how far the given orders were merged: `consumed` is what has been
taken from each of them. -/
structure Conflict.Accounts (conflict : Conflict α) (originals consumed : List (List α)) :
    Prop where
  length_remaining : conflict.remaining.length = originals.length
  length_consumed : consumed.length = originals.length
  split : originals = List.zipWith (· ++ ·) consumed conflict.remaining
  placed : ∃ others, conflict.placed = conflict.node :: others ∧
    ∀ member, member ∈ others ↔ ∃ part ∈ consumed, member ∈ part
  nodup : conflict.placed.Nodup
  /-- What has been placed is left in none of the orders. -/
  fresh : ∀ rest ∈ conflict.remaining, ∀ member ∈ rest, member ∉ conflict.placed
  unfinished : ∃ rest ∈ conflict.remaining, rest ≠ []
  /-- Each head that is left stands behind another one. -/
  blocked : ∀ head rest, head :: rest ∈ conflict.remaining →
    ∃ first behind, first :: behind ∈ conflict.remaining ∧ head ∈ behind

namespace Merge

/-- The consumed parts of orders that split, as one list. -/
theorem exists_consumed {placed : List α} {originals rests : List (List α)}
    (h : List.Forall₂ (SplitBy placed) originals rests) :
    ∃ consumed : List (List α), consumed.length = originals.length ∧
      originals = List.zipWith (· ++ ·) consumed rests ∧ ∀ part ∈ consumed, part ⊆ placed := by
  induction h with
  | nil => exact ⟨[], rfl, rfl, by simp⟩
  | @cons original rest originals rests hSplit _ ih =>
      obtain ⟨part, rfl, hPart⟩ := hSplit
      obtain ⟨consumed, hLength, hOriginals, hConsumed⟩ := ih
      refine ⟨part :: consumed, by simp [hLength], by rw [List.zipWith_cons_cons, ← hOriginals], ?_⟩
      exact List.forall_mem_cons.2 ⟨hPart.subset, hConsumed⟩

theorem mem_zipWith_append {consumed rests : List (List α)} {member : α}
    (h : ∃ original ∈ List.zipWith (· ++ ·) consumed rests, member ∈ original) :
    (∃ part ∈ consumed, member ∈ part) ∨ ∃ rest ∈ rests, member ∈ rest := by
  obtain ⟨original, hOriginal, hMember⟩ := h
  rw [← List.map_uncurry_zip_eq_zipWith] at hOriginal
  obtain ⟨⟨part, rest⟩, hPair, rfl⟩ := List.mem_map.1 hOriginal
  obtain ⟨hPart, hRest⟩ := List.of_mem_zip hPair
  exact (List.mem_append.1 hMember).imp (fun h => ⟨part, hPart, h⟩) fun h => ⟨rest, hRest, h⟩

variable [DecidableEq α] [Hashable α]

/-- A merge that fails for a node that is in none of the orders accounts for all of them. -/
theorem accounts_of_merge_eq_error {parentsOf : α → List α} {node : α} {parents : List α}
    {orders : List (Linearization α)} {conflict : Conflict α}
    (h : merge parentsOf node parents orders = .error conflict)
    (hStuck : Stuck (orders.map (·.toList) ++ [parents]) conflict)
    (hNode : ∀ original ∈ orders.map (·.toList) ++ [parents], node ∉ original) :
    conflict.node = node ∧ conflict.parents = parents ∧
      ∃ consumed, conflict.Accounts (orders.map (·.toList) ++ [parents]) consumed := by
  obtain ⟨final, _, hFinal, _, hMerge⟩ := exists_final parentsOf node parents orders
  by_cases hExhausted : final.isExhausted = true
  · rw [h, if_pos hExhausted] at hMerge
    cases hMerge
  · rw [h, if_neg hExhausted] at hMerge
    cases hMerge
    obtain ⟨consumed, hLength, hSplit, hConsumed⟩ := exists_consumed hFinal.split
    have hPlaced : ∀ member, member ∈ final.placed.reverse ↔
        ∃ part ∈ consumed, member ∈ part := by
      refine fun member => ⟨fun hMember => ?_, fun ⟨part, hPart, hMember⟩ =>
        hConsumed part hPart hMember⟩
      -- A placed node comes from one of the orders and is not in what is left of it.
      rw [List.mem_reverse] at hMember
      rcases mem_zipWith_append (hSplit ▸ hFinal.source member hMember) with hPart | hRest
      · exact hPart
      · obtain ⟨rest, hRest, hLeft⟩ := hRest
        exact absurd hLeft (hFinal.fresh member hMember rest hRest)
    refine ⟨rfl, rfl, consumed, hFinal.split.length_eq.symm, hLength, hSplit,
      ⟨_, rfl, hPlaced⟩, ?_, ?_, hStuck.left, ?_⟩
    · refine List.nodup_cons.2 ⟨fun hMember => ?_, List.nodup_reverse.2 hFinal.nodup⟩
      obtain ⟨original, hOriginal, hIn⟩ := hFinal.source node (List.mem_reverse.1 hMember)
      exact hNode original hOriginal hIn
    · intro rest hRest member hMember hOld
      rcases List.mem_cons.1 hOld with rfl | hOld
      · obtain ⟨original, hOriginal, part, rfl, _⟩ := exists_left_of_forall₂ hFinal.split hRest
        exact hNode _ hOriginal (List.mem_append_right _ hMember)
      · exact hFinal.fresh member (List.mem_reverse.1 hOld) rest hRest hMember
    · intro head rest hHead
      have hBlocked := hStuck.not_eligible head
      simp only [Eligible, not_and, not_forall, not_not] at hBlocked
      obtain ⟨input, hInput, hTail⟩ := hBlocked ⟨rest, hHead⟩
      cases input with
      | nil => cases hTail
      | cons first behind => exact ⟨first, behind, hInput, hTail⟩

end Merge

end

variable {α : Type} [DecidableEq α] [Hashable α] {parents : α → List α} {node : α}
  {conflict : Conflict α}

/-- A node whose parents have linearizations is in none of these. -/
theorem Linearizes.not_mem_of_parents {orders : α → Linearization α}
    (hOrders : ∀ parent ∈ parents node, Linearizes parents parent (orders parent)) :
    ∀ original ∈ ((parents node).map orders).map (·.toList) ++ [parents node],
      node ∉ original := by
  have hNever : ∀ parent ∈ parents node, node ∉ (orders parent).toList := by
    intro parent hParent hNode
    have hReach := ((hOrders parent hParent).mem_toList_iff node).1 hNode
    exact (hOrders parent hParent).not_transGen_self (.tail' hReach hParent)
  intro original hOriginal hNode
  rw [List.map_map, List.mem_append, List.mem_map, List.mem_singleton] at hOriginal
  rcases hOriginal with ⟨parent, hParent, rfl⟩ | rfl
  · exact hNever parent hParent hNode
  · exact hNever node hNode ((hOrders node hNode).toList_eq ▸ List.mem_cons_self)

theorem Clashes.accounts (h : Clashes parents node conflict) {orders : α → Linearization α}
    (hOrders : ∀ parent ∈ parents node, Linearizes parents parent (orders parent)) :
    conflict.parents = parents node ∧ ∃ consumed,
      conflict.Accounts ((parents node).map (fun parent => (orders parent).toList) ++
        [parents node]) consumed := by
  have hStuck := h.stuck hOrders
  obtain ⟨others, hOthers, hMerge⟩ := h
  rw [Linearizes.map_eq_map hOthers hOrders] at hMerge
  have hMap : ((parents node).map orders).map (·.toList) =
      (parents node).map fun parent => (orders parent).toList := List.map_map
  rw [← hMap] at hStuck ⊢
  exact (Merge.accounts_of_merge_eq_error hMerge hStuck (Linearizes.not_mem_of_parents hOrders)).2

/-- Let a linearizer remember linearizations only, and let the cache that it uses hold nothing else.
If a run for a node meets a conflict, this is a conflict of the node or of one of its ancestors, all
parents of which have linearizations. The conflict accounts for the merge of these with the list of
the parents: it says which nodes were taken from the front of each of them and placed behind the
conflicting node, each once, and what is left, of which no node can come next. -/
theorem Linearizer.outcome_recorded {parents : Nat → α → List α} {linearizer : Linearizer α}
    {orders? : Option (OrderCache α)}
    (hMemo : Memo.Sound (parents linearizer.resolver) linearizer.memo)
    (hOrders : ∀ orders ∈ orders?, OrderCache.Sound parents orders) {requested : α}
    {conflict : Conflict α}
    (hConflict : (linearizer.outcome (parents linearizer.resolver) orders? requested).result =
      .error (.inconsistent conflict)) :
    let ofResolver := parents linearizer.resolver
    Reaches ofResolver requested conflict.node ∧
      conflict.parents = ofResolver conflict.node ∧
      conflict.remaining.length = conflict.parents.length + 1 ∧
      ∃ (orders : α → Linearization α) (consumed : List (List α)),
        (∀ parent ∈ conflict.parents, ∀ limit, (orders parent).toList.length ≤ limit →
          linearize ofResolver parent limit = .ok (orders parent)) ∧
        conflict.Accounts
          (conflict.parents.map (fun parent => (orders parent).toList) ++ [conflict.parents])
          consumed := by
  intro ofResolver
  have hAnswer := (outcome_sound hMemo hOrders requested).1
  rw [hConflict] at hAnswer
  cases hAnswer with
  | inconsistent hMeets =>
      have hClash := hMeets.clashes_node
      obtain ⟨orders, hParents⟩ :=
        Linearizes.exists_orders fun _ hParent => hClash.linearizes_parent hParent
      obtain ⟨hSame, consumed, hAccounts⟩ := hClash.accounts hParents
      rw [← hSame] at hParents hAccounts
      have hLength := hAccounts.length_remaining
      rw [List.length_append, List.length_map, List.length_singleton] at hLength
      refine ⟨hMeets.reaches_node, hSame, hLength, orders, consumed, ?_, hAccounts⟩
      exact fun parent hParent limit hLimit => (hParents parent hParent).linearize_eq hLimit

/-- A node with one parent, whose own three parents do not agree: the last one has the second one
for a parent. -/
def disputedParents : Nat → List Nat
  | 5 => [0]
  | 0 => [3, 1, 2]
  | 2 => [1]
  | _ => []

def disputedOrders : Nat → Linearization Nat
  | 2 => ⟨2, [1]⟩
  | leaf => ⟨leaf, []⟩

/-- Of the two leaves one is remembered, and the other one is in the cache. -/
theorem Linearizer.outcome_recorded_disputed :
    let linearizer : Linearizer Nat := ⟨0, 4, some 0, (∅ : Memo Nat).insert 3 ⟨3, []⟩⟩
    let cache : OrderCache Nat := (Cache.empty 16 fun _ => 0).insert (0, 1) ⟨1, []⟩
    let conflict : Conflict Nat := ⟨0, [3, 1, 2], [0, 3], [[], [1], [2, 1], [1, 2]]⟩
    Memo.Sound disputedParents linearizer.memo ∧
      OrderCache.Sound (fun _ => disputedParents) cache ∧
      (linearizer.outcome disputedParents (some cache) 5).result =
        .error (.inconsistent conflict) ∧
      Reaches disputedParents 5 0 ∧
      ∃ (orders : Nat → Linearization Nat) (consumed : List (List Nat)),
        conflict.Accounts ([3, 1, 2].map (fun parent => (orders parent).toList) ++ [[3, 1, 2]])
          consumed := by
  intro linearizer cache conflict
  have hMemo : Memo.Sound disputedParents linearizer.memo :=
    (Memo.sound_empty _).insert (.of_no_parents rfl)
  have hCache : OrderCache.Sound (fun _ => disputedParents) cache :=
    (OrderCache.sound_empty _ 16 _).insert (.of_no_parents rfl)
  have hUsed : ∀ orders ∈ some cache, OrderCache.Sound (fun _ => disputedParents) orders :=
    fun orders hOrders => Option.some.inj hOrders ▸ hCache
  have hOne : Linearizes disputedParents 1 (disputedOrders 1) := .of_no_parents rfl
  have hTwo : Linearizes disputedParents 2 (disputedOrders 2) :=
    .of_only_parent rfl (.of_no_parents rfl)
  have hThree : Linearizes disputedParents 3 (disputedOrders 3) := .of_no_parents rfl
  have hClash : Clashes disputedParents 0 conflict :=
    .of_merge disputedOrders (by simpa [disputedParents] using ⟨hThree, hOne, hTwo⟩)
      (Merge.Plain.merge_eq_error_of_plain (by cbv))
  have hMeets : MeetsClash disputedParents 5 conflict :=
    .ancestral ⟨[], [], rfl, by simp⟩ (.own hClash)
  have hResult : (linearizer.outcome disputedParents (some cache) 5).result =
      .error (.inconsistent conflict) := by
    have hAnswer := (@outcome_sound _ _ _ (fun _ => disputedParents) linearizer (some cache)
      hMemo hUsed 5).1
    refine hAnswer.eq_error hMeets (hAnswer.not_hitsLimit_of_chains ?_)
    refine .of_parents fun parent hParent => ?_
    obtain rfl := List.mem_singleton.1 hParent
    refine .of_parents fun parent hParent => ?_
    have hOrder : Linearizes disputedParents parent (disputedOrders parent) := by
      simp only [disputedParents, List.mem_cons, List.not_mem_nil, or_false] at hParent
      rcases hParent with rfl | rfl | rfl
      exacts [hThree, hOne, hTwo]
    refine hOrder.chainsWithin ?_
    unfold disputedOrders
    split <;> simp [Linearization.toList]
  obtain ⟨hReach, _, _, orders, consumed, _, hAccounts⟩ :=
    @outcome_recorded _ _ _ (fun _ => disputedParents) linearizer (some cache) hMemo hUsed 5
      conflict hResult
  exact ⟨hMemo, hCache, hResult, hReach, orders, consumed, hAccounts⟩

end Ancestry
