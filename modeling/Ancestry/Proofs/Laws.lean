import Ancestry.Proofs.Merge.Plain
import Ancestry.Proofs.Walk.Answer

/-! The laws of linearization. No graph of parents is excluded, be it cyclic or infinite. Main
statements: a linearization holds exactly the ancestors (`linearize_members`), within it every
member keeps its own (`linearize_keeps_members`), and a node of which all parents have one lacks
it only where these have no common order (`linearize_inconsistent_iff`). -/
namespace Ancestry

open Merge (Eligible IsCommonOrder)
open Walk (HitsLimit)

variable {α : Type} [DecidableEq α] [Hashable α] {parents : α → List α} {node : α}

/-- The plain rule suffices to find a linearization. -/
theorem Linearizes.of_plain {ancestors : List α} (orders : α → Linearization α)
    (hParents : ∀ parent ∈ parents node, Linearizes parents parent (orders parent))
    (hMerge : Merge.Plain.merge parents node (parents node)
      (((parents node).map orders).map (·.toList)) = .ok (node :: ancestors)) :
    Linearizes parents node ⟨node, ancestors⟩ :=
  .of_merge orders hParents (Merge.Plain.merge_eq_ok_of_plain hMerge)

/-- Three parents, of which the third is also a parent of the first. Once the second is placed, its
own parent goes before that of the first. -/
def tiedParents : Nat → List Nat
  | 0 => [1, 2, 3]
  | 1 => [3]
  | 2 => [4]
  | _ => []

def tiedOrders : Nat → Linearization Nat
  | 1 => ⟨1, [3]⟩
  | 2 => ⟨2, [4]⟩
  | leaf => ⟨leaf, []⟩

theorem linearize_tiedParents : linearize tiedParents 0 5 = .ok ⟨0, [1, 2, 4, 3]⟩ := by
  have hThree : Linearizes tiedParents 3 (tiedOrders 3) :=
    .of_plain tiedOrders (by simp [tiedParents]) (by cbv)
  have hFour : Linearizes tiedParents 4 (tiedOrders 4) :=
    .of_plain tiedOrders (by simp [tiedParents]) (by cbv)
  have hOne : Linearizes tiedParents 1 (tiedOrders 1) :=
    .of_plain tiedOrders (by simpa [tiedParents] using hThree) (by cbv)
  have hTwo : Linearizes tiedParents 2 (tiedOrders 2) :=
    .of_plain tiedOrders (by simpa [tiedParents] using hFour) (by cbv)
  have hRoot : Linearizes tiedParents 0 ⟨0, [1, 2, 4, 3]⟩ :=
    .of_plain tiedOrders (by simpa [tiedParents] using ⟨hOne, hTwo, hThree⟩) (by cbv)
  exact hRoot.linearize_eq (by decide)

/-- The linearization of a node begins with the node, repeats nothing, and holds exactly the nodes
reached from it through direct parents. -/
theorem linearize_members {limit : Nat} {order : Linearization α}
    (h : linearize parents node limit = .ok order) :
    order.toList.head? = some node ∧ order.toList.Nodup ∧
      ∀ member, member ∈ order.toList ↔ Reaches parents node member := by
  have hOrder := Linearizes.of_linearize h
  refine ⟨?_, hOrder.nodup, hOrder.mem_toList_iff⟩
  rw [hOrder.toList_eq, List.head?_cons]

theorem linearize_members_tied :
    linearize tiedParents 0 5 = .ok ⟨0, [1, 2, 4, 3]⟩ ∧
    [0, 1, 2, 4, 3].head? = some 0 ∧ [0, 1, 2, 4, 3].Nodup ∧
    ∀ member, member ∈ [0, 1, 2, 4, 3] ↔ Reaches tiedParents 0 member :=
  ⟨linearize_tiedParents, linearize_members linearize_tiedParents⟩

/-- A linearization keeps the parents of each member in their order, and it keeps the member's own
linearization, for which a limit of the whole length is enough. So each member precedes all its
ancestors. -/
theorem linearize_keeps_members {limit : Nat} {order : Linearization α} {member : α}
    (h : linearize parents node limit = .ok order) (hMember : member ∈ order.toList) :
    (parents member).Sublist order.toList ∧ (parents member).Nodup ∧
      (∃ own : Linearization α,
        (∀ depth, order.toList.length ≤ depth → linearize parents member depth = .ok own) ∧
        own.toList.Sublist order.toList) ∧
      ∀ ancestor, Reaches parents member ancestor → ancestor ≠ member →
        order.precedes member ancestor = true := by
  have hOrder := Linearizes.of_linearize h
  obtain ⟨own, hOwn, hSublist⟩ := hOrder.exists_sublist hMember
  have hAncestors : own.ancestors.Sublist own.toList := List.sublist_cons_self _ _
  have hParents := (hOwn.parents_sublist_ancestors.trans hAncestors).trans hSublist
  refine ⟨hParents, hOrder.nodup.sublist hParents, ⟨own, fun depth hDepth => ?_, hSublist⟩, ?_⟩
  · exact hOwn.linearize_eq (hSublist.length_le.trans hDepth)
  · exact fun ancestor hReach hNe => hOrder.precedes hMember hReach hNe

theorem linearize_keeps_members_tied :
    linearize tiedParents 0 5 = .ok ⟨0, [1, 2, 4, 3]⟩ ∧ 2 ∈ [0, 1, 2, 4, 3] ∧
    (tiedParents 2).Sublist [0, 1, 2, 4, 3] ∧
    ∃ own : Linearization Nat,
      (∀ depth, 5 ≤ depth → linearize tiedParents 2 depth = .ok own) ∧
      own.toList.Sublist [0, 1, 2, 4, 3] := by
  have hMember : 2 ∈ Linearization.toList (⟨0, [1, 2, 4, 3]⟩ : Linearization Nat) := by decide
  obtain ⟨hParents, _, hOwn, _⟩ := linearize_keeps_members linearize_tiedParents hMember
  exact ⟨linearize_tiedParents, hMember, hParents, hOwn⟩

section

variable {orders : α → Linearization α}

/-- From some limit on, the walk for a node of which all parents have linearizations does not meet
the limit. -/
theorem exists_limit_not_hit
    (hOrders : ∀ parent ∈ parents node, Linearizes parents parent (orders parent)) :
    ∃ enough, ∀ limit, enough ≤ limit → ¬HitsLimit (linearize parents node limit) := by
  refine (ChainsBounded.of_parents fun parent hTurn => ?_).exists_not_hitsLimit
  exact (hOrders parent hTurn.directParent).chainsBounded

/-- An answer for such a node is a conflict exactly if there is no common order. -/
theorem Walk.Answer.inconsistent_iff {limit : Nat}
    {result : Except (Failure α) (Linearization α)} (h : Answer parents limit node result)
    (hOrders : ∀ parent ∈ parents node, Linearizes parents parent (orders parent))
    (hLimit : ¬HitsLimit result) :
    (∃ conflict, result = .error (.inconsistent conflict)) ↔
      ¬∃ common, IsCommonOrder
        ((parents node).map (fun parent => (orders parent).toList) ++ [parents node]) common := by
  constructor
  · rintro ⟨conflict, rfl⟩
    cases h with
    | inconsistent hMeets =>
        -- The conflict is that of the node itself, since its parents have linearizations.
        have hClash := hMeets.clashes fun parent hParent => ⟨_, hOrders parent hParent⟩
        exact hClash.no_common_order hOrders
  · intro hNone
    cases h with
    | ok hOrder => exact absurd ⟨_, hOrder.isCommonOrder hOrders⟩ hNone
    | inconsistent => exact ⟨_, rfl⟩
    | tooDeep => exact absurd ⟨_, _, _, _, rfl⟩ hLimit

/-- At every step of the merge for such a node, an eligible head is a direct parent of a node that
is placed, and the search finds one. -/
theorem Merge.State.Leads.finds_eligible {state : State α}
    (hLeads : Leads parents (.start (parents node) ((parents node).map orders)) state)
    (hOrders : ∀ parent ∈ parents node, Linearizes parents parent (orders parent)) {head : α}
    (hHead : Eligible state.inputs head) :
    (∃ earlier ∈ node :: state.placed, head ∈ parents earlier) ∧
      state.candidate?.isSome = true := by
  have hState := hLeads.invariant (.start parents (parents node) ((parents node).map orders))
  have hInputs := fun original (hOriginal : original ∈ _) =>
    isInput_of_mem (Linearizes.linked_of_mem_map hOrders) hOriginal
  refine ⟨?_, hState.candidate?_isSome hInputs hHead⟩
  obtain ⟨⟨rest, hInput⟩, _⟩ := hHead
  obtain ⟨searched, hSearched, hMember⟩ := hState.exists_searched hInputs hInput
  rw [hState.searched_eq, List.mem_append, List.mem_map, List.mem_singleton] at hSearched
  rcases hSearched with ⟨earlier, hEarlier, rfl⟩ | rfl
  · exact ⟨earlier, List.mem_cons_of_mem _ hEarlier, hMember⟩
  · exact ⟨node, List.mem_cons_self, hMember⟩

end

/-- Let all direct parents of a node have linearizations. From some limit on, the walk for the node
does not meet the limit. Where it does not, it fails exactly if no order without repetition keeps
all these linearizations and the order of the parents. The search for the next node looks only at
direct parents of nodes that are placed, and misses none that may come next. -/
theorem linearize_inconsistent_iff {orders : α → Linearization α}
    (hParents : ∀ parent ∈ parents node,
      ∃ limit, linearize parents parent limit = .ok (orders parent)) :
    (∃ enough, ∀ limit, enough ≤ limit → ¬HitsLimit (linearize parents node limit)) ∧
    (∀ limit, ¬HitsLimit (linearize parents node limit) →
      ((∃ conflict, linearize parents node limit = .error (.inconsistent conflict)) ↔
        ¬∃ common, IsCommonOrder
          ((parents node).map (fun parent => (orders parent).toList) ++ [parents node]) common)) ∧
    ∀ state, Merge.State.Leads parents (.start (parents node) ((parents node).map orders)) state →
      ∀ head, Eligible state.inputs head →
        (∃ earlier ∈ node :: state.placed, head ∈ parents earlier) ∧
        state.candidate?.isSome = true := by
  have hOrders : ∀ parent ∈ parents node, Linearizes parents parent (orders parent) := by
    intro parent hParent
    obtain ⟨_, hResult⟩ := hParents parent hParent
    exact .of_linearize hResult
  refine ⟨exists_limit_not_hit hOrders, ?_, ?_⟩
  · intro limit hLimit
    exact (linearize_answer parents node limit).inconsistent_iff hOrders hLimit
  · intro state hLeads head hHead
    exact hLeads.finds_eligible hOrders hHead

/-- Two parents in an order against which the second one speaks. -/
def contraryParents : Nat → List Nat
  | 0 => [1, 2]
  | 2 => [1]
  | _ => []

def contraryOrders : Nat → Linearization Nat
  | 2 => ⟨2, [1]⟩
  | leaf => ⟨leaf, []⟩

theorem linearize_inconsistent_iff_contrary :
    (∀ parent ∈ contraryParents 0,
      ∃ limit, linearize contraryParents parent limit = .ok (contraryOrders parent)) ∧
    ∃ limit conflict, linearize contraryParents 0 limit = .error (.inconsistent conflict) := by
  have hOne : Linearizes contraryParents 1 (contraryOrders 1) :=
    .of_plain contraryOrders (by simp [contraryParents]) (by cbv)
  have hTwo : Linearizes contraryParents 2 (contraryOrders 2) :=
    .of_plain contraryOrders (by simpa [contraryParents] using hOne) (by cbv)
  have hParents : ∀ parent ∈ contraryParents 0,
      ∃ limit, linearize contraryParents parent limit = .ok (contraryOrders parent) := by
    simp only [contraryParents, List.mem_cons, List.not_mem_nil, or_false, forall_eq_or_imp,
      forall_eq]
    exact ⟨⟨2, hOne.linearize_eq (by decide)⟩, 2, hTwo.linearize_eq (by decide)⟩
  obtain ⟨⟨enough, hEnough⟩, hIff, _⟩ := linearize_inconsistent_iff hParents
  refine ⟨hParents, enough, (hIff enough (hEnough enough (Nat.le_refl _))).2 ?_⟩
  -- The second parent comes before the first in its own linearization.
  rintro ⟨common, hNodup, hKept⟩
  have hTwoOne : [2, 1].Sublist common := hKept _ (by decide)
  have hOneTwo : [1, 2].Sublist common := hKept _ (by decide)
  obtain ⟨i, j, hTwoAt, hOneAt, hLess⟩ := exists_idxOf?_lt hNodup hTwoOne
  obtain ⟨k, l, hOneAt', hTwoAt', hMore⟩ := exists_idxOf?_lt hNodup hOneTwo
  rw [hOneAt] at hOneAt'
  rw [hTwoAt] at hTwoAt'
  cases hOneAt'
  cases hTwoAt'
  omega

end Ancestry
