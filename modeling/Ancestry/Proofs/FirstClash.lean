import Ancestry.Proofs.Linearizes
import Mathlib.Algebra.Order.BigOperators.Group.List
import Mathlib.Algebra.Order.Group.Nat

/-! The clash that a walk meets first. A walk turns to the parents of a node in their order and goes
on to the next one only if it knows the linearizations of those before, so that the clash it meets
depends on the parents alone and not on what it knew beforehand. Main statements: a node meets at
most one clash (`MeetsClash.unique`), and none if it has a linearization
(`MeetsClash.not_linearizes`); in either case the chains that a walk can follow from the node are
bounded (`MeetsClash.chainsBounded`, `Linearizes.chainsBounded`). -/
namespace Ancestry

variable {α : Type} [DecidableEq α] [Hashable α]

/-- A walk may have to enter the parent from the child: all parents in front of it have
linearizations. -/
def TurnsTo (parents : α → List α) (child parent : α) : Prop :=
  ∃ before after, parents child = before ++ parent :: after ∧
    ∀ earlier ∈ before, ∃ order, Linearizes parents earlier order

/-- The clash that is met first on the way from a node to its ancestors. -/
inductive MeetsClash (parents : α → List α) : α → Conflict α → Prop where
  | own {node : α} {conflict : Conflict α} (hClash : Clashes parents node conflict) :
      MeetsClash parents node conflict
  | ancestral {node parent : α} {conflict : Conflict α} (hTurn : TurnsTo parents node parent)
      (hMeets : MeetsClash parents parent conflict) : MeetsClash parents node conflict

/-- The chains that a walk can follow from the node have bounded lengths. -/
def ChainsBounded (parents : α → List α) (node : α) : Prop :=
  ∃ bound, ∀ rest, List.IsChain (TurnsTo parents) (node :: rest) → rest.length ≤ bound

section

variable {parents : α → List α} {node : α} {order : Linearization α} {conflict : Conflict α}

theorem TurnsTo.directParent {parent : α} (h : TurnsTo parents node parent) :
    DirectParent parents node parent := by
  obtain ⟨before, after, hParents, _⟩ := h
  rw [DirectParent, hParents]
  exact List.mem_append_right _ List.mem_cons_self

/-- Of two different parents that a walk may have to enter, one has a linearization. -/
theorem TurnsTo.eq_or_linearizes {first second : α} (hFirst : TurnsTo parents node first)
    (hSecond : TurnsTo parents node second) :
    first = second ∨ (∃ own, Linearizes parents first own) ∨
      ∃ own, Linearizes parents second own := by
  obtain ⟨before, after, hParents, hBefore⟩ := hFirst
  obtain ⟨ahead, behind, hOther, hAhead⟩ := hSecond
  rw [hParents, List.append_eq_append_iff] at hOther
  rcases hOther with ⟨middle, rfl, hRest⟩ | ⟨middle, rfl, hRest⟩
  · cases middle with
    | nil => exact .inl (List.cons.inj hRest).1
    | cons head _ =>
        obtain rfl := (List.cons.inj hRest).1
        exact .inr (.inl (hAhead first (by simp)))
  · cases middle with
    | nil => exact .inl (List.cons.inj hRest).1.symm
    | cons head _ =>
        obtain rfl := (List.cons.inj hRest).1
        exact .inr (.inr (hBefore second (by simp)))

theorem MeetsClash.not_linearizes (h : MeetsClash parents node conflict) :
    ¬Linearizes parents node order := by
  induction h generalizing order with
  | own hClash => exact hClash.not_linearizes
  | ancestral hTurn _ ih =>
      intro hOrder
      obtain ⟨own, hOwn, _⟩ := hOrder.exists_parent hTurn.directParent
      exact ih hOwn

theorem Clashes.linearizes_parent (h : Clashes parents node conflict) {parent : α}
    (hParent : parent ∈ parents node) : ∃ own, Linearizes parents parent own := by
  obtain ⟨orders, hParents, _⟩ := h
  exact ⟨orders parent, hParents parent hParent⟩

/-- Where all parents have linearizations, the clash is that of the node itself. -/
theorem MeetsClash.clashes (h : MeetsClash parents node conflict)
    (hParents : ∀ parent ∈ parents node, ∃ own, Linearizes parents parent own) :
    Clashes parents node conflict := by
  cases h with
  | own hClash => exact hClash
  | ancestral hTurn hMeets =>
      obtain ⟨own, hOwn⟩ := hParents _ hTurn.directParent
      exact absurd hOwn hMeets.not_linearizes

theorem Clashes.unique {other : Conflict α} (h : Clashes parents node conflict)
    (hOther : Clashes parents node other) : conflict = other := by
  obtain ⟨orders, hParents, hMerge⟩ := h
  obtain ⟨others, hOthers, hOtherMerge⟩ := hOther
  rw [Linearizes.map_eq_map hParents hOthers, hOtherMerge] at hMerge
  exact (Except.error.inj hMerge).symm

/-- A node meets at most one clash. -/
theorem MeetsClash.unique {other : Conflict α} (h : MeetsClash parents node conflict)
    (hOther : MeetsClash parents node other) : conflict = other := by
  induction h with
  | own hClash =>
      exact hClash.unique (hOther.clashes fun _ hParent => hClash.linearizes_parent hParent)
  | @ancestral node parent conflict hTurn hMeets ih =>
      cases hOther with
      | own hClash =>
          obtain ⟨own, hOwn⟩ := hClash.linearizes_parent hTurn.directParent
          exact absurd hOwn hMeets.not_linearizes
      | ancestral hOtherTurn hOtherMeets =>
          rcases hTurn.eq_or_linearizes hOtherTurn with rfl | ⟨_, hOwn⟩ | ⟨_, hOwn⟩
          · exact ih hOtherMeets
          · exact absurd hOwn hMeets.not_linearizes
          · exact absurd hOwn hOtherMeets.not_linearizes

/-- The node that clashes is the one that the conflict names. -/
theorem Clashes.node_eq (h : Clashes parents node conflict) : conflict.node = node := by
  obtain ⟨orders, _, hMerge⟩ := h
  rw [merge] at hMerge
  split at hMerge
  · cases hMerge
  · cases hMerge
    rfl

/-- The conflict that a node meets is that of the node which the conflict names. -/
theorem MeetsClash.clashes_node (h : MeetsClash parents node conflict) :
    Clashes parents conflict.node conflict := by
  induction h with
  | own hClash => exact hClash.node_eq.symm ▸ hClash
  | ancestral _ _ ih => exact ih

theorem MeetsClash.reaches_node (h : MeetsClash parents node conflict) :
    Reaches parents node conflict.node := by
  induction h with
  | own hClash => exact hClash.node_eq.symm ▸ .refl
  | ancestral hTurn _ ih => exact .head hTurn.directParent ih

/-- A node has finitely many parents, so bounds for them give one for the node. -/
theorem ChainsBounded.of_parents
    (h : ∀ parent, TurnsTo parents node parent → ChainsBounded parents parent) :
    ChainsBounded parents node := by
  have hBounds : ∀ parent, ∃ bound, TurnsTo parents node parent →
      ∀ rest, List.IsChain (TurnsTo parents) (parent :: rest) → rest.length ≤ bound := by
    intro parent
    by_cases hTurn : TurnsTo parents node parent
    · obtain ⟨bound, hBound⟩ := h parent hTurn
      exact ⟨bound, fun _ => hBound⟩
    · exact ⟨0, fun hOther => absurd hOther hTurn⟩
  choose bound hBound using hBounds
  refine ⟨((parents node).map bound).sum + 1, fun rest hChain => ?_⟩
  cases rest with
  | nil => exact Nat.zero_le _
  | cons next rest =>
      obtain ⟨hTurn, hRest⟩ := List.isChain_cons_cons.1 hChain
      have hNext : bound next ≤ ((parents node).map bound).sum :=
        List.le_sum_of_mem (List.mem_map_of_mem hTurn.directParent)
      exact Nat.succ_le_succ ((hBound next hTurn rest hRest).trans hNext)

theorem Linearizes.chainsBounded (h : Linearizes parents node order) :
    ChainsBounded parents node := by
  refine ⟨order.toList.length, fun rest hChain => ?_⟩
  have hLength := h.length_chain_le (hChain.imp fun _ _ hTurn => hTurn.directParent)
  rw [List.length_cons] at hLength
  exact Nat.le_of_succ_le hLength

theorem MeetsClash.chainsBounded (h : MeetsClash parents node conflict) :
    ChainsBounded parents node := by
  induction h with
  | own hClash =>
      refine .of_parents fun parent hTurn => ?_
      obtain ⟨own, hOwn⟩ := hClash.linearizes_parent hTurn.directParent
      exact hOwn.chainsBounded
  | ancestral hTurn hMeets ih =>
      refine .of_parents fun parent hOther => ?_
      rcases hTurn.eq_or_linearizes hOther with rfl | ⟨_, hOwn⟩ | ⟨_, hOwn⟩
      · exact ih
      · exact absurd hOwn hMeets.not_linearizes
      · exact hOwn.chainsBounded

end

end Ancestry
