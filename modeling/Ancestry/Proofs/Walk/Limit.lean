import Ancestry.Proofs.Walk.Depth
import Mathlib.Data.Set.Card

/-! Walks with different limits. A walk looks at its limit only where it is about to enter a node,
so that two walks go the same way until the one with the smaller limit meets it. Main statement: a
larger limit leaves every other answer as it is, and where a node has finitely many ancestors and no
cycle among them, the limit is not met from some point on (`linearize_of_larger_limit`). -/
namespace Ancestry

open Walk (HitsLimit)

variable {α : Type} [DecidableEq α] [Hashable α]

namespace Walk

variable {σ : Type} {parents : α → List α} {limit larger : Nat} {store : Store σ α}
  {requested : α}

/-- A step is the same under a larger limit unless it meets the smaller one. -/
theorem step_of_larger (hLimit : limit ≤ larger) (requested : α) (state : State σ α) :
    step ⟨parents, larger, store⟩ requested state = step ⟨parents, limit, store⟩ requested state ∨
      ∃ outcome, step ⟨parents, limit, store⟩ requested state = .finished outcome ∧
        HitsLimit outcome.result := by
  cases hPending : state.stack.top.pending with
  | nil =>
      left
      simp only [step, hPending]
      rfl
  | cons parent pending =>
      cases hLookup : lookup store parent state.memo state.store with
      | mk found? rest =>
          obtain ⟨memo, stored⟩ := rest
          cases found? with
          | some found =>
              left
              rw [step_of_known hPending hLookup, step_of_known hPending hLookup]
          | none =>
              by_cases hRoom : state.stack.height < limit
              · left
                have hMore : state.stack.height < larger := Nat.lt_of_lt_of_le hRoom hLimit
                rw [step_of_unknown hPending hLookup hMore,
                  step_of_unknown hPending hLookup hRoom]
                rfl
              · right
                have hFull : limit ≤ state.stack.height := Nat.le_of_not_lt hRoom
                exact ⟨_, step_of_full hPending hLookup hFull, _, _, _, _, rfl⟩

/-- A walk that does not meet its limit leaves the same behind under a larger one. -/
theorem run_of_larger (hLimit : limit ≤ larger) {state : State σ α}
    (hHits : ¬HitsLimit (run ⟨parents, limit, store⟩ requested state).result) :
    run ⟨parents, larger, store⟩ requested state = run ⟨parents, limit, store⟩ requested state := by
  -- Both walks take their steps together; the walk with the smaller limit is known to end.
  induction State.accessible ⟨parents, limit, store⟩ requested state with
  | intro state _ ih =>
      have hStep := @step_of_larger _ _ _ _ parents limit larger store hLimit requested state
      cases hNext : step ⟨parents, limit, store⟩ requested state with
      | finished outcome =>
          rw [run_of_finished hNext] at hHits ⊢
          rcases hStep with hSame | ⟨other, hOther, hStopped⟩
          · exact run_of_finished (hSame.trans hNext)
          · cases hNext.symm.trans hOther
            exact absurd hStopped hHits
      | running next =>
          rw [run_of_running hNext] at hHits ⊢
          rcases hStep with hSame | ⟨other, hOther, _⟩
          · rw [run_of_running (hSame.trans hNext)]
            exact ih next hNext hHits
          · cases hNext.symm.trans hOther

/-- Whatever is known beforehand, an answer other than that the limit is met is given under every
larger limit too. -/
theorem Setting.linearize_of_larger (hLimit : limit ≤ larger) {node : α} {memo : Memo α}
    {stored : σ}
    (hHits : ¬HitsLimit (Setting.linearize ⟨parents, limit, store⟩ node memo stored).result) :
    Setting.linearize ⟨parents, larger, store⟩ node memo stored =
      Setting.linearize ⟨parents, limit, store⟩ node memo stored := by
  simp only [Setting.linearize] at hHits ⊢
  cases hLookup : lookup store node memo stored with
  | mk found? rest =>
      obtain ⟨known, left⟩ := rest
      rw [hLookup] at hHits
      cases found? with
      | some found => rfl
      | none => exact run_of_larger hLimit hHits

end Walk

section

variable {parents : α → List α} {node : α}

omit [DecidableEq α] [Hashable α] in
/-- On a chain of parents each node is an ancestor of all nodes before it. -/
theorem pairwise_of_isChain {chain : List α} (hChain : List.IsChain (DirectParent parents) chain) :
    chain.Pairwise (Relation.TransGen (DirectParent parents)) :=
  (hChain.imp fun _ _ hParent => .single hParent).pairwise

omit [Hashable α] in
/-- Where no cycle is reached, no chain of parents has more nodes than there are to be reached. -/
theorem ChainsWithin.of_finite (hFinite : {member | Reaches parents node member}.Finite)
    (hAcyclic : ∀ member, Reaches parents node member →
      ¬Relation.TransGen (DirectParent parents) member member) :
    ChainsWithin parents {member | Reaches parents node member}.ncard node := by
  intro rest hChain
  have hPairwise := pairwise_of_isChain hChain
  have hReach : ∀ member ∈ node :: rest, Reaches parents node member := by
    intro member hMember
    rcases List.mem_cons.1 hMember with rfl | hRest
    · exact .refl
    · exact (List.rel_of_pairwise_cons hPairwise hRest).to_reflTransGen
  have hNodup : (node :: rest).Nodup := by
    apply hPairwise.imp_of_mem
    rintro member _ hMember _ hCycle rfl
    exact hAcyclic member (hReach member hMember) hCycle
  calc (node :: rest).length
      = (node :: rest).toFinset.card := (List.toFinset_card_of_nodup hNodup).symm
    _ = ((node :: rest).toFinset : Set α).ncard := (Set.ncard_coe_finset _).symm
    _ ≤ {member | Reaches parents node member}.ncard := by
        apply Set.ncard_le_ncard _ hFinite
        intro member hMember
        exact hReach member (List.mem_toFinset.1 hMember)

theorem ChainsWithin.not_hitsLimit {bound limit : Nat} (h : ChainsWithin parents bound node)
    (hLimit : bound ≤ limit) : ¬HitsLimit (linearize parents node limit) :=
  (linearize_answer parents node limit).not_hitsLimit_of_chains (h.mono hLimit)

end

/-- If the walk for a node finds the linearization or a conflict under some limit, then it finds the
very same under every larger limit. If finitely many nodes are reached from the node, and no cycle
of parents is, then from some limit on the walk does not meet its limit. -/
theorem linearize_of_larger_limit (parents : α → List α) (node : α) :
    (∀ limit larger, limit ≤ larger →
      (∀ order, linearize parents node limit = .ok order →
        linearize parents node larger = .ok order) ∧
      ∀ conflict, linearize parents node limit = .error (.inconsistent conflict) →
        linearize parents node larger = .error (.inconsistent conflict)) ∧
    ({member | Reaches parents node member}.Finite →
      (∀ member, Reaches parents node member →
        ¬Relation.TransGen (DirectParent parents) member member) →
      ∃ enough, ∀ limit, enough ≤ limit → ¬HitsLimit (linearize parents node limit)) := by
  refine ⟨fun limit larger hLimit => ?_, fun hFinite hAcyclic => ?_⟩
  · have hSame (hHits : ¬HitsLimit (linearize parents node limit)) :
        linearize parents node larger = linearize parents node limit :=
      congrArg Walk.Outcome.result (Walk.Setting.linearize_of_larger hLimit hHits)
    constructor
    · intro order hOrder
      exact (hSame (hOrder ▸ Walk.not_hitsLimit_ok order)).trans hOrder
    · intro conflict hConflict
      exact (hSame (hConflict ▸ Walk.not_hitsLimit_inconsistent conflict)).trans hConflict
  · exact ⟨_, fun limit hLimit => (ChainsWithin.of_finite hFinite hAcyclic).not_hitsLimit hLimit⟩

/-- The second parent of the node comes before the first one in its own linearization. -/
theorem linearize_contraryParents : linearize contraryParents 0 3 =
    .error (.inconsistent ⟨0, [1, 2], [0], [[1], [2, 1], [1, 2]]⟩) := by
  have hOne : Linearizes contraryParents 1 (contraryOrders 1) := .of_no_parents rfl
  have hTwo : Linearizes contraryParents 2 (contraryOrders 2) :=
    .of_only_parent rfl (.of_no_parents rfl)
  have hOrders : ∀ parent ∈ contraryParents 0,
      Linearizes contraryParents parent (contraryOrders parent) := by
    simpa [contraryParents] using ⟨hOne, hTwo⟩
  have hClash : Clashes contraryParents 0 ⟨0, [1, 2], [0], [[1], [2, 1], [1, 2]]⟩ :=
    .of_merge contraryOrders hOrders (Merge.Plain.merge_eq_error_of_plain (by cbv))
  have hChains : ChainsWithin contraryParents 3 0 := by
    refine .of_parents fun parent hParent => (hOrders parent hParent).chainsWithin ?_
    unfold contraryOrders
    split <;> simp [Linearization.toList]
  exact (linearize_answer _ _ _).eq_error (.own hClash) (hChains.not_hitsLimit (Nat.le_refl 3))

theorem linearize_of_larger_limit_small :
    linearize tiedParents 0 5 = .ok ⟨0, [1, 2, 4, 3]⟩ ∧
    linearize tiedParents 0 9 = .ok ⟨0, [1, 2, 4, 3]⟩ ∧
    linearize contraryParents 0 3 =
      .error (.inconsistent ⟨0, [1, 2], [0], [[1], [2, 1], [1, 2]]⟩) ∧
    linearize contraryParents 0 9 =
      .error (.inconsistent ⟨0, [1, 2], [0], [[1], [2, 1], [1, 2]]⟩) ∧
    {member | Reaches tiedParents 0 member}.Finite ∧
    (∀ member, Reaches tiedParents 0 member →
      ¬Relation.TransGen (DirectParent tiedParents) member member) ∧
    ∃ enough, ∀ limit, enough ≤ limit → ¬HitsLimit (linearize tiedParents 0 limit) := by
  obtain ⟨hLarger, hEnough⟩ := linearize_of_larger_limit tiedParents 0
  obtain ⟨hLargerContrary, _⟩ := linearize_of_larger_limit contraryParents 0
  have hOrder := Linearizes.of_linearize linearize_tiedParents
  have hFinite : {member | Reaches tiedParents 0 member}.Finite := by
    apply (List.finite_toSet [0, 1, 2, 4, 3]).subset
    exact fun member hReach => (hOrder.mem_toList_iff member).2 hReach
  have hAcyclic : ∀ member, Reaches tiedParents 0 member →
      ¬Relation.TransGen (DirectParent tiedParents) member member :=
    fun member hReach => hOrder.not_transGen_of_reaches hReach
  exact ⟨linearize_tiedParents, (hLarger 5 9 (by decide)).1 _ linearize_tiedParents,
    linearize_contraryParents, (hLargerContrary 3 9 (by decide)).2 _ linearize_contraryParents,
    hFinite, hAcyclic, hEnough hFinite hAcyclic⟩

end Ancestry
