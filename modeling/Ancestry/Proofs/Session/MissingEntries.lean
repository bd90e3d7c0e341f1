import Ancestry.Proofs.Session
import Ancestry.Proofs.Walk.Depth

/-! What it costs that a cache lacks an entry. The walk that is started for want of it reads the
entries that are there, and a node that it reads is not entered. So the ancestors of that node may
be entered from another side, at the end of a longer chain of parents, and the walk may meet a limit
that it keeps when it starts with nothing known. Main statement: that is the only harm
(`Session.computed_or_deep`). -/
namespace Ancestry

open Walk (HitsLimit)

variable {α : Type} [DecidableEq α] [Hashable α]

namespace OrderCache

/-- The cache has no entries of the resolver but for nodes that the memo knows. -/
def Within (resolver : Nat) (memo : Memo α) (cache : OrderCache α) : Prop :=
  ∀ node order, cache.Holds (resolver, node) order → node ∈ memo

variable {resolver : Nat} {node : α} {memo : Memo α} {cache : OrderCache α}

theorem Within.stored?_eq_none (h : Within resolver memo cache) (hUnknown : memo[node]? = none) :
    cache.stored? (resolver, node) = none := by
  rw [Option.eq_none_iff_forall_ne_some]
  intro order hEntry
  have hMember : node ∈ memo := h node order (Cache.holds_of_stored? hEntry)
  have hKnown := Std.HashMap.mem_iff_isSome_getElem?.1 hMember
  rw [hUnknown] at hKnown
  cases hKnown

theorem Within.get (h : Within resolver memo cache) (key : Nat × α) :
    Within resolver memo (cache.get key).2 := by
  intro node order hHolds
  rw [Cache.Holds, Cache.shards_get] at hHolds
  exact h node order hHolds

theorem Within.insert (h : Within resolver memo cache) (node : α) (order : Linearization α) :
    Within resolver (memo.insert node order) (cache.insert (resolver, node) order) := by
  intro other found hHolds
  rcases Cache.holds_of_insert hHolds with ⟨hKey, _⟩ | hOld
  · obtain rfl := congrArg Prod.snd hKey
    exact Std.HashMap.mem_insert_self
  · exact Std.HashMap.mem_insert.2 (.inr (h other found hOld))

/-- Two walks, with a cache and without, have come to the same point, and all that the cache has
the memo has too. -/
inductive Agrees (resolver : Nat) :
    Walk.Progress (OrderCache α) α → Walk.Progress Unit α → Prop where
  | running {stack : Walk.Stack α} {memo : Memo α} {cache : OrderCache α}
      (h : Within resolver memo cache) :
      Agrees resolver (.running ⟨stack, memo, cache⟩) (.running ⟨stack, memo, ()⟩)
  | finished {result : Except (Failure α) (Linearization α)} {memo : Memo α}
      {cache : OrderCache α} :
      Agrees resolver (.finished ⟨result, memo, cache⟩) (.finished ⟨result, memo, ()⟩)

section

variable (parents : α → List α) (limit : Nat) (requested : α) (stack : Walk.Stack α)

theorem Within.turnTo (h : Within resolver memo cache) (parent : α) (pending : List α) :
    Agrees resolver
      (Walk.turnTo ⟨parents, limit, storeFor resolver α⟩ requested parent pending
        ⟨stack, memo, cache⟩)
      (Walk.turnTo ⟨parents, limit, .absent α⟩ requested parent pending ⟨stack, memo, ()⟩) := by
  cases hMemo : memo[parent]? with
  | some found =>
      simp only [Walk.turnTo, Walk.lookup_of_known hMemo]
      exact .running h
  | none =>
      simp only [Walk.turnTo, Walk.lookup_absent hMemo,
        lookup_of_no_entry hMemo (h.stored?_eq_none hMemo)]
      split
      · exact .finished
      · exact .running (h.get _)

theorem Within.leave (h : Within resolver memo cache) :
    Agrees resolver
      (Walk.leave ⟨parents, limit, storeFor resolver α⟩ ⟨stack, memo, cache⟩)
      (Walk.leave ⟨parents, limit, .absent α⟩ ⟨stack, memo, ()⟩) := by
  simp only [Walk.leave, Walk.Setting.merge]
  split
  · exact .finished
  · simp only [Walk.leaveWith]
    split
    · exact .finished
    · exact .running (h.insert _ _)

theorem Within.step (h : Within resolver memo cache) :
    Agrees resolver
      (Walk.step ⟨parents, limit, storeFor resolver α⟩ requested ⟨stack, memo, cache⟩)
      (Walk.step ⟨parents, limit, .absent α⟩ requested ⟨stack, memo, ()⟩) := by
  simp only [Walk.step]
  split
  · exact h.turnTo parents limit requested stack _ _
  · exact h.leave parents limit stack

/-- What a walk puts into such a cache it knows anyway, so that it goes as it would without. -/
theorem Within.run_eq (h : Within resolver memo cache) :
    (Walk.run ⟨parents, limit, storeFor resolver α⟩ requested ⟨stack, memo, cache⟩).result =
      (Walk.run ⟨parents, limit, .absent α⟩ requested ⟨stack, memo, ()⟩).result := by
  have hEnds := Walk.State.accessible ⟨parents, limit, .absent α⟩ requested ⟨stack, memo, ()⟩
  generalize hState : (⟨stack, memo, ()⟩ : Walk.State Unit α) = state at hEnds
  induction hEnds generalizing stack memo cache with
  | intro state _ ih =>
      subst hState
      have hStep := h.step parents limit requested stack
      rw [Walk.run_eq, Walk.run_eq]
      generalize Walk.step ⟨parents, limit, storeFor resolver α⟩ requested ⟨stack, memo, cache⟩ =
        progress at hStep ⊢
      generalize hNext : Walk.step ⟨parents, limit, .absent α⟩ requested ⟨stack, memo, ()⟩ =
        other at hStep ⊢
      cases hStep with
      | running hWithin => exact ih _ hNext _ hWithin rfl
      | finished => rfl

end

/-- A cache without entries of the resolver is as good as none. -/
theorem getOrLinearize_of_no_entries (parents : α → List α) (limit : Nat) (node : α)
    (h : ∀ other order, ¬cache.Holds (resolver, other) order) :
    (getOrLinearize parents resolver limit node cache).1 = linearize parents node limit := by
  have hWithin : Within resolver (∅ : Memo α) cache := fun other order hHolds =>
    absurd hHolds (h other order)
  have hMemo : (∅ : Memo α)[node]? = none := Std.HashMap.getElem?_empty
  rw [getOrLinearize, linearize, Walk.Setting.linearize, Walk.Setting.linearize,
    lookup_of_no_entry hMemo (hWithin.stored?_eq_none hMemo), Walk.lookup_absent hMemo]
  exact (hWithin.get _).run_eq parents limit node _

end OrderCache

namespace Session

variable {parents : Nat → α → List α} {session : Session α}

/-- Let a node have a linearization that a walk finds which begins with nothing known and has the
limit of some cache. Asked for it, the cache gives the same, or else the walk that it starts meets
the limit and shows a chain of parents which is longer than the limit. There is no such chain where
the limit is kept by all chains of parents from the node. And whatever the fresh walk gives, a cache
that has no entry of the resolver gives the same. -/
theorem computed_or_deep (h : session.Reachable parents) {cache : Nat} {shared : SharedCache α}
    (hShared : session.caches[cache]? = some shared) (resolver : Nat) (node : α) :
    let fresh := linearize (parents resolver) node shared.limit
    let computed :=
      (OrderCache.getOrLinearize (parents resolver) resolver shared.limit node shared.orders).1
    (session.respond parents (.compute cache resolver node)).answers =
        ⟨resolver, node, computed⟩ :: session.answers ∧
      (∀ order, fresh = .ok order →
        computed = .ok order ∨ ∃ deep chain,
          computed = .error (.tooDeep node deep shared.limit chain) ∧ chain.head? = some node ∧
          List.IsChain (DirectParent (parents resolver)) (chain ++ [deep]) ∧
          shared.limit < (chain ++ [deep]).length) ∧
      (∀ order, fresh = .ok order →
        (∀ rest, List.IsChain (DirectParent (parents resolver)) (node :: rest) →
          (node :: rest).length ≤ shared.limit) → computed = .ok order) ∧
      ((∀ other order, ¬shared.orders.Holds (resolver, other) order) → computed = fresh) := by
  intro fresh computed
  have hOrders := h.sound.orders shared (Array.mem_of_getElem? hShared)
  have hAnswer : Walk.Answer (parents resolver) shared.limit node computed :=
    (OrderCache.getOrLinearize_sound hOrders resolver shared.limit node).1
  refine ⟨?_, ?_, ?_, OrderCache.getOrLinearize_of_no_entries _ _ _⟩
  · simp only [respond, compute, hShared]
    rfl
  · intro order hFresh
    by_cases hLimit : HitsLimit computed
    · obtain ⟨root, deep, limit, chain, hResult⟩ := hLimit
      rw [hResult] at hAnswer
      obtain ⟨rfl, rfl, hLength, hHead, hChain⟩ := hAnswer.chain_of_tooDeep
      refine .inr ⟨deep, chain, hResult, hHead, hChain, ?_⟩
      rw [List.length_append, hLength, List.length_singleton]
      omega
    · exact .inl (hAnswer.eq_ok (.of_linearize hFresh) hLimit)
  · intro order hFresh hChains
    exact hAnswer.eq_ok (.of_linearize hFresh) (hAnswer.not_hitsLimit_of_chains hChains)

/-- Two ways to the node 4, a short one, which is the first, and a long one. -/
def forkedParents : Nat → List Nat
  | 0 => [1, 2]
  | 1 => [4]
  | 2 => [3]
  | 3 => [4]
  | _ => []

/-- With nothing known, the walk enters 4 on the short way. -/
theorem linearize_forkedParents : linearize forkedParents 0 3 = .ok ⟨0, [1, 2, 3, 4]⟩ := by
  have hVisits : Walk.Visits forkedParents 3 1 ∅ [1, 2] _ :=
    .entered (by cbv) (by decide)
      (.entered (by cbv) (by decide) .nil (Merge.merge_nil _ _) .nil)
      (Merge.Plain.merge_eq_ok_of_plain (by cbv))
      (.entered (by cbv) (by decide)
        (.entered (by cbv) (by decide) (.known (by cbv) .nil)
          (Merge.Plain.merge_eq_ok_of_plain (by cbv)) .nil)
        (Merge.Plain.merge_eq_ok_of_plain (by cbv)) .nil)
  exact hVisits.linearize_eq (Merge.Plain.merge_eq_ok_of_plain (by cbv))

/-- The entries of a cache that holds 1 without 4. -/
def forkedCache : SharedCache Nat :=
  ⟨(Cache.empty 16 fun _ => 0 : OrderCache Nat).insert (0, 1) ⟨1, [4]⟩, 3⟩

def forkedSession : Session Nat :=
  ((start fun _ => 0).respond (fun _ => forkedParents) (.newCache 16 3 fun _ => 0)).respond
    (fun _ => forkedParents) (.insert 1 0 1 ⟨1, [4]⟩)

theorem reachable_forkedSession : forkedSession.Reachable fun _ => forkedParents := by
  have hShort : linearize forkedParents 1 2 = .ok ⟨1, [4]⟩ :=
    Walk.Visits.linearize_eq (.entered (by cbv) (by decide) .nil (Merge.merge_nil _ _) .nil)
      (Merge.Plain.merge_eq_ok_of_plain (by cbv))
  exact .respond (.respond (.start _) trivial) (.inr ⟨2, hShort⟩)

theorem computed_or_deep_forked :
    forkedSession.Reachable (fun _ => forkedParents) ∧
      forkedSession.caches[1]? = some forkedCache ∧
      linearize forkedParents 0 3 = .ok ⟨0, [1, 2, 3, 4]⟩ ∧
      let computed := (OrderCache.getOrLinearize forkedParents 0 3 0 forkedCache.orders).1
      computed = .ok ⟨0, [1, 2, 3, 4]⟩ ∨ ∃ deep chain,
        computed = .error (.tooDeep 0 deep 3 chain) ∧ chain.head? = some 0 ∧
        List.IsChain (DirectParent forkedParents) (chain ++ [deep]) ∧
        3 < (chain ++ [deep]).length := by
  refine ⟨reachable_forkedSession, rfl, linearize_forkedParents, ?_⟩
  exact (@computed_or_deep _ _ _ _ _ reachable_forkedSession 1 forkedCache rfl 0 0).2.1 _
    linearize_forkedParents

/-- So a cache may fail where a fresh walk succeeds: 1 is read, and 4 is met behind 2 and 3. -/
theorem computed_deep_forked :
    forkedSession.Reachable (fun _ => forkedParents) ∧
      forkedSession.caches[1]? = some forkedCache ∧
      linearize forkedParents 0 3 = .ok ⟨0, [1, 2, 3, 4]⟩ ∧
      (OrderCache.getOrLinearize forkedParents 0 3 0 forkedCache.orders).1 =
        .error (.tooDeep 0 4 3 [0, 2, 3]) := by
  have hEntry (node : Nat) :
      forkedCache.orders.stored? (0, node) = if node = 1 then some ⟨1, [4]⟩ else none := by
    rw [forkedCache, Cache.stored?_single _ _ _ _ (by decide)]
    simp [eq_comm]
  have hUnknown (node : Nat) (h : node ≠ 1) :
      ((∅ : Memo Nat).insert 1 ⟨1, [4]⟩)[node]? = none := by
    simp [h.symm]
  refine ⟨reachable_forkedSession, rfl, linearize_forkedParents, ?_⟩
  rw [OrderCache.getOrLinearize, Walk.Setting.linearize,
    OrderCache.lookup_of_no_entry (by simp) (hEntry 0)]
  simp only
  rw [Walk.run_of_running (Walk.step_of_known rfl (OrderCache.lookup_of_stored? (by simp)
    ((Cache.stored?_get _ _ _).trans (hEntry 1))))]
  rw [Walk.run_of_running (Walk.step_of_unknown rfl (OrderCache.lookup_of_no_entry
    (hUnknown 2 (by decide)) (by simp [hEntry])) (by decide))]
  rw [Walk.run_of_running (Walk.step_of_unknown rfl (OrderCache.lookup_of_no_entry
    (hUnknown 3 (by decide)) (by simp [hEntry])) (by decide))]
  rw [Walk.run_of_finished (Walk.step_of_full rfl (OrderCache.lookup_of_no_entry
    (hUnknown 4 (by decide)) (by simp [hEntry])) (by decide))]
  rfl

end Session

end Ancestry
