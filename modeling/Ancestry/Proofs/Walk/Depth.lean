import Ancestry.Proofs.Session
import Ancestry.Proofs.Walk.Steps

/-! The limit of a walk, whatever the walk knows beforehand. Main statement: no walk succeeds that
can reach a cycle of parents, and a walk that meets its limit shows a chain of parents that is
longer than the limit (`Linearizer.outcome_guarded`). -/
namespace Ancestry

open Walk (HitsLimit)

variable {α : Type} [DecidableEq α] [Hashable α]

/-- A node from which a cycle of parents is reached has no linearization. -/
theorem Linearizes.not_transGen_of_reaches {parents : α → List α} {node looping : α}
    {order : Linearization α} (h : Linearizes parents node order)
    (hReach : Reaches parents node looping) :
    ¬Relation.TransGen (DirectParent parents) looping looping := by
  obtain ⟨own, hOwn, _⟩ := h.exists_sublist ((h.mem_toList_iff looping).2 hReach)
  exact hOwn.not_transGen_self

/-- No chain of parents from the node has more nodes than the bound. -/
def ChainsWithin (parents : α → List α) (bound : Nat) (node : α) : Prop :=
  ∀ rest, List.IsChain (DirectParent parents) (node :: rest) → (node :: rest).length ≤ bound

section

variable {parents : α → List α} {bound : Nat} {node : α}

omit [DecidableEq α] [Hashable α] in
theorem ChainsWithin.mono {larger : Nat} (h : ChainsWithin parents bound node)
    (hBound : bound ≤ larger) : ChainsWithin parents larger node :=
  fun rest hChain => (h rest hChain).trans hBound

omit [DecidableEq α] [Hashable α] in
theorem ChainsWithin.of_parents (h : ∀ parent ∈ parents node, ChainsWithin parents bound parent) :
    ChainsWithin parents (bound + 1) node := by
  rintro (_ | ⟨next, rest⟩) hChain
  · exact Nat.succ_le_succ (Nat.zero_le bound)
  · obtain ⟨hParent, hRest⟩ := List.isChain_cons_cons.1 hChain
    exact Nat.succ_le_succ (h next hParent rest hRest)

omit [DecidableEq α] [Hashable α] in
/-- The bound holds under other names. -/
theorem ChainsWithin.renamed {β : Type} {rename : α → β} {othersOf : β → List β}
    (hParents : ∀ node, othersOf (rename node) = (parents node).map rename)
    (h : ChainsWithin parents bound node) : ChainsWithin othersOf bound (rename node) := by
  intro rest hChain
  induction rest generalizing node bound with
  | nil => exact h [] (List.isChain_singleton _)
  | cons next rest ih =>
      obtain ⟨hNext, hRest⟩ := List.isChain_cons_cons.1 hChain
      rw [DirectParent, hParents] at hNext
      obtain ⟨parent, hParent, rfl⟩ := List.mem_map.1 hNext
      obtain ⟨lower, rfl⟩ : ∃ lower, bound = lower + 1 :=
        Nat.exists_eq_add_of_le' (h [] (List.isChain_singleton _))
      refine Nat.succ_le_succ (ih (fun others hOthers => ?_) hRest)
      exact Nat.le_of_succ_le_succ (h (parent :: others) (hOthers.cons_cons hParent))

/-- A linearization bounds the chains from its node. -/
theorem Linearizes.chainsWithin {order : Linearization α} (h : Linearizes parents node order)
    (hBound : order.toList.length ≤ bound) : ChainsWithin parents bound node :=
  fun _ hChain => (h.length_chain_le hChain).trans hBound

end

namespace Walk.Answer

variable {parents : α → List α} {limit : Nat} {requested : α}
  {result : Except (Failure α) (Linearization α)}

theorem ne_ok_of_cycle (h : Answer parents limit requested result) {looping : α}
    (hReach : Reaches parents requested looping)
    (hCycle : Relation.TransGen (DirectParent parents) looping looping)
    (order : Linearization α) : result ≠ .ok order := by
  rintro rfl
  cases h with
  | ok hOrder => exact hOrder.not_transGen_of_reaches hReach hCycle

/-- The chain in a failure is what it is said to be. -/
theorem chain_of_tooDeep {root node : α} {bound : Nat} {chain : List α}
    (h : Answer parents limit requested (.error (.tooDeep root node bound chain))) :
    root = requested ∧ bound = limit ∧ chain.length = max 1 limit ∧
      chain.head? = some requested ∧
      List.IsChain (DirectParent parents) (chain ++ [node]) := by
  cases h with
  | tooDeep hChain hLength =>
      exact ⟨rfl, rfl, hLength, rfl, hChain.imp fun _ _ hTurn => hTurn.directParent⟩

theorem not_hitsLimit_of_chains (h : Answer parents limit requested result)
    (hChains : ChainsWithin parents limit requested) : ¬HitsLimit result :=
  h.not_hitsLimit fun rest hChain =>
    hChains rest (hChain.imp fun _ _ hTurn => hTurn.directParent)

end Walk.Answer

/-- Let a linearizer remember linearizations only, and let the cache that it uses hold nothing else.
If a cycle of parents is reached from the requested node, a run for the node does not succeed. If
the run meets the limit, then it names the node and the limit, and it shows as many nodes as the
limit allows, each a direct parent of the one before it, beginning with the requested node; the node
that it met is a parent of the last one, which makes a chain longer than the limit. So the limit is
not met where it bounds all chains of parents from the requested node. -/
theorem Linearizer.outcome_guarded {parents : Nat → α → List α} {linearizer : Linearizer α}
    {orders? : Option (OrderCache α)}
    (hMemo : Memo.Sound (parents linearizer.resolver) linearizer.memo)
    (hOrders : ∀ orders ∈ orders?, OrderCache.Sound parents orders) (requested : α) :
    let ofResolver := parents linearizer.resolver
    let result := (linearizer.outcome ofResolver orders? requested).result
    (∀ looping, Reaches ofResolver requested looping →
      Relation.TransGen (DirectParent ofResolver) looping looping → ∀ order, result ≠ .ok order) ∧
    (∀ root node limit chain, result = .error (.tooDeep root node limit chain) →
      root = requested ∧ limit = linearizer.limit ∧ chain.length = max 1 limit ∧
        chain.head? = some requested ∧ List.IsChain (DirectParent ofResolver) (chain ++ [node]) ∧
        limit < (chain ++ [node]).length) ∧
    ((∀ rest, List.IsChain (DirectParent ofResolver) (requested :: rest) →
      (requested :: rest).length ≤ linearizer.limit) → ¬HitsLimit result) := by
  intro ofResolver result
  have hAnswer := (outcome_sound hMemo hOrders requested).1
  refine ⟨fun looping hReach hCycle => hAnswer.ne_ok_of_cycle hReach hCycle, ?_,
    hAnswer.not_hitsLimit_of_chains⟩
  intro root node limit chain hResult
  have hTooDeep : Walk.Answer ofResolver linearizer.limit requested
      (.error (.tooDeep root node limit chain)) := hResult ▸ hAnswer
  obtain ⟨rfl, rfl, hLength, hHead, hChain⟩ := hTooDeep.chain_of_tooDeep
  refine ⟨rfl, rfl, hLength, hHead, hChain, ?_⟩
  rw [List.length_append, hLength, List.length_singleton]
  omega

/-- Two leaves and a node that has its child for a parent. -/
def circularParents : Nat → List Nat
  | 0 => [1, 3, 2]
  | 2 => [0]
  | _ => []

/-- One leaf is remembered, the other one is in the cache. -/
theorem Linearizer.outcome_guarded_circular :
    let linearizer : Linearizer Nat := ⟨0, 2, some 0, (∅ : Memo Nat).insert 1 ⟨1, []⟩⟩
    let cache : OrderCache Nat := (Cache.empty 16 fun _ => 0).insert (0, 3) ⟨3, []⟩
    let result := (linearizer.outcome circularParents (some cache) 0).result
    Memo.Sound circularParents linearizer.memo ∧
      OrderCache.Sound (fun _ => circularParents) cache ∧
      result = .error (.tooDeep 0 0 2 [0, 2]) ∧ (∀ order, result ≠ .ok order) ∧
      List.IsChain (DirectParent circularParents) ([0, 2] ++ [0]) := by
  intro linearizer cache result
  have hMemo : Memo.Sound circularParents linearizer.memo :=
    (Memo.sound_empty _).insert (.of_no_parents rfl)
  have hCache : OrderCache.Sound (fun _ => circularParents) cache :=
    (OrderCache.sound_empty _ 16 _).insert (.of_no_parents rfl)
  have hEntry (node : Nat) :
      cache.stored? (0, node) = if node = 3 then some ⟨3, []⟩ else none := by
    rw [Cache.stored?_single _ _ _ _ (by decide)]
    simp [eq_comm]
  have hResult : result = .error (.tooDeep 0 0 2 [0, 2]) := by
    have hKnown : linearizer.memo[1]? = some ⟨1, []⟩ := Std.HashMap.getElem?_insert_self
    have hUnknown (node : Nat) (h : node ≠ 1) : linearizer.memo[node]? = none := by
      simp [linearizer, h.symm]
    change (Walk.Setting.linearize ⟨circularParents, 2, OrderCache.storeFor 0 Nat⟩ 0
      linearizer.memo cache).result = _
    rw [Walk.Setting.linearize, OrderCache.lookup_of_no_entry (hUnknown 0 (by decide)) (hEntry 0)]
    simp only
    rw [Walk.run_of_running (Walk.step_of_known rfl (Walk.lookup_of_known hKnown))]
    rw [Walk.run_of_running (Walk.step_of_known rfl (OrderCache.lookup_of_stored?
      (hUnknown 3 (by decide)) ((Cache.stored?_get _ _ _).trans (hEntry 3))))]
    rw [Walk.run_of_running (Walk.step_of_unknown rfl (OrderCache.lookup_of_no_entry
      (by simp [linearizer]) (by simp [hEntry])) (by decide))]
    rw [Walk.run_of_finished (Walk.step_of_full rfl (OrderCache.lookup_of_no_entry
      (by simp [linearizer]) (by simp [hEntry])) (by decide))]
    rfl
  have hUsed : ∀ orders ∈ some cache, OrderCache.Sound (fun _ => circularParents) orders :=
    fun orders hOrders => Option.some.inj hOrders ▸ hCache
  obtain ⟨hCycle, hChain, _⟩ :=
    @outcome_guarded _ _ _ (fun _ => circularParents) linearizer (some cache) hMemo hUsed 0
  have hLoop : Relation.TransGen (DirectParent circularParents) 0 0 :=
    .tail (.single (show 2 ∈ circularParents 0 by decide)) (show 0 ∈ circularParents 2 by decide)
  obtain ⟨_, _, _, _, hShown, _⟩ := hChain _ _ _ _ hResult
  exact ⟨hMemo, hCache, hResult, hCycle 0 .refl hLoop, hShown⟩

end Ancestry
