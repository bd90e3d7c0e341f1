import Ancestry.Proofs.Cache.Closed
import Ancestry.Proofs.Laws
import Ancestry.Proofs.Walk.Depth

/-! What requests for linearizations leave in a cache that never had to give anything up, under
several resolvers and whatever the answers were. Main statement:
`OrderCache.ancestors_published`. -/
namespace Ancestry

namespace OrderCache

variable {α : Type} [DecidableEq α] [Hashable α] {resolvers : Nat → α → List α}
  {cache : OrderCache α} {resolver limit : Nat} {node : α}

/-- The cache after linearizations have been asked for, one after the other, each by the number of a
resolver and a node. -/
def computeAll (resolvers : Nat → α → List α) (limit : Nat) (calls : List (Nat × α))
    (cache : OrderCache α) : OrderCache α :=
  calls.foldl
    (fun cache call => (getOrLinearize (resolvers call.1) call.1 limit call.2 cache).2) cache

theorem computeAll_append (earlier later : List (Nat × α)) (cache : OrderCache α) :
    computeAll resolvers limit (earlier ++ later) cache =
      computeAll resolvers limit later (computeAll resolvers limit earlier cache) :=
  List.foldl_append

theorem evictions_le_getOrLinearize (parents : α → List α) (resolver limit : Nat) (node : α)
    (cache : OrderCache α) :
    cache.stats.evictions ≤
      (getOrLinearize parents resolver limit node cache).2.stats.evictions :=
  evictions_le_of_uses (Walk.Setting.uses_linearize ⟨parents, limit, storeFor resolver α⟩ node ∅
    cache)

theorem evictions_le_computeAll (resolvers : Nat → α → List α) (limit : Nat)
    (calls : List (Nat × α)) (cache : OrderCache α) :
    cache.stats.evictions ≤ (computeAll resolvers limit calls cache).stats.evictions := by
  induction calls generalizing cache with
  | nil => exact Nat.le_refl _
  | cons call rest ih => exact (evictions_le_getOrLinearize _ _ _ _ _).trans (ih _)

/-- What a call adds to the cache is linearizations of the node and of its ancestors. -/
theorem Listed.extends_getOrLinearize {parents : α → List α} (h : cache.Listed)
    (hSame : (getOrLinearize parents resolver limit node cache).2.stats.evictions =
      cache.stats.evictions) :
    Extends resolver (Reaches parents node) cache
      (getOrLinearize parents resolver limit node cache).2 := by
  have hUses := Walk.Setting.uses_linearize ⟨parents, limit, storeFor resolver α⟩ node ∅ cache
  obtain ⟨hOld, hAdded⟩ := h.extends_of_uses hUses hSame
  exact ⟨hOld, fun key order hStored =>
    (hAdded key order hStored).imp_right (And.imp_right reaches_of_mem_nodesWithin)⟩

/-- What holds of a cache while no entry is given up. -/
structure Grown (resolvers : Nat → α → List α) (cache : OrderCache α) : Prop where
  listed : cache.Listed
  sound : cache.Sound resolvers
  closed : ∀ resolver, Closed (resolvers resolver) resolver cache

theorem grown_empty (resolvers : Nat → α → List α) {capacity : Nat} (hCapacity : 0 < capacity)
    (shardOf : Nat × α → Fin 16) : Grown resolvers (Cache.empty capacity shardOf) := by
  refine ⟨⟨?_, [], Cache.lists_empty capacity shardOf⟩, sound_empty resolvers capacity shardOf, ?_⟩
  · simp only [Cache.shardCapacity, Cache.empty, Cache.shardCount]
    omega
  · rintro resolver node ⟨order, hOrder⟩
    rw [Cache.stored?_empty] at hOrder
    cases hOrder

namespace Grown

theorem publishes (h : cache.Grown resolvers) (limit : Nat) (node : α)
    (hSame : (getOrLinearize (resolvers resolver) resolver limit node cache).2.stats.evictions =
      cache.stats.evictions) :
    (Walk.Setting.linearize ⟨resolvers resolver, limit, storeFor resolver α⟩ node ∅
      cache).Publishes (resolvers resolver) resolver node := by
  refine Walk.Setting.publishes_linearize ⟨h.listed, ?_, h.closed resolver⟩ node hSame
  intro other hOther
  simp at hOther

theorem of_call (h : cache.Grown resolvers)
    (hSame : (getOrLinearize (resolvers resolver) resolver limit node cache).2.stats.evictions =
      cache.stats.evictions) :
    Grown resolvers (getOrLinearize (resolvers resolver) resolver limit node cache).2 := by
  have hPublishes := (h.publishes limit node hSame).publishes
  have hExtends := h.listed.extends_getOrLinearize hSame
  refine ⟨hPublishes.listed, (getOrLinearize_sound h.sound resolver limit node).2, fun other => ?_⟩
  by_cases hOther : other = resolver
  · exact hOther ▸ hPublishes.closed
  · rintro member ⟨order, hOrder⟩ parent hParent
    have hOld := (hExtends.added _ _ hOrder).resolve_right fun hAdded => hOther hAdded.1
    exact hExtends.has (h.closed other member ⟨order, hOld⟩ parent hParent)

theorem of_calls {calls : List (Nat × α)} (h : cache.Grown resolvers)
    (hSame : (computeAll resolvers limit calls cache).stats.evictions = cache.stats.evictions) :
    Grown resolvers (computeAll resolvers limit calls cache) := by
  induction calls generalizing cache with
  | nil => exact h
  | cons call rest ih =>
      have hLess := evictions_le_getOrLinearize (resolvers call.1) call.1 limit call.2 cache
      have hMore := evictions_le_computeAll resolvers limit rest
        (getOrLinearize (resolvers call.1) call.1 limit call.2 cache).2
      have hFirst := Nat.le_antisymm (hMore.trans_eq hSame) hLess
      exact ih (h.of_call hFirst) (hSame.trans hFirst.symm)

section

variable {order own : Linearization α} {conflict : Conflict α} {member ancestor other : α}

/-- What is stored under a node is what a walk finds that begins with nothing known and has a limit
that is large enough. -/
theorem exists_linearize_eq (h : cache.Grown resolvers)
    (hStored : cache.stored? (resolver, node) = some own) :
    ∃ enough, ∀ bound, enough ≤ bound → linearize (resolvers resolver) node bound = .ok own :=
  have hOwn := h.sound resolver node own (Cache.holds_of_stored? hStored)
  ⟨own.toList.length, fun _ hBound => hOwn.linearize_eq hBound⟩

theorem has_of_ok (h : cache.Grown resolvers)
    (hSame : (getOrLinearize (resolvers resolver) resolver limit node cache).2.stats.evictions =
      cache.stats.evictions)
    (hOk : (getOrLinearize (resolvers resolver) resolver limit node cache).1 = .ok order)
    (hMember : member ∈ order.toList) :
    Has resolver member (getOrLinearize (resolvers resolver) resolver limit node cache).2 := by
  have hOutcome := h.publishes limit node hSame
  have hAnswer := (getOrLinearize_sound h.sound resolver limit node).1
  rw [hOk] at hAnswer
  cases hAnswer with
  | ok hOrder =>
      have hNode := hOutcome.publishes.known node (hOutcome.of_ok order hOk)
      have hReach := (hOrder.mem_toList_iff member).1 hMember
      exact hOutcome.publishes.closed.has_of_reaches hNode hReach

theorem has_of_inconsistent (h : cache.Grown resolvers)
    (hSame : (getOrLinearize (resolvers resolver) resolver limit node cache).2.stats.evictions =
      cache.stats.evictions)
    (hError : (getOrLinearize (resolvers resolver) resolver limit node cache).1 =
      .error (.inconsistent conflict))
    (hAncestor : Relation.TransGen (DirectParent (resolvers resolver)) conflict.node ancestor) :
    Has resolver ancestor (getOrLinearize (resolvers resolver) resolver limit node cache).2 := by
  have hOutcome := h.publishes limit node hSame
  obtain ⟨parent, hParent, hReach⟩ := Relation.TransGen.head'_iff.1 hAncestor
  have hKnown := hOutcome.of_conflict conflict hError parent hParent
  exact hOutcome.publishes.closed.has_of_reaches (hOutcome.publishes.known parent hKnown) hReach

/-- No cache has a node with an ancestor that clashes. -/
theorem not_has_of_clashes (h : cache.Grown resolvers)
    (hClash : Clashes (resolvers resolver) conflict.node conflict)
    (hReach : Reaches (resolvers resolver) other conflict.node) : ¬Has resolver other cache := by
  rintro ⟨order, hStored⟩
  have hOrder := h.sound resolver other order (Cache.holds_of_stored? hStored)
  obtain ⟨own, hOwn, _⟩ := hOrder.exists_sublist ((hOrder.mem_toList_iff _).2 hReach)
  exact hClash.not_linearizes hOwn

end

end Grown

/-- The keys under which the walks for some calls may store something. -/
def keysWithin (resolvers : Nat → α → List α) (limit : Nat) (calls : List (Nat × α)) :
    List (Nat × α) :=
  calls.flatMap fun call =>
    (nodesWithin (resolvers call.1) (max 1 limit) call.2).map (Prod.mk call.1)

/-- The cache has entries under such keys only, and each shard has room for all of them. -/
structure Roomy (keys : List (Nat × α)) (cache : OrderCache α) : Prop where
  lists : ∃ items, cache.Lists items ∧ ∀ item ∈ items, item.1 ∈ keys
  room : keys.length ≤ cache.shardCapacity
  evictions_eq : cache.stats.evictions = 0

namespace Roomy

variable {keys : List (Nat × α)}

theorem get (h : Roomy keys cache) (key : Nat × α) : Roomy keys (cache.get key).2 := by
  obtain ⟨items, hItems, hKeys⟩ := h.lists
  refine ⟨⟨items, hItems.get key, hKeys⟩, ?_, (Cache.evictions_get key cache).trans h.evictions_eq⟩
  rw [Cache.shardCapacity_get]
  exact h.room

theorem insert (h : Roomy keys cache) {key : Nat × α} (hKey : key ∈ keys)
    (order : Linearization α) : Roomy keys (cache.insert key order) := by
  obtain ⟨items, hItems, hKeys⟩ := h.lists
  by_cases hNew : cache.stored? key = none
  · have hAbsent := (hItems.stored?_eq_none_iff key).1 hNew
    have hItemKeys : ∀ other ∈ key :: items.map Prod.fst, other ∈ keys :=
      List.forall_mem_cons.2 ⟨hKey, List.forall_mem_map.2 hKeys⟩
    -- The keys of the entries are all different, and one more belongs to them.
    have hLength := (List.subperm_of_subset (List.nodup_cons.2 ⟨hAbsent, hItems.nodup⟩)
      hItemKeys).length_le
    rw [List.length_cons, List.length_map] at hLength
    have hRoom := h.room
    have hShard : items.countP (Cache.belongs cache.shardOf (cache.shardOf key)) ≤ items.length :=
      List.countP_le_length
    have hFree : items.countP (Cache.belongs cache.shardOf (cache.shardOf key)) <
        cache.shardCapacity := by omega
    obtain ⟨hLists, hStats⟩ := hItems.insert hNew (Nat.ne_zero_of_lt hFree) order
    rw [Cache.arrive, if_pos hFree] at hLists
    rw [if_pos hFree] at hStats
    refine ⟨⟨_, hLists, ?_⟩, ?_, ?_⟩
    · exact List.forall_mem_append.2 ⟨hKeys, List.forall_mem_singleton.2 hKey⟩
    · rwa [Cache.shardCapacity_insert]
    · rw [hStats]
      exact h.evictions_eq
  · rw [hItems.stored?_eq_none_iff, not_not] at hNew
    rwa [hItems.insert_of_stored hNew order]

theorem of_uses {kept : α → Prop} {last : OrderCache α} (h : Roomy keys cache)
    (hKept : ∀ node, kept node → (resolver, node) ∈ keys)
    (hUses : (storeFor resolver α).Uses kept cache last) : Roomy keys last := by
  induction hUses with
  | refl => exact h
  | find _ node ih => exact ih.get (resolver, node)
  | keep _ hNode order ih => exact ih.insert (hKept _ hNode) order

theorem of_calls {calls : List (Nat × α)} (h : Roomy keys cache)
    (hKeys : ∀ key ∈ keysWithin resolvers limit calls, key ∈ keys) :
    Roomy keys (computeAll resolvers limit calls cache) := by
  induction calls generalizing cache with
  | nil => exact h
  | cons call rest ih =>
      rw [keysWithin, List.flatMap_cons, List.forall_mem_append, List.forall_mem_map] at hKeys
      refine ih (h.of_uses hKeys.1 ?_) hKeys.2
      exact Walk.Setting.uses_linearize ⟨resolvers call.1, limit, storeFor call.1 α⟩ call.2 ∅ cache

end Roomy

/-- A cache may have so large a capacity that nothing is given up. -/
theorem exists_capacity (resolvers : Nat → α → List α) (limit : Nat)
    (shardOf : Nat × α → Fin 16) (calls : List (Nat × α)) :
    ∃ enough, ∀ capacity, enough ≤ capacity →
      (computeAll resolvers limit calls (Cache.empty capacity shardOf)).stats.evictions = 0 := by
  refine ⟨16 * (keysWithin resolvers limit calls).length, fun capacity hEnough => ?_⟩
  have hEmpty : Roomy (keysWithin resolvers limit calls)
      (Cache.empty capacity shardOf : OrderCache α) := by
    refine ⟨⟨[], Cache.lists_empty capacity shardOf, nofun⟩, ?_, rfl⟩
    simp only [Cache.shardCapacity, Cache.empty, Cache.shardCount]
    omega
  exact (hEmpty.of_calls fun _ hKey => hKey).evictions_eq

/-- What requests for linearizations leave in a cache that was empty at first and that had to give
nothing up, which is so from some capacity on. Whatever was asked for, under which resolver and with
which answer, the cache has the parents of each node that it has. A request that got a linearization
leaves behind those of all members; one that met a conflict leaves behind those of all ancestors of
the node at which the linearizations clash, but nothing for this node and for those above which it
stands. And what a request adds is for its resolver, for its node and the ancestors of its node. -/
theorem ancestors_published (resolvers : Nat → α → List α) (limit : Nat)
    (shardOf : Nat × α → Fin 16) (calls : List (Nat × α)) :
    (∃ enough, ∀ capacity, enough ≤ capacity →
      (computeAll resolvers limit calls (Cache.empty capacity shardOf)).stats.evictions = 0) ∧
    ∀ capacity, 0 < capacity →
      (computeAll resolvers limit calls (Cache.empty capacity shardOf)).stats.evictions = 0 →
      (∀ resolver, Closed (resolvers resolver) resolver
        (computeAll resolvers limit calls (Cache.empty capacity shardOf))) ∧
      ∀ earlier resolver node later, calls = earlier ++ (resolver, node) :: later →
        let before := computeAll resolvers limit earlier (Cache.empty capacity shardOf)
        let answer := getOrLinearize (resolvers resolver) resolver limit node before
        (∀ order, answer.1 = .ok order → ∀ member ∈ order.toList, ∃ own enough,
          answer.2.stored? (resolver, member) = some own ∧
          ∀ bound, enough ≤ bound → linearize (resolvers resolver) member bound = .ok own) ∧
        (∀ conflict, answer.1 = .error (.inconsistent conflict) →
          (∀ ancestor,
            Relation.TransGen (DirectParent (resolvers resolver)) conflict.node ancestor →
            Has resolver ancestor answer.2) ∧
          Reaches (resolvers resolver) node conflict.node ∧
          ∀ other, Reaches (resolvers resolver) other conflict.node →
            ¬Has resolver other answer.2) ∧
        ∀ key order, answer.2.stored? key = some order →
          before.stored? key = some order ∨
            key.1 = resolver ∧ Reaches (resolvers resolver) node key.2 := by
  refine ⟨exists_capacity resolvers limit shardOf calls, fun capacity hCapacity hNone => ?_⟩
  have hEmpty : Grown resolvers (Cache.empty capacity shardOf) :=
    grown_empty resolvers hCapacity shardOf
  refine ⟨(hEmpty.of_calls hNone).closed, ?_⟩
  rintro earlier resolver node later rfl before answer
  have hSplit : computeAll resolvers limit (earlier ++ (resolver, node) :: later)
      (Cache.empty capacity shardOf) = computeAll resolvers limit later answer.2 :=
    computeAll_append earlier _ _
  rw [hSplit] at hNone
  -- The counter never falls, so that it is zero before and after the request too.
  have hAfter : answer.2.stats.evictions = 0 :=
    Nat.le_zero.1 (hNone ▸ evictions_le_computeAll resolvers limit later answer.2)
  have hLess := evictions_le_getOrLinearize (resolvers resolver) resolver limit node before
  have hBefore : before.stats.evictions = 0 := Nat.le_zero.1 (hAfter ▸ hLess)
  have hGrown : before.Grown resolvers := hEmpty.of_calls hBefore
  have hSame : answer.2.stats.evictions = before.stats.evictions := hAfter.trans hBefore.symm
  have hGrownAfter : answer.2.Grown resolvers := hGrown.of_call hSame
  refine ⟨fun order hOk member hMember => ?_, fun conflict hError => ?_,
    (hGrown.listed.extends_getOrLinearize hSame).added⟩
  · obtain ⟨own, hOwn⟩ := hGrown.has_of_ok hSame hOk hMember
    obtain ⟨enough, hEnough⟩ := hGrownAfter.exists_linearize_eq hOwn
    exact ⟨own, enough, hOwn, hEnough⟩
  · have hAnswer : Walk.Answer (resolvers resolver) limit node answer.1 :=
      (getOrLinearize_sound hGrown.sound resolver limit node).1
    rw [hError] at hAnswer
    cases hAnswer with
    | inconsistent hMeets =>
        exact ⟨fun _ => hGrown.has_of_inconsistent hSame hError, hMeets.reaches_node,
          fun _ => hGrownAfter.not_has_of_clashes hMeets.clashes_node⟩

/-- Two resolvers share the cache. Under one of them the node 0 has no parents, under the other one
its parents clash. -/
theorem ancestors_published_contrary :
    let resolvers : Nat → Nat → List Nat := fun resolver =>
      if resolver = 0 then contraryParents else fun _ => []
    ∃ capacity, 0 < capacity ∧
      let initial : OrderCache Nat := Cache.empty capacity fun _ => 0
      let before := computeAll resolvers 4 [(1, 0)] initial
      let answer := getOrLinearize contraryParents 0 4 0 before
      (computeAll resolvers 4 [(1, 0), (0, 0)] initial).stats.evictions = 0 ∧
      answer.1 = .error (.inconsistent ⟨0, [1, 2], [0], [[1], [2, 1], [1, 2]]⟩) ∧
      Has 0 1 answer.2 ∧ Has 0 2 answer.2 ∧ ¬Has 0 0 answer.2 := by
  intro resolvers
  obtain ⟨⟨enough, hEnough⟩, hPublished⟩ :=
    ancestors_published resolvers 4 (fun _ => 0) [(1, 0), (0, 0)]
  refine ⟨enough + 1, Nat.succ_pos _, ?_⟩
  intro initial before answer
  have hNone := hEnough (enough + 1) (Nat.le_succ _)
  obtain ⟨_, hCalls⟩ := hPublished (enough + 1) (Nat.succ_pos _) hNone
  obtain ⟨_, hInconsistent, _⟩ := hCalls [(1, 0)] 0 0 [] rfl
  have hOne : Linearizes contraryParents 1 (contraryOrders 1) := .of_no_parents rfl
  have hTwo : Linearizes contraryParents 2 (contraryOrders 2) := .of_only_parent rfl hOne
  have hParents : ∀ parent ∈ contraryParents 0,
      Linearizes contraryParents parent (contraryOrders parent) := by
    simpa [contraryParents] using ⟨hOne, hTwo⟩
  have hClash : Clashes contraryParents 0 ⟨0, [1, 2], [0], [[1], [2, 1], [1, 2]]⟩ :=
    .of_merge contraryOrders hParents (Merge.Plain.merge_eq_error_of_plain (by cbv))
  have hBefore : before.Sound resolvers :=
    (getOrLinearize_sound (sound_empty resolvers _ _) 1 4 0).2
  have hAnswer : Walk.Answer contraryParents 4 0 answer.1 :=
    (getOrLinearize_sound hBefore 0 4 0).1
  have hChains : ChainsWithin contraryParents 4 0 := by
    refine .of_parents fun parent hParent => (hParents parent hParent).chainsWithin ?_
    unfold contraryOrders
    split <;> simp [Linearization.toList]
  have hError := hAnswer.eq_error (.own hClash) (hAnswer.not_hitsLimit_of_chains hChains)
  obtain ⟨hAncestors, hReach, hMissing⟩ := hInconsistent _ hError
  have hDirect : ∀ parent ∈ [1, 2], DirectParent (resolvers 0) 0 parent := fun _ hParent => hParent
  exact ⟨hNone, hError, hAncestors 1 (.single (hDirect 1 (by simp))),
    hAncestors 2 (.single (hDirect 2 (by simp))),
    hMissing 0 hReach⟩

end OrderCache

end Ancestry
