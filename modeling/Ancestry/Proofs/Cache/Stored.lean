import Ancestry.Proofs.Cache.Holds
import Ancestry.Proofs.Walk.Steps

/-! What walks leave in a cache, and what the next walk makes of it. A walk that succeeds puts the
requested node into the store last of all, so that a cache with any capacity has the node afterwards
(`OrderCache.stored?_getOrLinearize`). A walk reads the parents that are in the cache and enters
none of them, so that it cannot meet its limit if all of them are there, however long their own
chains of parents are (`OrderCache.getOrLinearize_not_hitsLimit`). -/
namespace Ancestry

namespace Walk

variable {σ α : Type} [DecidableEq α] [Hashable α] {setting : Setting σ α} {requested : α}
  {state : State σ α} {order : Linearization α}

/-- A walk succeeds only when it leaves the lowest node. -/
theorem of_step_eq_ok {outcome : Outcome σ α}
    (h : step setting requested state = .finished outcome) (hOk : outcome.result = .ok order) :
    state.stack.pop? = none ∧
      outcome.store = setting.store.keep state.stack.top.node order state.store := by
  unfold step at h
  split at h
  · simp only [turnTo] at h
    split at h
    · cases h
    · split at h
      · cases h
        cases hOk
      · cases h
  · unfold leave at h
    split at h
    · cases h
      cases hOk
    · simp only [leaveWith] at h
      split at h
      · rename_i hPop
        cases h
        cases hOk
        exact ⟨hPop, rfl⟩
      · cases h

theorem Waits.eq_requested {parents : α → List α} {memo : Memo α} {stack : Stack α}
    (h : Waits parents requested memo stack.top.node stack.below) (hPop : stack.pop? = none) :
    stack.top.node = requested := by
  obtain ⟨top, below, height, hHeight⟩ := stack
  cases below with
  | nil => exact h
  | cons frame below => cases hPop

/-- What a successful walk keeps last is the linearization of the requested node. -/
theorem State.Invariant.run_store {good : σ → Prop}
    (hStore : setting.store.Sound setting.parents good)
    (h : state.Invariant setting good requested)
    (hOk : (Walk.run setting requested state).result = .ok order) :
    ∃ stored, good stored ∧
      (Walk.run setting requested state).store = setting.store.keep requested order stored := by
  induction State.accessible setting requested state with
  | intro state _ ih =>
      have hStep := h.step hStore
      rw [run_eq] at hOk ⊢
      cases hNext : Walk.step setting requested state with
      | running next =>
          rw [hNext] at hStep hOk
          cases hStep with
          | running hInvariant => exact ih next hNext hInvariant hOk
      | finished outcome =>
          rw [hNext] at hOk
          obtain ⟨hPop, hKept⟩ := of_step_eq_ok hNext hOk
          exact ⟨state.store, h.store, h.waits.eq_requested hPop ▸ hKept⟩

end Walk

namespace Cache

variable {κ β : Type} [DecidableEq κ] [Hashable κ] {cache : Cache κ β} {key : κ} {value : β}

theorem shardCapacity_get (key : κ) (cache : Cache κ β) :
    (cache.get key).2.shardCapacity = cache.shardCapacity := by
  rw [get]
  split <;> rfl

theorem shardCapacity_insert (key : κ) (value : β) (cache : Cache κ β) :
    (cache.insert key value).shardCapacity = cache.shardCapacity := by
  rw [insert]
  split
  · rfl
  · split <;> rfl

/-- What is put into a cache is there, unless the cache can hold nothing at all. -/
theorem stored?_insert_self (hCapacity : cache.shardCapacity ≠ 0) :
    ∃ found, (cache.insert key value).stored? key = some found := by
  by_cases hPresent : key ∈ (cache.shard key).entries
  · rw [insert, if_neg hCapacity, if_pos hPresent]
    exact Option.isSome_iff_exists.1 (Std.HashMap.mem_iff_isSome_getElem?.1 hPresent)
  · refine ⟨value, ?_⟩
    rw [insert, if_neg hCapacity, if_neg hPresent]
    simp [stored?, shard, Shard.insert]

end Cache

namespace OrderCache

open Walk (HitsLimit)

variable {α : Type} [DecidableEq α] [Hashable α] {resolvers : Nat → α → List α}
  {cache : OrderCache α} {node : α} {order : Linearization α}

/-- Under each resolver and node a cache of this capacity holds nothing but linearizations. -/
def SoundOf (resolvers : Nat → α → List α) (capacity : Nat) (cache : OrderCache α) : Prop :=
  cache.Sound resolvers ∧ cache.shardCapacity = capacity

/-- The walks of a resolver do not change the capacity. -/
theorem storeFor_soundOf (resolvers : Nat → α → List α) (resolver capacity : Nat) :
    (storeFor resolver α).Sound (resolvers resolver) (SoundOf resolvers capacity) where
  good_find := fun node cache ⟨hCache, hCapacity⟩ =>
    ⟨(storeFor_sound resolvers resolver).good_find node cache hCache,
      (Cache.shardCapacity_get _ cache).trans hCapacity⟩
  linearizes_find := fun node cache order ⟨hCache, _⟩ =>
    (storeFor_sound resolvers resolver).linearizes_find node cache order hCache
  good_keep := fun node order cache ⟨hCache, hCapacity⟩ hOrder =>
    ⟨(storeFor_sound resolvers resolver).good_keep node order cache hCache hOrder,
      (Cache.shardCapacity_insert _ order cache).trans hCapacity⟩

/-- A node that got its linearization is in the cache. -/
theorem stored?_getOrLinearize (hCache : cache.Sound resolvers)
    (hCapacity : cache.shardCapacity ≠ 0) {resolver limit : Nat}
    (hOk : (getOrLinearize (resolvers resolver) resolver limit node cache).1 = .ok order) :
    ∃ found, (getOrLinearize (resolvers resolver) resolver limit node cache).2.stored?
      (resolver, node) = some found := by
  have hUnknown : (∅ : Memo α)[node]? = none := Std.HashMap.getElem?_empty
  rw [getOrLinearize, Walk.Setting.linearize] at hOk ⊢
  cases hStored : cache.stored? (resolver, node) with
  | some found =>
      rw [lookup_of_stored? hUnknown hStored]
      exact ⟨found, (Cache.stored?_get _ _ cache).trans hStored⟩
  | none =>
      rw [lookup_of_no_entry hUnknown hStored] at hOk ⊢
      have hStore := storeFor_soundOf resolvers resolver cache.shardCapacity
      have hGood : SoundOf resolvers cache.shardCapacity (cache.get (resolver, node)).2 :=
        hStore.good_find node cache ⟨hCache, rfl⟩
      have hEnter : Walk.State.Invariant ⟨resolvers resolver, limit, storeFor resolver α⟩
          _ node _ := .enter (Memo.sound_empty _) hGood node
      obtain ⟨stored, ⟨_, hSame⟩, hKept⟩ := hEnter.run_store hStore hOk
      rw [hKept]
      exact Cache.stored?_insert_self (hSame.trans_ne hCapacity)

/-- A walk that finds all pending parents of the requested node in the cache does not leave it. -/
theorem run_not_hitsLimit {resolver : Nat} {parents : α → List α} (limit : Nat) (requested : α)
    {frame : Walk.Frame α} {memo : Memo α}
    (hStored : ∀ parent ∈ frame.pending, ∃ found, cache.stored? (resolver, parent) = some found) :
    ¬HitsLimit (Walk.run ⟨parents, limit, storeFor resolver α⟩ requested
      ⟨.single frame, memo, cache⟩).result := by
  obtain ⟨node, turned, pending⟩ := frame
  induction pending generalizing memo cache with
  | nil =>
      cases hMerge : Walk.Setting.merge ⟨parents, limit, storeFor resolver α⟩ ⟨node, turned, []⟩
        memo with
      | error conflict =>
          rw [Walk.run_of_finished (Walk.step_of_conflict rfl hMerge)]
          exact Walk.not_hitsLimit_inconsistent conflict
      | ok order =>
          rw [Walk.run_of_finished (Walk.step_of_last rfl hMerge rfl)]
          exact Walk.not_hitsLimit_ok order
  | cons parent pending ih =>
      obtain ⟨⟨found, hFound⟩, hOthers⟩ := List.forall_mem_cons.1 hStored
      cases hMemo : memo[parent]? with
      | some known =>
          rw [Walk.run_of_running (Walk.step_of_known rfl (Walk.lookup_of_known hMemo))]
          exact ih hOthers
      | none =>
          rw [Walk.run_of_running (Walk.step_of_known rfl (lookup_of_stored? hMemo hFound))]
          refine ih fun other hOther => ?_
          rw [Cache.stored?_get]
          exact hOthers other hOther

theorem getOrLinearize_not_hitsLimit {resolver : Nat} {parents : α → List α} (limit : Nat)
    (hStored : ∀ parent ∈ parents node, ∃ found,
      cache.stored? (resolver, parent) = some found) :
    ¬HitsLimit (getOrLinearize parents resolver limit node cache).1 := by
  have hUnknown : (∅ : Memo α)[node]? = none := Std.HashMap.getElem?_empty
  rw [getOrLinearize, Walk.Setting.linearize]
  cases hOwn : cache.stored? (resolver, node) with
  | some found =>
      rw [lookup_of_stored? hUnknown hOwn]
      exact Walk.not_hitsLimit_ok found
  | none =>
      rw [lookup_of_no_entry hUnknown hOwn]
      refine run_not_hitsLimit limit node fun parent hParent => ?_
      rw [Cache.stored?_get]
      exact hStored parent hParent

end OrderCache

end Ancestry
