import Ancestry.Cache
import Ancestry.Proofs.Walk.Answer

/-! What a cache holds. Every operation on a cache gives up entries or adds the one that it is asked
to add; none changes a value or moves it to another key. So a cache into which only linearizations
are put, each under its resolver and node, holds only those (`OrderCache.storeFor_sound`). -/
namespace Ancestry

section

variable {κ β : Type} [DecidableEq κ] [Hashable κ]

/-- Giving up entries leaves the others as they are. -/
theorem Shard.getElem?_of_makeRoom {capacity : Nat} {shard : Shard κ β} {key : κ} {value : β}
    (h : (shard.makeRoom capacity).1.entries[key]? = some value) :
    shard.entries[key]? = some value := by
  induction hCount : shard.arrivals.length generalizing shard with
  | zero =>
      rw [makeRoom] at h
      split at h
      · exact h
      · rw [List.length_eq_zero_iff.1 hCount] at h
        exact h
  | succ count ih =>
      rw [makeRoom] at h
      split at h
      · exact h
      · split at h
        · exact h
        · have hRest := ih h (by simp [hCount])
          rw [Std.HashMap.getElem?_erase] at hRest
          split at hRest
          · cases hRest
          · exact hRest

theorem Shard.insert_of_room {capacity : Nat} {shard : Shard κ β} (key : κ) (value : β)
    (h : shard.entries.size < capacity) :
    shard.insert capacity key value =
      (⟨shard.entries.insert key value, key :: shard.arrivals⟩, 0) := by
  rw [insert, makeRoom, if_pos h]

theorem Shard.getElem?_of_insert {capacity : Nat} {shard : Shard κ β} {key other : κ}
    {value found : β} (h : (shard.insert capacity key value).1.entries[other]? = some found) :
    other = key ∧ found = value ∨ shard.entries[other]? = some found := by
  rw [insert] at h
  rw [Std.HashMap.getElem?_insert] at h
  split at h
  · rename_i hSame
    cases h
    exact .inl ⟨(beq_iff_eq.1 hSame).symm, rfl⟩
  · exact .inr (getElem?_of_makeRoom h)

namespace Cache

/-- The value is stored under the key, in whichever shard. -/
def Holds (cache : Cache κ β) (key : κ) (value : β) : Prop :=
  ∃ shard ∈ cache.shards, shard.entries[key]? = some value

variable {cache : Cache κ β} {key other : κ} {value found : β}

/-- The value that is found under the key. -/
def stored? (cache : Cache κ β) (key : κ) : Option β := (cache.shard key).entries[key]?

theorem stored?_empty (capacity : Nat) (shardOf : κ → Fin 16) (key : κ) :
    (empty capacity shardOf : Cache κ β).stored? key = none := by
  simp [stored?, shard, empty, Shard.empty]

theorem get_fst (key : κ) (cache : Cache κ β) : (cache.get key).1 = cache.stored? key := by
  cases hFound : (cache.shard key).entries[key]? <;> simp [get, stored?, hFound]

/-- Reading changes the counters only. -/
theorem shards_get (key : κ) (cache : Cache κ β) : (cache.get key).2.shards = cache.shards := by
  rw [get]
  split <;> rfl

theorem shardOf_get (key : κ) (cache : Cache κ β) : (cache.get key).2.shardOf = cache.shardOf := by
  rw [get]
  split <;> rfl

@[simp] theorem stored?_get (key other : κ) (cache : Cache κ β) :
    (cache.get key).2.stored? other = cache.stored? other := by
  simp only [stored?, shard, shards_get, shardOf_get]

/-- A new entry in a shard with room for it leaves all others in place. -/
theorem stored?_insert {cache : Cache κ β} {key : κ} (value : β) (other : κ)
    (hNew : cache.stored? key = none)
    (hRoom : (cache.shard key).entries.size < cache.shardCapacity) :
    (cache.insert key value).stored? other =
      if key = other then some value else cache.stored? other := by
  have hAbsent : key ∉ (cache.shard key).entries := by
    rw [Std.HashMap.mem_iff_isSome_getElem?, ← stored?, hNew]
    simp
  rw [insert, if_neg (Nat.ne_of_gt (Nat.zero_lt_of_lt hRoom)), if_neg hAbsent,
    Shard.insert_of_room key value hRoom]
  simp only [stored?, shard]
  by_cases hShard : cache.shardOf key = cache.shardOf other
  · simp [hShard, Std.HashMap.getElem?_insert]
  · have hOther : key ≠ other := fun hSame => hShard (congrArg cache.shardOf hSame)
    simp [hShard, hOther, Fin.val_inj]

theorem stored?_single {capacity : Nat} (shardOf : κ → Fin 16) (key other : κ) (value : β)
    (hCapacity : 0 < capacity) :
    ((empty capacity shardOf).insert key value).stored? other =
      if key = other then some value else none := by
  have hRoom : ((empty capacity shardOf : Cache κ β).shard key).entries.size <
      (empty capacity shardOf : Cache κ β).shardCapacity := by
    simp only [shard, empty, shardCapacity, shardCount, Fin.getElem_fin, Vector.getElem_replicate,
      Shard.empty, Std.HashMap.size_empty]
    omega
  rw [stored?_insert value other (stored?_empty capacity shardOf key) hRoom, stored?_empty]

theorem not_holds_empty (capacity : Nat) (shardOf : κ → Fin 16) :
    ¬(empty capacity shardOf : Cache κ β).Holds key value := by
  rintro ⟨shard, hShard, hFound⟩
  rw [(Vector.mem_replicate.1 hShard).2] at hFound
  simp [Shard.empty] at hFound

theorem holds_of_stored? (h : cache.stored? key = some value) : cache.Holds key value :=
  ⟨_, Vector.getElem_mem _, h⟩

theorem holds_of_insert (h : (cache.insert key value).Holds other found) :
    other = key ∧ found = value ∨ cache.Holds other found := by
  rw [insert] at h
  split at h
  · exact .inr h
  · split at h
    · exact .inr h
    · obtain ⟨shard, hShard, hFound⟩ := h
      rcases @Vector.mem_or_eq_of_mem_set _ _ _ _ _ _ (cache.shardOf key).isLt hShard
        with hOld | rfl
      · exact .inr ⟨shard, hOld, hFound⟩
      · exact (Shard.getElem?_of_insert hFound).imp_right fun hOld =>
          ⟨_, Vector.getElem_mem _, hOld⟩

theorem not_holds_clear : ¬cache.clear.Holds key value :=
  not_holds_empty cache.capacity cache.shardOf

theorem holds_of_removeAll {matched : κ → Bool} (h : (cache.removeAll matched).Holds key value) :
    cache.Holds key value ∧ matched key = false := by
  obtain ⟨_, hShard, hFound⟩ := h
  obtain ⟨shard, hOld, rfl⟩ := Vector.mem_map.1 hShard
  rw [Shard.removeAll, Std.HashMap.getElem?_filter', Option.filter_eq_some_iff] at hFound
  exact ⟨⟨shard, hOld, hFound.1⟩, by simpa using hFound.2⟩

end Cache

end

variable {α : Type} [DecidableEq α] [Hashable α]

namespace OrderCache

/-- Under each resolver and node the cache holds nothing but the linearization of the node. -/
def Sound (resolvers : Nat → α → List α) (cache : OrderCache α) : Prop :=
  ∀ resolver node order, cache.Holds (resolver, node) order →
    Linearizes (resolvers resolver) node order

variable {resolvers : Nat → α → List α} {cache : OrderCache α}

theorem sound_empty (resolvers : Nat → α → List α) (capacity : Nat)
    (shardOf : Nat × α → Fin 16) : Sound resolvers (Cache.empty capacity shardOf) :=
  fun _ _ _ hHolds => absurd hHolds (Cache.not_holds_empty capacity shardOf)

theorem Sound.get (h : cache.Sound resolvers) (key : Nat × α) :
    Sound resolvers (cache.get key).2 := by
  intro resolver node order hHolds
  rw [Cache.Holds, Cache.shards_get] at hHolds
  exact h resolver node order hHolds

theorem Sound.insert {resolver : Nat} {node : α} {order : Linearization α}
    (h : cache.Sound resolvers) (hOrder : Linearizes (resolvers resolver) node order) :
    Sound resolvers (cache.insert (resolver, node) order) := by
  intro other found value hHolds
  rcases Cache.holds_of_insert hHolds with ⟨hKey, rfl⟩ | hOld
  · cases hKey
    exact hOrder
  · exact h other found value hOld

theorem sound_clear (resolvers : Nat → α → List α) (cache : OrderCache α) :
    Sound resolvers cache.clear :=
  fun _ _ _ hHolds => absurd hHolds Cache.not_holds_clear

theorem Sound.clearResolver (h : cache.Sound resolvers) (resolver : Nat) :
    Sound resolvers (cache.clearResolver resolver) :=
  fun _ _ _ hHolds => h _ _ _ (Cache.holds_of_removeAll hHolds).1

/-- The walks of a resolver keep such a cache as it should be. -/
theorem storeFor_sound (resolvers : Nat → α → List α) (resolver : Nat) :
    (storeFor resolver α).Sound (resolvers resolver) (Sound resolvers) where
  good_find := fun node _ hCache => hCache.get (resolver, node)
  linearizes_find := by
    intro node stored order hCache hFound
    rw [storeFor, Cache.get_fst] at hFound
    exact hCache resolver node order (Cache.holds_of_stored? hFound)
  good_keep := fun _ _ _ hCache hOrder => hCache.insert hOrder

/-- A walk that looks up a node of which its memo knows nothing gets what the cache has. -/
theorem lookup_of_stored? {memo : Memo α} {resolver : Nat} {node : α} {order : Linearization α}
    (hMemo : memo[node]? = none) (hEntry : cache.stored? (resolver, node) = some order) :
    Walk.lookup (storeFor resolver α) node memo cache =
      (some order, memo.insert node order, (cache.get (resolver, node)).2) := by
  have hGet : cache.get (resolver, node) = (some order, (cache.get (resolver, node)).2) :=
    Prod.ext ((Cache.get_fst _ cache).trans hEntry) rfl
  simp only [Walk.lookup, hMemo, storeFor]
  rw [hGet]

theorem lookup_of_no_entry {memo : Memo α} {resolver : Nat} {node : α}
    (hMemo : memo[node]? = none) (hEntry : cache.stored? (resolver, node) = none) :
    Walk.lookup (storeFor resolver α) node memo cache =
      (none, memo, (cache.get (resolver, node)).2) := by
  have hGet : cache.get (resolver, node) = (none, (cache.get (resolver, node)).2) :=
    Prod.ext ((Cache.get_fst _ cache).trans hEntry) rfl
  simp only [Walk.lookup, hMemo, storeFor]
  rw [hGet]

theorem getOrLinearize_sound (h : cache.Sound resolvers) (resolver limit : Nat) (node : α) :
    Walk.Answer (resolvers resolver) limit node
        (getOrLinearize (resolvers resolver) resolver limit node cache).1 ∧
      Sound resolvers (getOrLinearize (resolvers resolver) resolver limit node cache).2 := by
  have hOutcome := Walk.Setting.linearize_sound ⟨resolvers resolver, limit, storeFor resolver α⟩
    (storeFor_sound resolvers resolver) (Memo.sound_empty _) h node
  exact ⟨hOutcome.answer, hOutcome.store⟩

end OrderCache

end Ancestry
