import Ancestry.Proofs.Cache.History
import Ancestry.Proofs.Walk.Uses
import Mathlib.Algebra.BigOperators.Fin
import Mathlib.Algebra.BigOperators.Group.Finset.Piecewise
import Mathlib.Algebra.Order.BigOperators.Group.Finset

/-! How the parts of a cache agree with each other. Each shard has its entries in a map and the keys
in a queue, and the cache counts what it stores and what it gives up. A walk that reads from a cache
and adds to it does nothing to it but get and insert (`OrderCache.exists_operations`). Main
statement: whatever a cache is asked for, the two parts of each shard have the same keys, no shard
has more than its share, and every entry that was stored is there, was given up or was cleared
(`OrderCache.queues_match_entries`). -/
namespace Ancestry

namespace Cache

variable {κ β : Type} [DecidableEq κ] [Hashable κ]

/-- The number of the entries whose keys are matched. -/
def count (matched : κ → Bool) (cache : Cache κ β) : Nat :=
  (cache.shards.toList.map fun shard => shard.entries.keys.countP matched).sum

omit [DecidableEq κ] [Hashable κ] in
/-- Each entry belongs in one shard. -/
theorem sum_countP_belongs (shardOf : κ → Fin 16) (matched : κ × β → Bool)
    (items : List (κ × β)) :
    ∑ index, (items.filter (belongs shardOf index)).countP matched = items.countP matched := by
  induction items with
  | nil => simp
  | cons item items ih =>
      have hItem : ∀ index, ((item :: items).filter (belongs shardOf index)).countP matched =
          (items.filter (belongs shardOf index)).countP matched +
            if shardOf item.1 = index then (if matched item then 1 else 0) else 0 := by
        intro index
        by_cases hHere : shardOf item.1 = index
        · have hOwn : belongs shardOf index item = true := beq_iff_eq.2 hHere
          rw [List.filter_cons_of_pos hOwn, List.countP_cons, if_pos hHere]
        · have hOther : ¬belongs shardOf index item = true := fun h => hHere (beq_iff_eq.1 h)
          rw [List.filter_cons_of_neg hOther, if_neg hHere, Nat.add_zero]
      rw [Finset.sum_congr rfl fun index _ => hItem index, Finset.sum_add_distrib, ih,
        Finset.sum_ite_eq, if_pos (Finset.mem_univ _), List.countP_cons]

theorem sum_shards (cache : Cache κ β) (number : Shard κ β → Nat) :
    (cache.shards.toList.map number).sum = ∑ index : Fin 16, number (cache.shards.get index) := by
  rw [← List.sum_ofFn]
  congr 1
  refine List.ext_getElem (by simp) fun index _ _ => ?_
  rw [List.getElem_map, List.getElem_ofFn]
  rfl

theorem size_eq_sum (cache : Cache κ β) :
    cache.size = ∑ index : Fin 16, (cache.shards.get index).entries.size := by
  rw [← sum_shards cache (·.entries.size), size, List.sum_eq_foldr, List.foldr_map]

variable {cache : Cache κ β} {items : List (κ × β)}

theorem Lists.shard (h : cache.Lists items) (index : Fin 16) :
    (cache.shards.get index).Lists (items.filter (belongs cache.shardOf index)) :=
  h.shards index

theorem Lists.count_eq (h : cache.Lists items) (matched : κ → Bool) :
    cache.count matched = items.countP (matched ·.1) := by
  rw [count, sum_shards, ← sum_countP_belongs cache.shardOf]
  refine Finset.sum_congr rfl fun index _ => ?_
  rw [(h.shard index).keys_perm.countP_eq, List.countP_map]
  rfl

theorem Lists.size_eq (h : cache.Lists items) : cache.size = items.length := by
  rw [size_eq_sum, ← List.countP_true, ← sum_countP_belongs cache.shardOf]
  refine Finset.sum_congr rfl fun index _ => ?_
  rw [(h.shard index).size_eq, List.countP_true]

theorem Lists.size_le (h : cache.Lists items) : cache.size ≤ 16 * cache.shardCapacity := by
  rw [size_eq_sum]
  calc ∑ index : Fin 16, (cache.shards.get index).entries.size
      ≤ ∑ _index : Fin 16, cache.shardCapacity :=
        Finset.sum_le_sum fun index _ => (h.size_shard index).trans_le (h.bound index)
    _ = 16 * cache.shardCapacity := by simp

/-- The queue of each shard has the keys of its map. -/
theorem Lists.forall_shards (h : cache.Lists items) :
    ∀ shard ∈ cache.shards, shard.arrivals.Nodup ∧
      (∀ key, key ∈ shard.arrivals ↔ key ∈ shard.entries) ∧
      shard.entries.size ≤ cache.shardCapacity := by
  intro shard hShard
  obtain ⟨index, hIndex, rfl⟩ := Vector.mem_iff_getElem.1 hShard
  have hShard := h.shards ⟨index, hIndex⟩
  have hBound := h.bound ⟨index, hIndex⟩
  have hArrivals := List.nodup_reverse.2 hShard.nodup
  rw [← hShard.arrivals_eq] at hArrivals
  rw [← h.size_shard] at hBound
  exact ⟨hArrivals, hShard.mem_arrivals_iff, hBound⟩

theorem Lists.not_holds (h : cache.Lists items) (hRoom : cache.shardCapacity = 0) (key : κ)
    (value : β) : ¬cache.Holds key value := by
  rintro ⟨shard, hShard, hHolds⟩
  have hNone : shard.entries.size = 0 := Nat.le_zero.1 (hRoom ▸ (h.forall_shards shard hShard).2.2)
  have hEmpty : shard.entries.isEmpty = true := by
    rw [Std.HashMap.isEmpty_eq_size_eq_zero, hNone]
    rfl
  rw [Std.HashMap.getElem?_of_isEmpty hEmpty] at hHolds
  cases hHolds

/-- An insertion under a new key gives up one entry at most. -/
theorem Lists.evictions_insert_le (h : cache.Lists items) {key : κ}
    (hNew : cache.stored? key = none) (value : β) :
    (cache.insert key value).stats.evictions ≤ cache.stats.evictions + 1 := by
  by_cases hRoom : cache.shardCapacity = 0
  · rw [Cache.insert, if_pos hRoom]
    exact Nat.le_succ _
  · rw [(h.insert hNew hRoom value).2]
    dsimp only
    split <;> omega

end Cache

namespace OrderCache

variable {α : Type} [DecidableEq α] [Hashable α] {cache : OrderCache α} {resolver : Nat}

/-- What a cache may be asked for: an operation, or a linearization that is to be found out if the
cache does not have it. -/
inductive Request (α : Type) where
  | perform (operation : Operation α)
  | compute (parents : α → List α) (resolver limit : Nat) (node : α)

def serve (cache : OrderCache α) : Request α → OrderCache α
  | .perform operation => cache.perform operation
  | .compute parents resolver limit node => (getOrLinearize parents resolver limit node cache).2

def serveAll (cache : OrderCache α) (requests : List (Request α)) : OrderCache α :=
  requests.foldl serve cache

/-- The number of the entries that a request clears. -/
def cleared (cache : OrderCache α) : Request α → Nat
  | .perform .clear => cache.size
  | .perform (.clearResolver resolver) => cache.count (·.1 == resolver)
  | _ => 0

/-- The number of the entries that some requests clear, one after the other. -/
def clearedAll : OrderCache α → List (Request α) → Nat
  | _, [] => 0
  | cache, request :: rest => cache.cleared request + clearedAll (cache.serve request) rest

/-- The operations that a walk for the resolver performs. -/
inductive Operation.ByWalk (resolver : Nat) : Operation α → Prop where
  | get (node : α) : ByWalk resolver (.get resolver node)
  | insert (node : α) (order : Linearization α) : ByWalk resolver (.insert resolver node order)

theorem exists_operations_of_uses {kept : α → Prop} {later : OrderCache α}
    (h : (storeFor resolver α).Uses kept cache later) :
    ∃ operations : List (Operation α), (∀ operation ∈ operations, operation.ByWalk resolver) ∧
      later = cache.performAll operations := by
  induction h with
  | refl => exact ⟨[], nofun, rfl⟩
  | find _ node ih =>
      obtain ⟨operations, hOperations, rfl⟩ := ih
      refine ⟨operations ++ [.get resolver node], ?_, by rw [performAll_concat]; rfl⟩
      exact List.forall_mem_append.2 ⟨hOperations, List.forall_mem_singleton.2 (.get node)⟩
  | @keep _ _ node _ order ih =>
      obtain ⟨operations, hOperations, rfl⟩ := ih
      refine ⟨operations ++ [.insert resolver node order], ?_, by rw [performAll_concat]; rfl⟩
      exact List.forall_mem_append.2
        ⟨hOperations, List.forall_mem_singleton.2 (.insert node order)⟩

/-- A walk does nothing to the cache but get and insert. -/
theorem exists_operations (parents : α → List α) (resolver limit : Nat) (node : α)
    (cache : OrderCache α) :
    ∃ operations : List (Operation α), (∀ operation ∈ operations, operation.ByWalk resolver) ∧
      (getOrLinearize parents resolver limit node cache).2 = cache.performAll operations :=
  exists_operations_of_uses
    (Walk.Setting.uses_linearize ⟨parents, limit, storeFor resolver α⟩ node ∅ cache)

/-- The cache has these entries, and each that was ever stored is one of them, was given up or was
cleared. -/
structure Balanced (cache : OrderCache α) (items : List ((Nat × α) × Linearization α))
    (cleared : Nat) : Prop where
  lists : cache.Lists items
  insertions_eq : cache.stats.insertions = cache.stats.evictions + items.length + cleared

namespace Balanced

variable {items : List ((Nat × α) × Linearization α)} {cleared : Nat}

theorem insert (h : Balanced cache items cleared) (key : Nat × α) (order : Linearization α) :
    ∃ later, Balanced (cache.insert key order) later cleared := by
  by_cases hCapacity : cache.shardCapacity = 0
  · rw [Cache.insert, if_pos hCapacity]
    exact ⟨items, h⟩
  · by_cases hNew : cache.stored? key = none
    · obtain ⟨hLists, hStats⟩ := h.lists.insert hNew hCapacity order
      refine ⟨_, hLists, ?_⟩
      have hBefore := h.insertions_eq
      have hLength := Cache.length_arrive cache.shardOf _ hCapacity key order items
      rw [hStats]
      dsimp only
      omega
    · rw [h.lists.stored?_eq_none_iff, not_not] at hNew
      rw [h.lists.insert_of_stored hNew order]
      exact ⟨items, h⟩

theorem get (h : Balanced cache items cleared) (key : Nat × α) :
    Balanced (cache.get key).2 items cleared := by
  refine ⟨h.lists.get key, ?_⟩
  rw [Cache.get_snd]
  dsimp only
  split <;> exact h.insertions_eq

theorem clear (h : Balanced cache items cleared) :
    Balanced cache.clear [] (cleared + cache.size) := by
  refine ⟨.clear cache, ?_⟩
  have hBefore := h.insertions_eq
  rw [← h.lists.size_eq] at hBefore
  change cache.stats.insertions = cache.stats.evictions + 0 + _
  omega

theorem removeAll (h : Balanced cache items cleared) (matched : Nat × α → Bool) :
    ∃ later, Balanced (cache.removeAll matched) later (cleared + cache.count matched) := by
  refine ⟨_, h.lists.removeAll matched, ?_⟩
  have hBefore := h.insertions_eq
  have hSplit := List.length_eq_countP_add_countP (matched ·.1) (l := items)
  rw [h.lists.count_eq, ← List.countP_eq_length_filter]
  simp only [Bool.not_eq_true, Bool.decide_eq_false] at hSplit
  change cache.stats.insertions = cache.stats.evictions + _ + _
  omega

theorem perform (h : Balanced cache items cleared) (operation : Operation α) :
    ∃ later, Balanced (cache.perform operation) later
      (cleared + cache.cleared (.perform operation)) := by
  cases operation with
  | insert resolver node order => exact h.insert (resolver, node) order
  | get resolver node => exact ⟨items, h.get (resolver, node)⟩
  | clear => exact ⟨[], h.clear⟩
  | clearResolver resolver => exact h.removeAll fun key => key.1 == resolver

theorem performAll {operations : List (Operation α)} (h : Balanced cache items cleared)
    (hOperations : ∀ operation ∈ operations, operation.ByWalk resolver) :
    ∃ later, Balanced (cache.performAll operations) later cleared := by
  induction operations generalizing cache items with
  | nil => exact ⟨items, h⟩
  | cons operation rest ih =>
      obtain ⟨hOperation, hRest⟩ := List.forall_mem_cons.1 hOperations
      cases hOperation with
      | get node => exact ih (h.get (resolver, node)) hRest
      | insert node order =>
          obtain ⟨later, hLater⟩ := h.insert (resolver, node) order
          exact ih hLater hRest

theorem serve (h : Balanced cache items cleared) (request : Request α) :
    ∃ later, Balanced (cache.serve request) later (cleared + cache.cleared request) := by
  cases request with
  | perform operation => exact h.perform operation
  | compute parents resolver limit node =>
      obtain ⟨operations, hOperations, hCompute⟩ :=
        exists_operations parents resolver limit node cache
      obtain ⟨later, hLater⟩ := h.performAll hOperations
      rw [← hCompute] at hLater
      exact ⟨later, hLater⟩

theorem serveAll (h : Balanced cache items cleared) (requests : List (Request α)) :
    ∃ later, Balanced (cache.serveAll requests) later (cleared + cache.clearedAll requests) := by
  induction requests generalizing cache items cleared with
  | nil => exact ⟨items, h⟩
  | cons request rest ih =>
      obtain ⟨later, hLater⟩ := h.serve request
      rw [clearedAll, ← Nat.add_assoc]
      exact ih hLater

end Balanced

theorem shardCapacity_serve (cache : OrderCache α) (request : Request α) :
    (cache.serve request).shardCapacity = cache.shardCapacity := by
  cases request with
  | perform operation => exact shardCapacity_perform cache operation
  | compute parents resolver limit node =>
      obtain ⟨operations, _, hCompute⟩ := exists_operations parents resolver limit node cache
      rw [serve, hCompute, shardCapacity_performAll]

theorem shardCapacity_serveAll (cache : OrderCache α) (requests : List (Request α)) :
    (cache.serveAll requests).shardCapacity = cache.shardCapacity := by
  induction requests generalizing cache with
  | nil => rfl
  | cons request rest ih => exact (ih _).trans (shardCapacity_serve cache request)

/-- Whatever a cache of some capacity is asked for, in each shard the queue has no key twice and the
same keys as the map, and the shard has no more entries than its share of the capacity, rounded up.
So the cache has no more than sixteen shares, and nothing at all if its capacity is zero. As many
entries have been stored as there are, were given up and were cleared. To insert under a new key
gives up one entry at most; and all that a request for a linearization does to the cache is that it
gets and inserts. -/
theorem queues_match_entries (capacity : Nat) (shardOf : Nat × α → Fin 16)
    (requests : List (Request α)) :
    let initial : OrderCache α := Cache.empty capacity shardOf
    let cache := initial.serveAll requests
    (∀ shard ∈ cache.shards, shard.arrivals.Nodup ∧
      (∀ key, key ∈ shard.arrivals ↔ key ∈ shard.entries) ∧
      shard.entries.size ≤ (capacity + 15) / 16) ∧
    cache.size ≤ 16 * ((capacity + 15) / 16) ∧
    (capacity = 0 → cache.size = 0 ∧ ∀ key order, ¬cache.Holds key order) ∧
    cache.stats.insertions =
      cache.stats.evictions + cache.size + initial.clearedAll requests ∧
    (∀ key order, cache.stored? key = none →
      (cache.insert key order).stats.evictions ≤ cache.stats.evictions + 1) ∧
    ∀ parents resolver limit node, ∃ operations : List (Operation α),
      (∀ operation ∈ operations, operation.ByWalk resolver) ∧
        cache.serve (.compute parents resolver limit node) = cache.performAll operations := by
  intro initial cache
  have hRoom : cache.shardCapacity = (capacity + 15) / 16 := shardCapacity_serveAll initial requests
  have hStart : Balanced initial [] 0 := ⟨Cache.lists_empty capacity shardOf, rfl⟩
  obtain ⟨items, hItems⟩ := hStart.serveAll requests
  have hLists : cache.Lists items := hItems.lists
  have hSize := hLists.size_le
  have hBalance := hItems.insertions_eq
  rw [Nat.zero_add, ← hLists.size_eq] at hBalance
  refine ⟨hRoom ▸ hLists.forall_shards, hRoom ▸ hSize, ?_, hBalance,
    fun _ order hNew => hLists.evictions_insert_le hNew order,
    fun parents resolver limit node => exists_operations parents resolver limit node cache⟩
  rintro rfl
  rw [hRoom] at hSize
  exact ⟨Nat.le_zero.1 hSize, hLists.not_holds hRoom⟩

end OrderCache

end Ancestry
