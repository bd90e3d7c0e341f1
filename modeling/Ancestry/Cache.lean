import Ancestry.Walk

/-!
A bounded cache. It is split into shards, each with a fixed share of the capacity; a full shard
gives up the entry it has held longest. The first value stored under a key stays until the entry
is given up or cleared.
-/
namespace Ancestry

/-- One part of a cache: its entries beside the order in which they came. -/
structure Shard (κ β : Type) [DecidableEq κ] [Hashable κ] where
  entries : Std.HashMap κ β
  /-- The keys, the latest first. -/
  arrivals : List κ

namespace Shard

variable {κ β : Type} [DecidableEq κ] [Hashable κ]

def empty : Shard κ β := ⟨∅, []⟩

/-- Gives up the oldest entries until there is room for one more, and counts them. -/
def makeRoom (capacity : Nat) (shard : Shard κ β) : Shard κ β × Nat :=
  if shard.entries.size < capacity then (shard, 0)
  else match _h : shard.arrivals.getLast? with
    | none => (shard, 0)
    | some oldest =>
      let (rest, dropped) :=
        makeRoom capacity ⟨shard.entries.erase oldest, shard.arrivals.dropLast⟩
      (rest, dropped + if oldest ∈ shard.entries then 1 else 0)
termination_by shard.arrivals.length
decreasing_by
  cases hArrivals : shard.arrivals with
  | nil => simp [hArrivals] at _h
  | cons key rest => simp

/-- Stores a value under a new key, in a shard of at most `capacity` entries, and counts the
entries given up for it. -/
def insert (capacity : Nat) (key : κ) (value : β) (shard : Shard κ β) : Shard κ β × Nat :=
  let (roomy, dropped) := shard.makeRoom capacity
  (⟨roomy.entries.insert key value, key :: roomy.arrivals⟩, dropped)

def removeAll (matched : κ → Bool) (shard : Shard κ β) : Shard κ β :=
  ⟨shard.entries.filter fun key _ => !matched key,
    shard.arrivals.filter fun key => !matched key⟩

end Shard

/-- How a cache has been used. -/
structure Cache.Stats where
  hits : Nat := 0
  misses : Nat := 0
  insertions : Nat := 0
  evictions : Nat := 0
deriving DecidableEq

/-- A cache of values of type `β` under keys of type `κ`. -/
structure Cache (κ β : Type) [DecidableEq κ] [Hashable κ] where
  /-- The capacity that was asked for, over all shards. -/
  capacity : Nat
  /-- The shard that may hold a key. -/
  shardOf : κ → Fin 16
  shards : Vector (Shard κ β) 16
  stats : Cache.Stats := {}

namespace Cache

variable {κ β : Type} [DecidableEq κ] [Hashable κ]

def shardCount : Nat := 16

def defaultCapacity : Nat := 65536

def empty (capacity : Nat) (shardOf : κ → Fin 16) : Cache κ β where
  capacity := capacity
  shardOf := shardOf
  shards := Vector.replicate 16 Shard.empty

/-- The capacity of each shard: an equal share, rounded up. -/
def shardCapacity (cache : Cache κ β) : Nat := (cache.capacity + (shardCount - 1)) / shardCount

def shard (cache : Cache κ β) (key : κ) : Shard κ β := cache.shards[cache.shardOf key]

def size (cache : Cache κ β) : Nat :=
  cache.shards.toList.foldr (fun shard total => shard.entries.size + total) 0

def isEmpty (cache : Cache κ β) : Bool := cache.size == 0

/-- The value under a key; counts a hit or a miss. -/
def get (key : κ) (cache : Cache κ β) : Option β × Cache κ β :=
  match (cache.shard key).entries[key]? with
  | some value =>
    (some value, { cache with stats := { cache.stats with hits := cache.stats.hits + 1 } })
  | none =>
    (none, { cache with stats := { cache.stats with misses := cache.stats.misses + 1 } })

/-- Stores a value unless the key has one already or the cache has no capacity at all. -/
def insert (key : κ) (value : β) (cache : Cache κ β) : Cache κ β :=
  if cache.shardCapacity = 0 then cache
  else if key ∈ (cache.shard key).entries then cache
  else
    let (shard, dropped) := (cache.shard key).insert cache.shardCapacity key value
    { cache with
      shards := cache.shards.set (cache.shardOf key) shard
      stats := { cache.stats with
        insertions := cache.stats.insertions + 1
        evictions := cache.stats.evictions + dropped } }

/-- Removes every entry. The counters stay. -/
def clear (cache : Cache κ β) : Cache κ β :=
  { cache with shards := Vector.replicate 16 Shard.empty }

/-- Removes the entries whose keys are matched. The counters stay. -/
def removeAll (matched : κ → Bool) (cache : Cache κ β) : Cache κ β :=
  { cache with shards := cache.shards.map (Shard.removeAll matched) }

end Cache

/-- A cache for the linearizations of the nodes of several resolvers. A key is the number of the
resolver with the node. -/
abbrev OrderCache (α : Type) [DecidableEq α] [Hashable α] := Cache (Nat × α) (Linearization α)

namespace OrderCache

variable {α : Type} [DecidableEq α] [Hashable α]

def clearResolver (resolver : Nat) (cache : OrderCache α) : OrderCache α :=
  cache.removeAll fun key => key.1 == resolver

/-- The cache as a store for the walks of one resolver. -/
def storeFor (resolver : Nat) (α : Type) [DecidableEq α] [Hashable α] :
    Store (OrderCache α) α where
  find := fun node cache => cache.get (resolver, node)
  keep := fun node order cache => cache.insert (resolver, node) order

/-- The linearization of a node, from the cache or by a walk that reads from the cache and adds
what it finds out. -/
def getOrLinearize (parents : α → List α) (resolver limit : Nat) (node : α)
    (cache : OrderCache α) : Except (Failure α) (Linearization α) × OrderCache α :=
  let outcome := Walk.Setting.linearize ⟨parents, limit, storeFor resolver α⟩ node ∅ cache
  (outcome.result, outcome.store)

end OrderCache

end Ancestry
