import Ancestry.Cache

/-!
Sessions. A session works for several resolvers, which are known by their numbers. It has
linearizers, each of which remembers what its runs find out, and caches, which linearizers and other
requests share. The order in which the requests come decides which linearizations are at hand when a
walk starts.
-/
namespace Ancestry

variable {α : Type} [DecidableEq α] [Hashable α]

/-- A linearizer of one resolver. -/
structure Linearizer (α : Type) [DecidableEq α] [Hashable α] where
  resolver : Nat
  limit : Nat
  /-- The number of the cache that its runs read from and add to, if they use one. -/
  cache? : Option Nat
  /-- What its runs have found out. -/
  memo : Memo α

/-- A cache with the limit of the walks that are started for want of an entry. -/
structure SharedCache (α : Type) [DecidableEq α] [Hashable α] where
  orders : OrderCache α
  limit : Nat

/-- What a run of a linearizer leads to. -/
structure Linearizer.Outcome (α : Type) [DecidableEq α] [Hashable α] where
  result : Except (Failure α) (Linearization α)
  memo : Memo α
  /-- The entries of the cache, if the linearizer uses one. -/
  orders? : Option (OrderCache α)

/-- What a run of the linearizer for a node leads to, given the direct parents under its resolver
and the entries of the cache that it uses. -/
def Linearizer.outcome (parents : α → List α) (linearizer : Linearizer α)
    (orders? : Option (OrderCache α)) (node : α) : Outcome α :=
  match orders? with
  | none =>
    let done := Walk.Setting.linearize ⟨parents, linearizer.limit, Store.absent α⟩ node
      linearizer.memo ()
    ⟨done.result, done.memo, none⟩
  | some orders =>
    let done := Walk.Setting.linearize
      ⟨parents, linearizer.limit, OrderCache.storeFor linearizer.resolver α⟩ node
      linearizer.memo orders
    ⟨done.result, done.memo, some done.store⟩

/-- What was answered when the linearization of a resolver's node was asked for. -/
structure Answered (α : Type) where
  resolver : Nat
  node : α
  result : Except (Failure α) (Linearization α)

structure Session (α : Type) [DecidableEq α] [Hashable α] where
  linearizers : Array (Linearizer α)
  caches : Array (SharedCache α)
  /-- All answers, the latest first. -/
  answers : List (Answered α)

/-- What a session can be asked for. Linearizers and caches are known by the numbers of their
places, in the order in which they were made. -/
inductive Request (α : Type) where
  /-- A linearization with nothing known beforehand. -/
  | linearize (resolver : Nat) (node : α) (limit : Nat)
  | newLinearizer (resolver limit : Nat) (cache? : Option Nat)
  /-- Another limit and another cache for a linearizer, which goes on with what it has found out. -/
  | reconfigure (linearizer limit : Nat) (cache? : Option Nat)
  /-- A linearization by a linearizer. -/
  | run (linearizer : Nat) (node : α)
  | newCache (capacity limit : Nat) (shardOf : Nat × α → Fin 16)
  /-- A linearization from a cache or, failing that, by a walk that reads from it and adds to it. -/
  | compute (cache resolver : Nat) (node : α)
  /-- A linearization from a cache, if it has one. -/
  | get (cache resolver : Nat) (node : α)
  | insert (cache resolver : Nat) (node : α) (order : Linearization α)
  | clear (cache : Nat)
  | clearResolver (cache resolver : Nat)

namespace Session

/-- The first cache is there from the beginning. It serves all requests that name no other. -/
def start (shardOf : Nat × α → Fin 16) : Session α where
  linearizers := #[]
  caches := #[⟨Cache.empty Cache.defaultCapacity shardOf, defaultLimit⟩]
  answers := []

def answer (session : Session α) (resolver : Nat) (node : α)
    (result : Except (Failure α) (Linearization α)) : Session α :=
  { session with answers := ⟨resolver, node, result⟩ :: session.answers }

/-- Changes the entries of a cache. -/
def updateOrders (session : Session α) (cache : Nat) (update : OrderCache α → OrderCache α) :
    Session α :=
  { session with caches :=
      session.caches.modify cache fun old => { old with orders := update old.orders } }

theorem caches_updateOrders (session : Session α) (cache : Nat)
    (update : OrderCache α → OrderCache α) :
    (session.updateOrders cache update).caches =
      session.caches.modify cache fun old => { old with orders := update old.orders } := rfl

def updateLinearizer (session : Session α) (linearizer : Nat)
    (update : Linearizer α → Linearizer α) : Session α :=
  { session with linearizers := session.linearizers.modify linearizer update }

/-- The entries of the cache with the given number. -/
def orders? (session : Session α) (cache : Nat) : Option (OrderCache α) :=
  session.caches[cache]?.map (·.orders)

/-- Runs a linearizer. -/
def run (parents : Nat → α → List α) (session : Session α) (index : Nat) (node : α) : Session α :=
  match session.linearizers[index]? with
  | none => session
  | some linearizer =>
    let outcome := linearizer.outcome (parents linearizer.resolver)
      (linearizer.cache?.bind session.orders?) node
    let remembered := session.updateLinearizer index fun old => { old with memo := outcome.memo }
    let shared := match linearizer.cache?, outcome.orders? with
      | some cache, some orders => remembered.updateOrders cache fun _ => orders
      | _, _ => remembered
    shared.answer linearizer.resolver node outcome.result

/-- Asks a cache for a linearization that it is to find out if it has none. -/
def compute (parents : Nat → α → List α) (session : Session α) (cache resolver : Nat) (node : α) :
    Session α :=
  match session.caches[cache]? with
  | none => session
  | some shared =>
    let (result, orders) :=
      OrderCache.getOrLinearize (parents resolver) resolver shared.limit node shared.orders
    (session.updateOrders cache fun _ => orders).answer resolver node result

/-- Asks a cache for a linearization. To find none is no answer. -/
def get (session : Session α) (cache resolver : Nat) (node : α) : Session α :=
  match session.orders? cache with
  | none => session
  | some orders =>
    let (found?, orders) := orders.get (resolver, node)
    let counted := session.updateOrders cache fun _ => orders
    match found? with
    | none => counted
    | some order => counted.answer resolver node (.ok order)

/-- The session after a request, where `parents` gives the direct parents under each resolver. A
request that names a linearizer or a cache that does not exist changes nothing. -/
def respond (parents : Nat → α → List α) (session : Session α) : Request α → Session α
  | .linearize resolver node limit =>
    session.answer resolver node (linearize (parents resolver) node limit)
  | .newLinearizer resolver limit cache? =>
    { session with linearizers := session.linearizers.push ⟨resolver, limit, cache?, ∅⟩ }
  | .reconfigure linearizer limit cache? =>
    session.updateLinearizer linearizer fun old => { old with limit, cache? }
  | .run linearizer node => session.run parents linearizer node
  | .newCache capacity limit shardOf =>
    { session with caches := session.caches.push ⟨Cache.empty capacity shardOf, limit⟩ }
  | .compute cache resolver node => session.compute parents cache resolver node
  | .get cache resolver node => session.get cache resolver node
  | .insert cache resolver node order =>
    session.updateOrders cache fun orders => orders.insert (resolver, node) order
  | .clear cache => session.updateOrders cache Cache.clear
  | .clearResolver cache resolver => session.updateOrders cache (OrderCache.clearResolver resolver)

end Session

end Ancestry
