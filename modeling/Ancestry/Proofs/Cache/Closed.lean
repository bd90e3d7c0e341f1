import Ancestry.Proofs.Cache.Entries
import Ancestry.Proofs.Walk.Uses

/-! What a walk publishes in a cache while no entry is given up. A walk comes to know a node only
together with all its parents, and what it knows it has read from the cache or put there. So a cache
that has the parents of each node that it has is left as such by every walk, however the walk ends.
Main statement: `Walk.Setting.publishes_linearize`. -/
namespace Ancestry

namespace Cache

variable {κ β : Type} [DecidableEq κ] [Hashable κ] {cache : Cache κ β} {items : List (κ × β)}
  {key : κ} {value : β}

theorem evictions_get (key : κ) (cache : Cache κ β) :
    (cache.get key).2.stats.evictions = cache.stats.evictions := by
  rw [get]
  split <;> rfl

theorem evictions_le_insert (key : κ) (value : β) (cache : Cache κ β) :
    cache.stats.evictions ≤ (cache.insert key value).stats.evictions := by
  rw [insert]
  split
  · exact Nat.le_refl _
  · split
    · exact Nat.le_refl _
    · exact Nat.le_add_right _ _

/-- An insertion for which nothing is given up adds an entry where there is none. -/
theorem Lists.stored?_insert_of_evictions (h : cache.Lists items)
    (hCapacity : cache.shardCapacity ≠ 0)
    (hSame : (cache.insert key value).stats.evictions = cache.stats.evictions) (other : κ) :
    (cache.insert key value).stored? other =
      (cache.stored? other).or (if key = other then some value else none) := by
  by_cases hNew : cache.stored? key = none
  · have hRoom : (cache.shard key).entries.size < cache.shardCapacity := by
      rw [(h.insert hNew hCapacity value).2] at hSame
      rw [shard, h.size_shard]
      by_contra hFull
      rw [if_neg hFull] at hSame
      exact absurd hSame (Nat.succ_ne_self _)
    rw [stored?_insert value other hNew hRoom]
    split
    · rename_i hKey
      rw [← hKey, hNew, Option.none_or]
    · rw [Option.or_none]
  · have hOld := hNew
    rw [h.stored?_eq_none_iff, not_not] at hOld
    rw [h.insert_of_stored hOld value]
    split
    · rename_i hKey
      obtain ⟨found, hFound⟩ := Option.ne_none_iff_exists'.1 hNew
      rw [← hKey, hFound, Option.some_or]
    · rw [Option.or_none]

end Cache

namespace OrderCache

variable {α : Type} [DecidableEq α] [Hashable α] {resolver limit : Nat} {kept : α → Prop}
  {parents : α → List α} {first last cache : OrderCache α} {node : α}

/-- The cache has room for entries, and there is a list of those that it has. -/
def Listed (cache : OrderCache α) : Prop := cache.shardCapacity ≠ 0 ∧ ∃ items, cache.Lists items

/-- The second cache has come from the first one by nothing but the additions of a resolver. -/
structure Extends (resolver : Nat) (kept : α → Prop) (first last : OrderCache α) : Prop where
  old : ∀ key order, first.stored? key = some order → last.stored? key = some order
  added : ∀ key order, last.stored? key = some order →
    first.stored? key = some order ∨ key.1 = resolver ∧ kept key.2

theorem Listed.get (h : cache.Listed) (key : Nat × α) : Listed (cache.get key).2 := by
  obtain ⟨hRoom, items, hItems⟩ := h
  exact ⟨by rwa [Cache.shardCapacity_get], items, hItems.get key⟩

theorem Listed.insert (h : cache.Listed) (key : Nat × α) (order : Linearization α) :
    Listed (cache.insert key order) := by
  obtain ⟨hRoom, items, hItems⟩ := h
  by_cases hNew : cache.stored? key = none
  · exact ⟨by rwa [Cache.shardCapacity_insert], _, (hItems.insert hNew hRoom order).1⟩
  · rw [hItems.stored?_eq_none_iff, not_not] at hNew
    rw [hItems.insert_of_stored hNew order]
    exact ⟨hRoom, items, hItems⟩

theorem Listed.of_uses (h : first.Listed) (hUses : (storeFor resolver α).Uses kept first last) :
    last.Listed := by
  induction hUses with
  | refl => exact h
  | find _ node ih => exact ih.get (resolver, node)
  | @keep _ _ node _ order ih => exact ih.insert (resolver, node) order

theorem keep_storeFor (order : Linearization α) :
    (storeFor resolver α).keep node order cache = cache.insert (resolver, node) order := rfl

theorem uses_insert (resolver : Nat) (node : α) (order : Linearization α) (cache : OrderCache α) :
    (storeFor resolver α).Uses (· = node) cache (cache.insert (resolver, node) order) := by
  refine Store.Uses.keep .refl ?_ order
  rfl

theorem evictions_le_of_uses (h : (storeFor resolver α).Uses kept first last) :
    first.stats.evictions ≤ last.stats.evictions := by
  induction h with
  | refl => exact Nat.le_refl _
  | find _ node ih => exact ih.trans_eq (Cache.evictions_get _ _).symm
  | keep _ _ order ih => exact ih.trans (Cache.evictions_le_insert _ order _)

/-- Where nothing is given up, the uses of a cache only add to it. -/
theorem Listed.extends_of_uses (h : first.Listed)
    (hUses : (storeFor resolver α).Uses kept first last)
    (hSame : last.stats.evictions = first.stats.evictions) :
    Extends resolver kept first last := by
  induction hUses with
  | refl => exact ⟨fun _ _ hStored => hStored, fun _ _ hStored => .inl hStored⟩
  | @find stored hBefore node ih =>
      have hStored : stored.stats.evictions = first.stats.evictions :=
        (Cache.evictions_get _ _).symm.trans hSame
      obtain ⟨hOld, hAdded⟩ := ih hStored
      constructor <;> intro key order <;> rw [storeFor, Cache.stored?_get]
      · exact hOld key order
      · exact hAdded key order
  | @keep stored hBefore node hNode value ih =>
      have hLess := evictions_le_of_uses hBefore
      have hMore := Cache.evictions_le_insert (resolver, node) value stored
      have hStored : stored.stats.evictions = first.stats.evictions :=
        Nat.le_antisymm (hMore.trans_eq hSame) hLess
      obtain ⟨hOld, hAdded⟩ := ih hStored
      obtain ⟨hRoom, items, hItems⟩ := h.of_uses hBefore
      have hInsert := hItems.stored?_insert_of_evictions hRoom (hSame.trans hStored.symm)
      constructor <;> intro key order <;> rw [keep_storeFor, hInsert]
      · intro hFirst
        rw [hOld key order hFirst, Option.some_or]
      · intro hLast
        rcases Option.or_eq_some_iff.1 hLast with hFound | ⟨_, hNew⟩
        · exact hAdded key order hFound
        · split at hNew
          · rename_i hKey
            exact .inr (hKey ▸ ⟨rfl, hNode⟩)
          · cases hNew

/-- The cache has a linearization of the node. -/
def Has (resolver : Nat) (node : α) (cache : OrderCache α) : Prop :=
  ∃ order, cache.stored? (resolver, node) = some order

/-- The cache has the parents of each node that it has. -/
def Closed (parents : α → List α) (resolver : Nat) (cache : OrderCache α) : Prop :=
  ∀ node, Has resolver node cache → ∀ parent ∈ parents node, Has resolver parent cache

theorem Closed.has_of_reaches (h : Closed parents resolver cache) (hNode : Has resolver node cache)
    {ancestor : α} (hReach : Reaches parents node ancestor) : Has resolver ancestor cache := by
  induction hReach with
  | refl => exact hNode
  | tail _ hParent ih => exact h _ ih _ hParent

theorem Extends.has {other : Nat} (h : Extends resolver kept first last)
    (hNode : Has other node first) : Has other node last := by
  obtain ⟨order, hOrder⟩ := hNode
  exact ⟨order, h.old _ order hOrder⟩

section

variable {memo known : Memo α} {found? : Option (Linearization α)} {left : OrderCache α}

/-- What holds of a memo and the cache of a walk while no entry is given up: nothing is known that
is not in the cache, which has the parents of each node that it has. -/
structure Publishes (parents : α → List α) (resolver : Nat) (memo : Memo α)
    (cache : OrderCache α) : Prop where
  listed : cache.Listed
  known : ∀ node ∈ memo, Has resolver node cache
  closed : Closed parents resolver cache

theorem evictions_eq_of_lookup
    (h : Walk.lookup (storeFor resolver α) node memo cache = (found?, known, left)) :
    left.stats.evictions = cache.stats.evictions := by
  unfold Walk.lookup at h
  split at h
  · cases h
    rfl
  · have hSame := Cache.evictions_get (resolver, node) cache
    split at h <;> rename_i hFind <;> cases h <;> rwa [show cache.get _ = _ from hFind] at hSame

/-- A look-up changes no entry, and what it finds is in the cache. -/
theorem Publishes.lookup (h : Publishes parents resolver memo cache)
    (hLookup : Walk.lookup (storeFor resolver α) node memo cache = (found?, known, left)) :
    Publishes parents resolver known left := by
  cases hKnown : memo[node]? with
  | some found =>
      rw [Walk.lookup_of_known hKnown] at hLookup
      cases hLookup
      exact h
  | none =>
      have hSame (other : α) : Has resolver other (cache.get (resolver, node)).2 ↔
          Has resolver other cache := by
        simp only [Has, Cache.stored?_get]
      have hClosed : Closed parents resolver (cache.get (resolver, node)).2 :=
        fun other hOther parent hParent =>
          (hSame parent).2 (h.closed other ((hSame other).1 hOther) parent hParent)
      have hListed : Listed (cache.get (resolver, node)).2 := h.listed.get (resolver, node)
      cases hStored : cache.stored? (resolver, node) with
      | none =>
          rw [lookup_of_no_entry hKnown hStored] at hLookup
          cases hLookup
          exact ⟨hListed, fun other hOther => (hSame other).2 (h.known other hOther), hClosed⟩
      | some found =>
          rw [lookup_of_stored? hKnown hStored] at hLookup
          cases hLookup
          refine ⟨hListed, fun other hOther => (hSame other).2 ?_, hClosed⟩
          rcases Std.HashMap.mem_insert.1 hOther with hNode | hOther
          · obtain rfl : node = other := beq_iff_eq.1 hNode
            exact ⟨found, hStored⟩
          · exact h.known other hOther

/-- A node whose parents are all known may be kept. -/
theorem Publishes.keep {order : Linearization α} (h : Publishes parents resolver memo cache)
    (hParents : ∀ parent ∈ parents node, parent ∈ memo)
    (hSame : (cache.insert (resolver, node) order).stats.evictions = cache.stats.evictions) :
    Publishes parents resolver (memo.insert node order) (cache.insert (resolver, node) order) := by
  have hExtends := h.listed.extends_of_uses (uses_insert resolver node order cache) hSame
  obtain ⟨hRoom, _⟩ := h.listed
  have hNode : Has resolver node (cache.insert (resolver, node) order) :=
    Cache.stored?_insert_self hRoom
  refine ⟨h.listed.insert _ order, fun other hOther => ?_, fun other hOther parent hParent => ?_⟩
  · rcases Std.HashMap.mem_insert.1 hOther with hSelf | hOther
    · obtain rfl : node = other := beq_iff_eq.1 hSelf
      exact hNode
    · exact hExtends.has (h.known other hOther)
  · obtain ⟨found, hFound⟩ := hOther
    rcases hExtends.added _ _ hFound with hOld | ⟨_, hSelf⟩
    · exact hExtends.has (h.closed other ⟨found, hOld⟩ parent hParent)
    · obtain rfl : other = node := hSelf
      exact hExtends.has (h.known parent (hParents parent hParent))

end

end OrderCache

namespace Walk

open OrderCache (Has Closed Listed Publishes storeFor)

variable {α : Type} [DecidableEq α] [Hashable α] {parents : α → List α} {resolver limit : Nat}
  {requested : α} {state : State (OrderCache α) α} {progress : Progress (OrderCache α) α}

/-- What holds after a walk for which no entry is given up: a requested node that got its
linearization is known, and so are the parents of a node at which the walk met a conflict. -/
structure Outcome.Publishes (parents : α → List α) (resolver : Nat) (requested : α)
    (outcome : Outcome (OrderCache α) α) : Prop where
  publishes : OrderCache.Publishes parents resolver outcome.memo outcome.store
  of_ok : ∀ order, outcome.result = .ok order → requested ∈ outcome.memo
  of_conflict : ∀ conflict, outcome.result = .error (.inconsistent conflict) →
    ∀ parent ∈ parents conflict.node, parent ∈ outcome.memo

/-- What holds after one more step for which no entry is given up. -/
inductive Progress.Publishes (parents : α → List α) (resolver : Nat) (requested : α) :
    Progress (OrderCache α) α → Prop where
  | running {state : State (OrderCache α) α}
      (h : OrderCache.Publishes parents resolver state.memo state.store) :
      Progress.Publishes parents resolver requested (.running state)
  | finished {outcome : Outcome (OrderCache α) α}
      (h : outcome.Publishes parents resolver requested) :
      Progress.Publishes parents resolver requested (.finished outcome)

theorem node_of_merge_eq_error {setting : Setting (OrderCache α) α}
    {frame : Frame α} {memo : Memo α} {conflict : Conflict α}
    (h : setting.merge frame memo = .error conflict) : conflict.node = frame.node := by
  rw [Setting.merge, merge] at h
  split at h <;> cases h
  rfl

theorem Advances.publishes
    (h : Advances ⟨parents, limit, storeFor resolver α⟩ requested state progress)
    (hOrder : state.InOrder ⟨parents, limit, storeFor resolver α⟩ requested)
    (hState : Publishes parents resolver state.memo state.store)
    (hSame : progress.store.stats.evictions = state.store.stats.evictions) :
    progress.Publishes parents resolver requested := by
  have hParents (hPending : state.stack.top.pending = []) :
      ∀ parent ∈ parents state.stack.top.node, parent ∈ state.memo := by
    have hKnown := hOrder.forall_parents_mem hPending
    rwa [hOrder.parents_eq] at hKnown
  cases h with
  | passes _ hLookup => exact .running (hState.lookup hLookup)
  | enters _ hLookup => exact .running (hState.lookup hLookup)
  | stops _ hLookup => exact .finished ⟨hState.lookup hLookup, nofun, nofun⟩
  | clashes hPending hMerge =>
      refine .finished ⟨hState, nofun, ?_⟩
      rintro _ ⟨⟩
      rw [node_of_merge_eq_error hMerge]
      exact hParents hPending
  | returns hPending => exact .running (hState.keep (hParents hPending) hSame)
  | ends hPending _ hPop =>
      refine .finished ⟨hState.keep (hParents hPending) hSame, fun _ _ => ?_, nofun⟩
      rw [← hOrder.waits.eq_requested hPop]
      exact Std.HashMap.mem_insert_self

theorem State.InOrder.publishes_run
    (h : state.InOrder ⟨parents, limit, storeFor resolver α⟩ requested)
    (hState : Publishes parents resolver state.memo state.store)
    (hSame : (run ⟨parents, limit, storeFor resolver α⟩ requested state).store.stats.evictions =
      state.store.stats.evictions) :
    (run ⟨parents, limit, storeFor resolver α⟩ requested state).Publishes parents resolver
      requested := by
  induction State.accessible ⟨parents, limit, storeFor resolver α⟩ requested state with
  | intro state _ ih =>
      have hAdvances := advances_step ⟨parents, limit, storeFor resolver α⟩ requested state
      have hStep := hAdvances.uses .refl h.top_mem
      have hLess := OrderCache.evictions_le_of_uses hStep
      cases hNext : step ⟨parents, limit, storeFor resolver α⟩ requested state with
      | running next =>
          rw [hNext] at hAdvances hLess
          rw [run_of_running hNext] at hSame ⊢
          have hInOrder := h.of_follows hNext
          -- The counter never falls, so that it is the same in between.
          have hMore := OrderCache.evictions_le_of_uses (hInOrder.uses_run .refl)
          have hEqual : next.store.stats.evictions = state.store.stats.evictions :=
            Nat.le_antisymm (hMore.trans_eq hSame) hLess
          cases hAdvances.publishes h hState hEqual with
          | running hPublishes => exact ih next hNext hInOrder hPublishes (hSame.trans hEqual.symm)
      | finished outcome =>
          rw [hNext] at hAdvances
          rw [run_of_finished hNext] at hSame ⊢
          cases hAdvances.publishes h hState hSame with
          | finished hPublishes => exact hPublishes

/-- Where no entry is given up, the cache is closed after a walk if it was closed before. -/
theorem Setting.publishes_linearize {memo : Memo α} {cache : OrderCache α}
    (h : Publishes parents resolver memo cache) (node : α)
    (hSame : (Setting.linearize ⟨parents, limit, storeFor resolver α⟩ node memo
      cache).store.stats.evictions = cache.stats.evictions) :
    (Setting.linearize ⟨parents, limit, storeFor resolver α⟩ node memo cache).Publishes parents
      resolver node := by
  rw [Setting.linearize] at hSame ⊢
  cases hLookup : lookup (storeFor resolver α) node memo cache with
  | mk found? rest =>
      obtain ⟨known, left⟩ := rest
      have hPublishes := h.lookup hLookup
      cases found? with
      | some found =>
          refine ⟨hPublishes, fun _ _ => (mem_of_lookup hLookup).2 rfl, fun _ hError => ?_⟩
          cases hError
      | none =>
          have hEnter := State.InOrder.enter ⟨parents, limit, storeFor resolver α⟩ node known left
          rw [hLookup] at hSame
          exact hEnter.publishes_run hPublishes
            (hSame.trans (OrderCache.evictions_eq_of_lookup hLookup).symm)

end Walk

end Ancestry
