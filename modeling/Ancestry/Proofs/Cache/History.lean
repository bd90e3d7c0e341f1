import Ancestry.Proofs.Cache.Entries

/-! What a cache holds, told by its history. Each entry goes back to the operation that stored it,
at a time at which its key had no entry, and no operation has removed it since. The entries are
listed in the order of these times (`OrderCache.Dated`). Main statement: a cache is a map in which
the first value stays, and a full shard gives up the entry that has been stored longest
(`OrderCache.first_in_first_out`). -/
namespace Ancestry.OrderCache

variable {α : Type} [DecidableEq α] [Hashable α]

/-- What may be done to a cache. -/
inductive Operation (α : Type) where
  | insert (resolver : Nat) (node : α) (order : Linearization α)
  | get (resolver : Nat) (node : α)
  | clear
  | clearResolver (resolver : Nat)

def perform (cache : OrderCache α) : Operation α → OrderCache α
  | .insert resolver node order => cache.insert (resolver, node) order
  | .get resolver node => (cache.get (resolver, node)).2
  | .clear => cache.clear
  | .clearResolver resolver => cache.clearResolver resolver

/-- The cache after some operations, the first of which comes first. -/
def performAll (cache : OrderCache α) (operations : List (Operation α)) : OrderCache α :=
  operations.foldl perform cache

theorem performAll_append (cache : OrderCache α) (earlier later : List (Operation α)) :
    cache.performAll (earlier ++ later) = (cache.performAll earlier).performAll later :=
  List.foldl_append

theorem performAll_concat (cache : OrderCache α) (operations : List (Operation α))
    (operation : Operation α) :
    cache.performAll (operations ++ [operation]) =
      (cache.performAll operations).perform operation :=
  performAll_append cache operations [operation]

/-- The operation with the number `time` stored the linearization under the key, which had none
before, and the key has had an entry ever since. -/
structure StoredSince (initial : OrderCache α) (operations : List (Operation α)) (time : Nat)
    (key : Nat × α) (order : Linearization α) : Prop where
  inserted : operations[time]? = some (.insert key.1 key.2 order)
  new : (initial.performAll (operations.take time)).stored? key = none
  kept : ∀ later, time < later → later ≤ operations.length →
    (initial.performAll (operations.take later)).stored? key ≠ none

variable {initial : OrderCache α} {operations : List (Operation α)} {time : Nat} {key : Nat × α}
  {order : Linearization α}

namespace StoredSince

theorem time_lt (h : StoredSince initial operations time key order) : time < operations.length :=
  (List.getElem?_eq_some_iff.1 h.inserted).1

theorem stored (h : StoredSince initial operations time key order) :
    (initial.performAll operations).stored? key ≠ none := by
  have hNow := h.kept operations.length h.time_lt (Nat.le_refl _)
  rwa [List.take_length] at hNow

/-- A key goes back to one operation only. -/
theorem unique {other : Nat} {found : Linearization α}
    (h : StoredSince initial operations time key order)
    (hOther : StoredSince initial operations other key found) : time = other ∧ order = found := by
  have hTime : time = other := by
    rcases Nat.lt_trichotomy time other with hLess | hSame | hMore
    · exact absurd hOther.new (h.kept other hLess hOther.time_lt.le)
    · exact hSame
    · exact absurd h.new (hOther.kept time hMore h.time_lt.le)
  subst hTime
  have hSame := h.inserted.symm.trans hOther.inserted
  injection hSame with hSame
  injection hSame with _ _ hOrder
  exact ⟨rfl, hOrder⟩

end StoredSince

/-- After one more operation, the entries that are still there go back to the same operations as
before, and there may be one that the operation has stored. -/
theorem storedSince_append_iff (operation : Operation α) :
    StoredSince initial (operations ++ [operation]) time key order ↔
      (initial.performAll (operations ++ [operation])).stored? key ≠ none ∧
        (StoredSince initial operations time key order ∨
          time = operations.length ∧ operation = .insert key.1 key.2 order ∧
            (initial.performAll operations).stored? key = none) := by
  constructor
  · intro h
    refine ⟨h.stored, ?_⟩
    have hTime := h.time_lt
    rw [List.length_append, List.length_singleton, Nat.lt_succ_iff_lt_or_eq] at hTime
    rcases hTime with hEarlier | rfl
    · refine .inl ⟨?_, ?_, fun later hLater hWithin => ?_⟩
      · rw [← List.getElem?_append_left hEarlier]
        exact h.inserted
      · rw [← List.take_append_of_le_length hEarlier.le]
        exact h.new
      · rw [← List.take_append_of_le_length hWithin]
        exact h.kept later hLater (hWithin.trans (by simp))
    · refine .inr ⟨rfl, ?_, ?_⟩
      · have hInserted := h.inserted
        rw [List.getElem?_concat_length] at hInserted
        exact Option.some.inj hInserted
      · have hNew := h.new
        rwa [List.take_left] at hNew
  · rintro ⟨hStored, hOld | ⟨rfl, rfl, hNew⟩⟩
    · have hTime := hOld.time_lt
      refine ⟨?_, ?_, fun later hLater hWithin => ?_⟩
      · rw [List.getElem?_append_left hTime]
        exact hOld.inserted
      · rw [List.take_append_of_le_length hTime.le]
        exact hOld.new
      · rw [List.length_append, List.length_singleton, Nat.le_succ_iff] at hWithin
        rcases hWithin with hWithin | rfl
        · rw [List.take_append_of_le_length hWithin]
          exact hOld.kept later hLater hWithin
        · rwa [List.take_of_length_le (by simp)]
    · refine ⟨List.getElem?_concat_length, ?_, fun later hLater hWithin => ?_⟩
      · rwa [List.take_left]
      · rwa [List.take_of_length_le (by simpa [Nat.succ_le_iff] using hLater)]

/-- The entries of a cache after some operations, each with the number of the operation that stored
it. The oldest entry comes first. -/
structure Dated (initial : OrderCache α) (operations : List (Operation α))
    (dated : List (Nat × (Nat × α) × Linearization α)) : Prop where
  lists : (initial.performAll operations).Lists (dated.map Prod.snd)
  ordered : dated.Pairwise fun first second => first.1 < second.1
  mem_iff : ∀ time key order, (time, key, order) ∈ dated ↔
    StoredSince initial operations time key order

theorem shardOf_perform (cache : OrderCache α) (operation : Operation α) :
    (cache.perform operation).shardOf = cache.shardOf := by
  cases operation with
  | insert resolver node order => exact Cache.shardOf_insert _ order cache
  | get resolver node => exact Cache.shardOf_get _ cache
  | clear => rfl
  | clearResolver resolver => rfl

theorem shardCapacity_perform (cache : OrderCache α) (operation : Operation α) :
    (cache.perform operation).shardCapacity = cache.shardCapacity := by
  cases operation with
  | insert resolver node order => exact Cache.shardCapacity_insert _ order cache
  | get resolver node => exact Cache.shardCapacity_get _ cache
  | clear => rfl
  | clearResolver resolver => rfl

theorem shardOf_performAll (cache : OrderCache α) (operations : List (Operation α)) :
    (cache.performAll operations).shardOf = cache.shardOf := by
  induction operations generalizing cache with
  | nil => rfl
  | cons operation rest ih => exact (ih _).trans (shardOf_perform cache operation)

theorem shardCapacity_performAll (cache : OrderCache α) (operations : List (Operation α)) :
    (cache.performAll operations).shardCapacity = cache.shardCapacity := by
  induction operations generalizing cache with
  | nil => rfl
  | cons operation rest ih => exact (ih _).trans (shardCapacity_perform cache operation)

namespace Dated

variable {dated kept : List (Nat × (Nat × α) × Linearization α)} {operation : Operation α}

theorem stored?_eq_some_iff (h : Dated initial operations dated) :
    (initial.performAll operations).stored? key = some order ↔
      ∃ time, StoredSince initial operations time key order := by
  rw [h.lists.stored?_eq_some_iff, List.mem_map]
  constructor
  · rintro ⟨⟨time, entry⟩, hEntry, hSame⟩
    obtain rfl : entry = (key, order) := hSame
    exact ⟨time, (h.mem_iff time key order).1 hEntry⟩
  · rintro ⟨time, hSince⟩
    exact ⟨(time, key, order), (h.mem_iff time key order).2 hSince, rfl⟩

/-- A value that stays is not changed. -/
theorem stored?_append (h : Dated initial (operations ++ [operation]) dated)
    (hSince : StoredSince initial operations time key order)
    (hStays : (initial.performAll (operations ++ [operation])).stored? key ≠ none) :
    (initial.performAll (operations ++ [operation])).stored? key = some order :=
  h.stored?_eq_some_iff.2 ⟨time, (storedSince_append_iff operation).2 ⟨hStays, .inl hSince⟩⟩

/-- What is left of the list that has just the entries of the cache. -/
theorem mem_kept_iff (h : Dated initial operations dated) (hKept : kept.Sublist dated)
    (hOld : ∀ key order, (initial.performAll operations).stored? key ≠ none →
      ((initial.performAll (operations ++ [operation])).stored? key = some order ↔
        (key, order) ∈ kept.map Prod.snd)) (time : Nat) (key : Nat × α) (order : Linearization α) :
    (time, key, order) ∈ kept ↔
      (initial.performAll (operations ++ [operation])).stored? key ≠ none ∧
        StoredSince initial operations time key order := by
  constructor
  · intro hEntry
    have hSince := (h.mem_iff time key order).1 (hKept.subset hEntry)
    have hStored := (hOld key order hSince.stored).2 (List.mem_map_of_mem hEntry)
    exact ⟨by simp [hStored], hSince⟩
  · rintro ⟨hStored, hSince⟩
    obtain ⟨found, hFound⟩ := Option.ne_none_iff_exists'.1 hStored
    obtain ⟨⟨other, _, _⟩, hEntry, hSame⟩ :=
      List.mem_map.1 ((hOld key found hSince.stored).1 hFound)
    cases hSame
    obtain ⟨rfl, rfl⟩ := hSince.unique ((h.mem_iff other key found).1 (hKept.subset hEntry))
    exact hEntry

/-- An operation that stores nothing leaves some of the entries. -/
theorem keep (h : Dated initial operations dated) (hKept : kept.Sublist dated)
    (hLists : (initial.performAll (operations ++ [operation])).Lists (kept.map Prod.snd)) :
    Dated initial (operations ++ [operation]) kept where
  lists := hLists
  ordered := h.ordered.sublist hKept
  mem_iff := by
    intro time key order
    rw [h.mem_kept_iff hKept (fun key order _ => hLists.stored?_eq_some_iff key order),
      storedSince_append_iff]
    refine and_congr_right fun hStored => ⟨.inl, fun hEither => hEither.resolve_right ?_⟩
    -- What is left was there before.
    rintro ⟨_, _, hNew⟩
    rw [Ne, hLists.stored?_eq_none_iff, not_not] at hStored
    rw [h.lists.stored?_eq_none_iff] at hNew
    exact hNew ((hKept.map Prod.snd).map Prod.fst |>.subset hStored)

/-- A new entry comes behind those that are left. -/
theorem arrive {fresh : Nat × α} {value : Linearization α} (h : Dated initial operations dated)
    (hKept : kept.Sublist dated) (hNew : (initial.performAll operations).stored? fresh = none)
    (hLists : (initial.performAll (operations ++ [.insert fresh.1 fresh.2 value])).Lists
      (kept.map Prod.snd ++ [(fresh, value)])) :
    Dated initial (operations ++ [.insert fresh.1 fresh.2 value])
      (kept ++ [(operations.length, fresh, value)]) where
  lists := by
    rw [List.map_append, List.map_singleton]
    exact hLists
  ordered := by
    refine List.pairwise_append.2
      ⟨h.ordered.sublist hKept, List.pairwise_singleton _ _, fun entry hEntry last hLast => ?_⟩
    obtain rfl := List.mem_singleton.1 hLast
    exact ((h.mem_iff _ _ _).1 (hKept.subset hEntry)).time_lt
  mem_iff := by
    intro time key order
    have hOld : ∀ key order, (initial.performAll operations).stored? key ≠ none →
        ((initial.performAll (operations ++ [.insert fresh.1 fresh.2 value])).stored? key =
          some order ↔ (key, order) ∈ kept.map Prod.snd) := by
      intro key order hStored
      have hNe : (key, order) ≠ (fresh, value) := by
        rintro ⟨⟩
        exact hStored hNew
      rw [hLists.stored?_eq_some_iff, List.mem_append, List.mem_singleton, or_iff_left hNe]
    rw [List.mem_append, List.mem_singleton, h.mem_kept_iff hKept hOld, storedSince_append_iff,
      and_or_left]
    refine or_congr_right ⟨?_, ?_⟩
    · rintro ⟨⟩
      have hStored := (hLists.stored?_eq_some_iff fresh value).2 (by simp)
      exact ⟨by simp [hStored], rfl, rfl, hNew⟩
    · rintro ⟨_, rfl, hSame, _⟩
      injection hSame with hResolver hNode hOrder
      rw [Prod.ext hResolver hNode, hOrder]

/-- The entries that stay when one comes under the key. -/
def staying (cache : OrderCache α) (key : Nat × α)
    (dated : List (Nat × (Nat × α) × Linearization α)) :
    List (Nat × (Nat × α) × Linearization α) :=
  if (dated.map Prod.snd).countP (Cache.belongs cache.shardOf (cache.shardOf key)) <
      cache.shardCapacity then dated
  else dated.eraseP (Cache.belongs cache.shardOf (cache.shardOf key) ∘ Prod.snd)

theorem staying_sublist (cache : OrderCache α) (key : Nat × α)
    (dated : List (Nat × (Nat × α) × Linearization α)) :
    (staying cache key dated).Sublist dated := by
  unfold staying
  split
  · exact List.Sublist.refl _
  · exact List.eraseP_sublist

theorem arrive_eq (cache : OrderCache α) (key : Nat × α) (order : Linearization α)
    (dated : List (Nat × (Nat × α) × Linearization α)) :
    Cache.arrive cache.shardOf cache.shardCapacity key order (dated.map Prod.snd) =
      (staying cache key dated).map Prod.snd ++ [(key, order)] := by
  rw [Cache.arrive, staying]
  split
  · rfl
  · rw [List.eraseP_map]

theorem insert (h : Dated initial operations dated)
    (hNew : (initial.performAll operations).stored? key = none)
    (hCapacity : initial.shardCapacity ≠ 0) (order : Linearization α) :
    Dated initial (operations ++ [.insert key.1 key.2 order])
      (staying (initial.performAll operations) key dated ++ [(operations.length, key, order)]) := by
  rw [← shardCapacity_performAll initial operations] at hCapacity
  refine h.arrive (staying_sublist _ _ _) hNew ?_
  rw [performAll_concat, ← arrive_eq]
  exact (h.lists.insert hNew hCapacity order).1

theorem clearResolver (h : Dated initial operations dated) (resolver : Nat) :
    Dated initial (operations ++ [.clearResolver resolver])
      (dated.filter fun entry => !(entry.2.1.1 == resolver)) := by
  refine h.keep List.filter_sublist ?_
  have hLists := h.lists.removeAll fun key => key.1 == resolver
  rw [List.filter_map] at hLists
  rw [performAll_concat]
  exact hLists

/-- The list after one more operation. -/
theorem exists_append (h : Dated initial operations dated) (hCapacity : initial.shardCapacity ≠ 0)
    (operation : Operation α) :
    ∃ later, Dated initial (operations ++ [operation]) later := by
  have hAfter := performAll_concat initial operations operation
  cases operation with
  | insert resolver node order =>
      by_cases hNew : (initial.performAll operations).stored? (resolver, node) = none
      · exact ⟨_, h.insert hNew hCapacity order⟩
      · rw [h.lists.stored?_eq_none_iff, not_not] at hNew
        refine ⟨dated, h.keep (List.Sublist.refl _) ?_⟩
        rw [hAfter, perform, h.lists.insert_of_stored hNew order]
        exact h.lists
  | get resolver node =>
      refine ⟨dated, h.keep (List.Sublist.refl _) ?_⟩
      rw [hAfter]
      exact h.lists.get _
  | clear =>
      refine ⟨[], h.keep (List.nil_sublist _) ?_⟩
      rw [hAfter]
      exact .clear _
  | clearResolver resolver => exact ⟨_, h.clearResolver resolver⟩

end Dated

/-- Whatever is done to an empty cache, there is such a list. -/
theorem exists_dated (capacity : Nat) (shardOf : Nat × α → Fin 16)
    (hCapacity : (Cache.empty capacity shardOf : OrderCache α).shardCapacity ≠ 0)
    (operations : List (Operation α)) :
    ∃ dated, Dated (Cache.empty capacity shardOf) operations dated := by
  induction operations using List.reverseRecOn with
  | nil =>
      refine ⟨[], Cache.lists_empty capacity shardOf, List.Pairwise.nil, fun time key order => ?_⟩
      exact ⟨nofun, fun hSince => absurd hSince.time_lt (Nat.not_lt_zero _)⟩
  | append_singleton operations operation ih =>
      obtain ⟨dated, hDated⟩ := ih
      exact hDated.exists_append hCapacity operation

/-- The entry that has been stored under the key since that time goes when one comes under the new
key: their shard is full, and none of its entries has been stored longer. -/
structure Yields (initial : OrderCache α) (operations : List (Operation α)) (new : Nat × α)
    (time : Nat) (key : Nat × α) : Prop where
  shard_eq : initial.shardOf key = initial.shardOf new
  full : ((initial.performAll operations).shard new).entries.size = initial.shardCapacity
  oldest : ∀ later other found, StoredSince initial operations later other found →
    initial.shardOf other = initial.shardOf new → time ≤ later

omit [DecidableEq α] [Hashable α] in
/-- In a list that is ordered by time, the first entry of a kind is the earliest one. -/
theorem not_mem_eraseP_iff {β : Type} {kind : Nat × β → Bool} {entries : List (Nat × β)}
    {entry : Nat × β} (hOrdered : entries.Pairwise fun first second => first.1 < second.1)
    (hEntry : entry ∈ entries) :
    entry ∉ entries.eraseP kind ↔
      kind entry = true ∧ ∀ other ∈ entries, kind other = true → entry.1 ≤ other.1 := by
  induction entries with
  | nil => cases hEntry
  | cons head tail ih =>
      obtain ⟨hHead, hTail⟩ := List.pairwise_cons.1 hOrdered
      rw [List.forall_mem_cons]
      rcases List.mem_cons.1 hEntry with rfl | hLater
      · have hFirst : entry ∉ tail := fun hAgain => Nat.lt_irrefl _ (hHead entry hAgain)
        by_cases hKind : kind entry = true
        · rw [List.eraseP_cons_of_pos hKind]
          exact iff_of_true hFirst
            ⟨hKind, fun _ => Nat.le_refl _, fun other hOther _ => (hHead other hOther).le⟩
        · rw [List.eraseP_cons_of_neg hKind]
          exact iff_of_false (fun hGone => hGone List.mem_cons_self) fun hBoth => hKind hBoth.1
      · have hLess := hHead entry hLater
        by_cases hKind : kind head = true
        · rw [List.eraseP_cons_of_pos hKind]
          exact iff_of_false (fun hGone => hGone hLater) fun hBoth =>
            absurd (hBoth.2.1 hKind) (Nat.not_le_of_lt hLess)
        · have hNe : entry ≠ head := fun hSame => Nat.ne_of_gt hLess (congrArg Prod.fst hSame)
          rw [List.eraseP_cons_of_neg hKind, List.mem_cons, or_iff_right hNe, ih hTail hLater]
          exact and_congr_right fun _ => (and_iff_right fun hSame => absurd hSame hKind).symm

/-- What goes when a new entry comes. -/
theorem Dated.insert_eq_none_iff {dated : List (Nat × (Nat × α) × Linearization α)}
    {new : Nat × α} (h : Dated initial operations dated)
    (hNew : (initial.performAll operations).stored? new = none)
    (hCapacity : initial.shardCapacity ≠ 0) (value : Linearization α)
    (hSince : StoredSince initial operations time key order) :
    ((initial.performAll operations).insert new value).stored? key = none ↔
      Yields initial operations new time key := by
  have hShardOf := shardOf_performAll initial operations
  have hRoom := shardCapacity_performAll initial operations
  have hEntry := (h.mem_iff time key order).2 hSince
  have hKey : key ≠ new := by
    rintro rfl
    exact hSince.stored hNew
  have hSize : ((initial.performAll operations).shard new).entries.size = _ :=
    h.lists.size_shard _
  have hBound := h.lists.bound (initial.shardOf new)
  have hStays : ((initial.performAll operations).insert new value).stored? key = none ↔
      (time, key, order) ∉ staying (initial.performAll operations) new dated := by
    have hMember := (h.insert hNew hCapacity value).mem_iff time key order
    have hNe : (time, key, order) ≠ (operations.length, new, value) := by
      rintro ⟨⟩
      exact hKey rfl
    rw [List.mem_append, List.mem_singleton, or_iff_left hNe, storedSince_append_iff,
      and_iff_left (.inl hSince), performAll_concat] at hMember
    exact not_iff_not.1 (hMember.symm.trans not_not.symm)
  rw [hStays, staying, hShardOf, hRoom]
  rw [hShardOf, hRoom] at hBound
  rw [hShardOf] at hSize
  by_cases hSpace : (dated.map Prod.snd).countP
      (Cache.belongs initial.shardOf (initial.shardOf new)) < initial.shardCapacity
  · rw [if_pos hSpace]
    refine iff_of_false (fun hGone => hGone hEntry) fun hYields => ?_
    have hFull := hYields.full
    omega
  · rw [if_neg hSpace, not_mem_eraseP_iff h.ordered hEntry]
    constructor
    · rintro ⟨hShard, hOldest⟩
      refine ⟨beq_iff_eq.1 hShard, by omega, fun later other found hOther hSame => ?_⟩
      exact hOldest _ ((h.mem_iff later other found).2 hOther) (beq_iff_eq.2 hSame)
    · intro hYields
      refine ⟨beq_iff_eq.2 hYields.shard_eq, fun other hOther hSame => ?_⟩
      exact hYields.oldest _ _ _ ((h.mem_iff _ _ _).1 hOther) (beq_iff_eq.1 hSame)

/-- The entries after an operation, the oldest first, where each shard has so much room. An
insertion under a new key puts its entry at the end, for which the first one of the shard goes if
there is no room. -/
def Operation.entriesAfter (shardOf : Nat × α → Fin 16) (room : Nat)
    (items : List ((Nat × α) × Linearization α)) :
    Operation α → List ((Nat × α) × Linearization α)
  | .insert resolver node order =>
    if (resolver, node) ∈ items.map Prod.fst then items
    else Cache.arrive shardOf room (resolver, node) order items
  | .get _ _ => items
  | .clear => []
  | .clearResolver resolver => items.filter fun item => !(item.1.1 == resolver)

theorem lists_perform {cache : OrderCache α} {items : List ((Nat × α) × Linearization α)}
    (h : cache.Lists items) (hRoom : cache.shardCapacity ≠ 0) (operation : Operation α) :
    (cache.perform operation).Lists
      (operation.entriesAfter cache.shardOf cache.shardCapacity items) := by
  cases operation with
  | insert resolver node order =>
      rw [perform, Operation.entriesAfter]
      split
      · rename_i hStored
        rwa [h.insert_of_stored hStored order]
      · rename_i hNew
        exact (h.insert ((h.stored?_eq_none_iff _).2 hNew) hRoom order).1
  | get resolver node => exact h.get _
  | clear => exact .clear cache
  | clearResolver resolver => exact h.removeAll fun key => key.1 == resolver

theorem lists_performAll {cache : OrderCache α} {items : List ((Nat × α) × Linearization α)}
    (h : cache.Lists items) (hRoom : cache.shardCapacity ≠ 0) (operations : List (Operation α)) :
    (cache.performAll operations).Lists
      (operations.foldl (Operation.entriesAfter cache.shardOf cache.shardCapacity) items) := by
  induction operations generalizing cache items with
  | nil => exact h
  | cons operation rest ih =>
      have hRest := ih (lists_perform h hRoom operation)
        ((shardCapacity_perform cache operation).trans_ne hRoom)
      rwa [shardOf_perform, shardCapacity_perform] at hRest

/-- A cache of some capacity after any operations. It has the entries of a list in which the oldest
comes first. Asked for a key, it gives what was inserted under the key when the key had no entry, if
the key has had an entry ever since. An insertion under a key that has an entry changes nothing.
Under another key it stores the value; the shard of the key gives up an entry if it is full, and
then the one that has been stored longest. Clearing removes every entry, or the entries of one
resolver and no others, and the others remain as old as they were. Asking changes nothing but one of
two counters. -/
theorem first_in_first_out {capacity : Nat} (hCapacity : 0 < capacity)
    (shardOf : Nat × α → Fin 16) (operations : List (Operation α)) :
    let initial : OrderCache α := Cache.empty capacity shardOf
    let cache := initial.performAll operations
    (∀ key order, (cache.get key).1 = some order ↔
      (key, order) ∈ operations.foldl (Operation.entriesAfter shardOf ((capacity + 15) / 16)) []) ∧
    (∀ key order, (cache.get key).1 = some order ↔
      ∃ time, StoredSince initial operations time key order) ∧
    (∀ key order, (cache.get key).1 ≠ none → cache.insert key order = cache) ∧
    (∀ key order, (cache.get key).1 = none →
      ((cache.insert key order).get key).1 = some order ∧
      ∀ time other found, StoredSince initial operations time other found →
        (Yields initial operations key time other →
          ((cache.insert key order).get other).1 = none) ∧
        (¬Yields initial operations key time other →
          ((cache.insert key order).get other).1 = some found)) ∧
    (∀ key, (cache.clear.get key).1 = none) ∧
    (∀ resolver key, ((cache.clearResolver resolver).get key).1 =
      if key.1 = resolver then none else (cache.get key).1) ∧
    (∀ resolver time key order,
      StoredSince initial (operations ++ [.clearResolver resolver]) time key order ↔
        key.1 ≠ resolver ∧ StoredSince initial operations time key order) ∧
    ∀ key, (cache.get key).2 = { cache with stats :=
      if (cache.get key).1.isSome then { cache.stats with hits := cache.stats.hits + 1 }
      else { cache.stats with misses := cache.stats.misses + 1 } } := by
  intro initial cache
  have hRoom : initial.shardCapacity ≠ 0 := by
    have hCeil : (capacity + (Cache.shardCount - 1)) / Cache.shardCount ≠ 0 := by
      rw [Cache.shardCount]
      omega
    exact hCeil
  obtain ⟨dated, hDated⟩ := exists_dated capacity shardOf hRoom operations
  have hLists : cache.Lists (dated.map Prod.snd) := hDated.lists
  have hCacheRoom : cache.shardCapacity ≠ 0 :=
    (shardCapacity_performAll initial operations).symm ▸ hRoom
  simp only [Cache.get_fst]
  have hEntries := lists_performAll (Cache.lists_empty capacity shardOf) hRoom operations
  refine ⟨hEntries.stored?_eq_some_iff, fun key order => hDated.stored?_eq_some_iff,
    ?_, ?_, ?_, ?_, ?_, ?_⟩
  · intro key order hStored
    rw [Ne, hLists.stored?_eq_none_iff, not_not] at hStored
    exact hLists.insert_of_stored hStored order
  · intro key order hNew
    have hInserted := (hLists.insert hNew hCacheRoom order).1
    refine ⟨(hInserted.stored?_eq_some_iff key order).2 (by simp [Cache.arrive]), ?_⟩
    intro time other found hSince
    have hGone := hDated.insert_eq_none_iff hNew hRoom order hSince
    have hAfter : initial.performAll (operations ++ [.insert key.1 key.2 order]) =
        cache.insert key order := performAll_concat _ _ _
    have hStays := (hDated.insert hNew hRoom order).stored?_append hSince
    rw [hAfter] at hStays
    exact ⟨hGone.2, fun hKept => hStays fun hNone => hKept (hGone.1 hNone)⟩
  · intro key
    exact ((Cache.Lists.clear cache).stored?_eq_none_iff key).2 List.not_mem_nil
  · intro resolver key
    rw [clearResolver, Cache.stored?_removeAll]
    simp only [beq_iff_eq]
  · intro resolver time key order
    have hAfter : initial.performAll (operations ++ [.clearResolver resolver]) =
        cache.clearResolver resolver := performAll_concat _ _ _
    rw [storedSince_append_iff, hAfter, clearResolver, Cache.stored?_removeAll]
    constructor
    · rintro ⟨hStays, hSince | ⟨_, hInsert, _⟩⟩
      · exact ⟨fun hSame => hStays (if_pos (beq_iff_eq.2 hSame)), hSince⟩
      · cases hInsert
    · rintro ⟨hOther, hSince⟩
      rw [if_neg fun hSame => hOther (beq_iff_eq.1 hSame)]
      exact ⟨hSince.stored, .inl hSince⟩
  · exact fun key => Cache.get_snd key cache

/-- A cache of two entries in a shard to which all keys belong. -/
def narrowCache : OrderCache Nat := Cache.empty 17 fun _ => Fin.last 15

/-- The third insertion changes nothing, since the key has an entry. -/
def narrowOperations : List (Operation Nat) :=
  [.insert 0 1 ⟨1, []⟩, .insert 0 2 ⟨2, [1]⟩, .insert 0 1 ⟨1, [7]⟩, .get 0 2]

theorem lists_narrowOperations : (narrowCache.performAll narrowOperations).Lists
    [((0, 1), ⟨1, []⟩), ((0, 2), ⟨2, [1]⟩)] := by
  have hEmpty : narrowCache.Lists [] := Cache.lists_empty 17 _
  have hFirst : (narrowCache.insert (0, 1) ⟨1, []⟩).Lists [((0, 1), ⟨1, []⟩)] :=
    (hEmpty.insert ((hEmpty.stored?_eq_none_iff _).2 List.not_mem_nil) (by decide) _).1
  have hRoom : (narrowCache.insert (0, 1) ⟨1, []⟩).shardCapacity = 2 :=
    Cache.shardCapacity_insert _ _ _
  have hSecond := (hFirst.insert ((hFirst.stored?_eq_none_iff (0, 2)).2 (by simp))
    (by rw [hRoom]; decide) ⟨2, [1]⟩).1
  rw [hRoom, Cache.shardOf_insert] at hSecond
  have hStored : ((0, 1) : Nat × Nat) ∈ [(0, 1), (0, 2)] := by decide
  have hThird := hSecond.insert_of_stored hStored ⟨1, [7]⟩
  simp only [narrowOperations, performAll, List.foldl_cons, List.foldl_nil, perform]
  rw [hThird]
  exact hSecond.get (0, 2)

/-- The next new key takes the place of the first one. -/
theorem first_in_first_out_narrow :
    let cache := narrowCache.performAll narrowOperations
    let later := cache.insert (1, 1) ⟨1, [3]⟩
    0 < 17 ∧ (cache.get (0, 1)).1 = some ⟨1, []⟩ ∧ (cache.get (1, 1)).1 = none ∧
      StoredSince narrowCache narrowOperations 0 (0, 1) ⟨1, []⟩ ∧
      StoredSince narrowCache narrowOperations 1 (0, 2) ⟨2, [1]⟩ ∧
      (later.get (1, 1)).1 = some ⟨1, [3]⟩ ∧ (later.get (0, 1)).1 = none ∧
      (later.get (0, 2)).1 = some ⟨2, [1]⟩ := by
  have hZero : ∀ time, narrowOperations[time]? = some (.insert 0 1 ⟨1, []⟩) → time = 0 := by
    rintro (_ | _ | _ | _ | time) h <;> simp [narrowOperations] at h ⊢
  have hOne : ∀ time, narrowOperations[time]? = some (.insert 0 2 ⟨2, [1]⟩) → time = 1 := by
    rintro (_ | _ | _ | _ | time) h <;> simp [narrowOperations] at h ⊢
  intro cache later
  have hLists : cache.Lists _ := lists_narrowOperations
  obtain ⟨_, hSince, _, hInsert, _⟩ :=
    first_in_first_out (by decide : 0 < 17) (fun _ => Fin.last 15) narrowOperations
  have hFirst : (cache.get (0, 1)).1 = some ⟨1, []⟩ := by
    rw [Cache.get_fst, hLists.stored?_eq_some_iff]
    decide
  have hSecond : (cache.get (0, 2)).1 = some ⟨2, [1]⟩ := by
    rw [Cache.get_fst, hLists.stored?_eq_some_iff]
    decide
  have hNew : (cache.get (1, 1)).1 = none := by
    rw [Cache.get_fst, hLists.stored?_eq_none_iff]
    decide
  obtain ⟨time, hOldest⟩ := (hSince _ _).1 hFirst
  obtain rfl := hZero time hOldest.inserted
  obtain ⟨time, hNext⟩ := (hSince _ _).1 hSecond
  obtain rfl := hOne time hNext.inserted
  obtain ⟨hStored, hOthers⟩ := hInsert (1, 1) ⟨1, [3]⟩ hNew
  have hFull : (cache.shard (1, 1)).entries.size = 2 := by
    rw [Cache.shard, hLists.size_shard, shardOf_performAll]
    decide
  have hYields : Yields narrowCache narrowOperations (1, 1) 0 (0, 1) :=
    ⟨rfl, hFull, fun _ _ _ _ _ => Nat.zero_le _⟩
  have hStays : ¬Yields narrowCache narrowOperations (1, 1) 1 (0, 2) :=
    fun h => absurd (h.oldest 0 _ _ hOldest rfl) (by decide)
  exact ⟨by decide, hFirst, hNew, hOldest, hNext, hStored, (hOthers 0 _ _ hOldest).1 hYields,
    (hOthers 1 _ _ hNext).2 hStays⟩

end Ancestry.OrderCache
