import Ancestry.Proofs.Cache.Stored
import Mathlib.Data.List.Perm.Subperm

/-! The entries of a cache in the order in which they came. A cache keeps the entries of each shard
in a map and beside it the order of their keys; here both are one list of entries (`Cache.Lists`).
Main statements: a new entry comes last in the list, and the first entry of its shard goes if the
shard is full (`Cache.Lists.insert`); clearing takes entries out and leaves the order of the others
(`Cache.Lists.removeAll`). -/
namespace Ancestry

variable {κ β : Type} [DecidableEq κ] [Hashable κ]

namespace Shard

/-- The shard has these entries and no others, and they came in this order. -/
structure Lists (shard : Shard κ β) (items : List (κ × β)) : Prop where
  arrivals_eq : shard.arrivals = (items.map Prod.fst).reverse
  nodup : (items.map Prod.fst).Nodup
  getElem?_eq_some_iff : ∀ key value, shard.entries[key]? = some value ↔ (key, value) ∈ items

theorem lists_empty : (empty : Shard κ β).Lists [] :=
  ⟨rfl, List.nodup_nil, by simp [empty]⟩

variable {shard : Shard κ β} {items : List (κ × β)} {capacity : Nat} {key : κ} {value : β}

namespace Lists

theorem mem_arrivals_iff (h : shard.Lists items) (key : κ) :
    key ∈ shard.arrivals ↔ key ∈ shard.entries := by
  rw [h.arrivals_eq, List.mem_reverse, List.mem_map, Std.HashMap.mem_iff_isSome_getElem?,
    Option.isSome_iff_exists]
  constructor
  · rintro ⟨item, hItem, rfl⟩
    exact ⟨item.2, (h.getElem?_eq_some_iff _ _).2 hItem⟩
  · rintro ⟨value, hValue⟩
    exact ⟨(key, value), (h.getElem?_eq_some_iff _ _).1 hValue, rfl⟩

/-- The keys of the map, in some order. -/
theorem keys_perm (h : shard.Lists items) : shard.entries.keys.Perm (items.map Prod.fst) := by
  refine (List.perm_ext_iff_of_nodup Std.HashMap.nodup_keys h.nodup).2 fun key => ?_
  rw [Std.HashMap.mem_keys, ← h.mem_arrivals_iff, h.arrivals_eq, List.mem_reverse]

theorem size_eq (h : shard.Lists items) : shard.entries.size = items.length := by
  rw [← Std.HashMap.length_keys, h.keys_perm.length_eq, List.length_map]

theorem tail {oldest : κ × β} (h : shard.Lists (oldest :: items)) :
    Lists ⟨shard.entries.erase oldest.1, shard.arrivals.dropLast⟩ items := by
  obtain ⟨hOldest, hNodup⟩ := List.nodup_cons.1 h.nodup
  refine ⟨?_, hNodup, fun key value => ?_⟩
  · rw [h.arrivals_eq, List.dropLast_reverse, List.map_cons, List.tail_cons]
  · rw [Std.HashMap.getElem?_erase]
    split
    · rename_i hSame
      obtain rfl : oldest.1 = key := beq_iff_eq.1 hSame
      exact ⟨nofun, fun hItem => absurd (List.mem_map_of_mem hItem) hOldest⟩
    · rename_i hOther
      have hNe : (key, value) ≠ oldest := by
        rintro rfl
        simp at hOther
      rw [h.getElem?_eq_some_iff, List.mem_cons, or_iff_right hNe]

theorem append (h : shard.Lists items) (hNew : key ∉ items.map Prod.fst) (value : β) :
    Lists ⟨shard.entries.insert key value, key :: shard.arrivals⟩ (items ++ [(key, value)]) := by
  refine ⟨by simp [h.arrivals_eq], ?_, fun other found => ?_⟩
  · rw [List.map_append, List.map_singleton]
    exact List.nodup_append_comm.2 (List.nodup_cons.2 ⟨hNew, h.nodup⟩)
  · rw [Std.HashMap.getElem?_insert, List.mem_append, List.mem_singleton]
    split
    · rename_i hSame
      obtain rfl : key = other := beq_iff_eq.1 hSame
      have hOld : (key, found) ∉ items := fun hItem => hNew (List.mem_map_of_mem hItem)
      simp [hOld, eq_comm]
    · rename_i hOther
      have hNe : (other, found) ≠ (key, value) := by
        rintro ⟨⟩
        simp at hOther
      rw [h.getElem?_eq_some_iff, or_iff_left hNe]

/-- A full shard gives up its oldest entry and no other. -/
theorem makeRoom_of_full {oldest : κ × β} (h : shard.Lists (oldest :: items))
    (hFull : items.length + 1 = capacity) :
    shard.makeRoom capacity = (⟨shard.entries.erase oldest.1, shard.arrivals.dropLast⟩, 1) := by
  have hSize : ¬shard.entries.size < capacity := by
    rw [h.size_eq, List.length_cons]
    omega
  have hRoom : (shard.entries.erase oldest.1).size < capacity := by
    rw [h.tail.size_eq]
    omega
  have hLast : shard.arrivals.getLast? = some oldest.1 := by
    rw [h.arrivals_eq, List.getLast?_reverse, List.map_cons, List.head?_cons]
  have hMember : oldest.1 ∈ shard.entries := by
    rw [← h.mem_arrivals_iff, h.arrivals_eq]
    simp
  rw [makeRoom, if_neg hSize]
  split
  · rename_i hNone
    rw [hLast] at hNone
    cases hNone
  · rename_i found hFound
    obtain rfl : oldest.1 = found := Option.some.inj (hLast.symm.trans hFound)
    rw [makeRoom, if_pos hRoom, if_pos hMember]

theorem insert (h : shard.Lists items) (hNew : key ∉ items.map Prod.fst)
    (hBound : items.length ≤ capacity) (hCapacity : capacity ≠ 0) (value : β) :
    (shard.insert capacity key value).1.Lists
        ((if items.length < capacity then items else items.tail) ++ [(key, value)]) ∧
      (shard.insert capacity key value).2 = if items.length < capacity then 0 else 1 := by
  by_cases hRoom : items.length < capacity
  · rw [insert_of_room key value (h.size_eq ▸ hRoom), if_pos hRoom, if_pos hRoom]
    exact ⟨h.append hNew value, rfl⟩
  · rw [if_neg hRoom, if_neg hRoom]
    cases items with
    | nil => exact absurd (Nat.pos_of_ne_zero hCapacity) hRoom
    | cons oldest items =>
        rw [List.length_cons] at hBound hRoom
        rw [Shard.insert, h.makeRoom_of_full (by omega)]
        rw [List.map_cons, List.mem_cons, not_or] at hNew
        exact ⟨h.tail.append hNew.2 value, rfl⟩

theorem removeAll (h : shard.Lists items) (matched : κ → Bool) :
    (shard.removeAll matched).Lists (items.filter fun item => !matched item.1) := by
  refine ⟨?_, h.nodup.sublist (List.filter_sublist.map _), fun key value => ?_⟩
  · rw [Shard.removeAll, h.arrivals_eq, List.filter_reverse, List.filter_map]
    rfl
  · rw [Shard.removeAll, Std.HashMap.getElem?_filter', Option.filter_eq_some_iff,
      h.getElem?_eq_some_iff, List.mem_filter]

end Lists

end Shard

namespace Cache

/-- Whether an entry belongs in a shard. -/
def belongs (shardOf : κ → Fin 16) (index : Fin 16) (item : κ × β) : Bool :=
  shardOf item.1 == index

/-- The cache has these entries and no others, each in the shard of its key, and the entries of each
shard came in this order; there are no more of them than the shard may have. -/
structure Lists (cache : Cache κ β) (items : List (κ × β)) : Prop where
  nodup : (items.map Prod.fst).Nodup
  shards : ∀ index : Fin 16, cache.shards[index].Lists (items.filter (belongs cache.shardOf index))
  bound : ∀ index : Fin 16, items.countP (belongs cache.shardOf index) ≤ cache.shardCapacity

/-- The entries after a value has come under a new key: it is the last one, and if the shard of the
key has no room for it, the first entry of the shard is gone. -/
def arrive (shardOf : κ → Fin 16) (room : Nat) (key : κ) (value : β) (items : List (κ × β)) :
    List (κ × β) :=
  (if items.countP (belongs shardOf (shardOf key)) < room then items
    else items.eraseP (belongs shardOf (shardOf key))) ++ [(key, value)]

theorem shardOf_insert (key : κ) (value : β) (cache : Cache κ β) :
    (cache.insert key value).shardOf = cache.shardOf := by
  rw [insert]
  split
  · rfl
  · split <;> rfl

theorem lists_empty (capacity : Nat) (shardOf : κ → Fin 16) :
    (empty capacity shardOf : Cache κ β).Lists [] where
  nodup := List.nodup_nil
  shards := fun index => by
    rw [Fin.getElem_fin, empty, Vector.getElem_replicate]
    exact Shard.lists_empty
  bound := fun _ => Nat.zero_le _

variable {cache : Cache κ β} {items : List (κ × β)} {key : κ} {value : β}

/-- Asking counts a hit or a miss and changes nothing else. -/
theorem get_snd (key : κ) (cache : Cache κ β) :
    (cache.get key).2 = { cache with stats :=
      if (cache.stored? key).isSome then { cache.stats with hits := cache.stats.hits + 1 }
      else { cache.stats with misses := cache.stats.misses + 1 } } := by
  cases hFound : (cache.shard key).entries[key]? <;> simp [get, stored?, hFound]

theorem stored?_removeAll (matched : κ → Bool) (key : κ) (cache : Cache κ β) :
    (cache.removeAll matched).stored? key = if matched key then none else cache.stored? key := by
  simp only [stored?, shard, removeAll, Fin.getElem_fin, Vector.getElem_map, Shard.removeAll,
    Std.HashMap.getElem?_filter']
  generalize cache.shards[(cache.shardOf key).val].entries[key]? = found?
  cases matched key <;> cases found? <;> rfl

omit [DecidableEq κ] [Hashable κ] in
/-- The first entry of a shard goes, and the entries of the other shards stay. -/
theorem filter_eraseP_belongs (shardOf : κ → Fin 16) (index other : Fin 16)
    (items : List (κ × β)) :
    (items.eraseP (belongs shardOf index)).filter (belongs shardOf other) =
      if index = other then (items.filter (belongs shardOf other)).tail
      else items.filter (belongs shardOf other) := by
  induction items with
  | nil => simp
  | cons item items ih =>
      by_cases hHere : belongs shardOf index item = true
      · rw [List.eraseP_cons_of_pos hHere]
        obtain rfl : shardOf item.1 = index := beq_iff_eq.1 hHere
        by_cases hOther : shardOf item.1 = other
        · subst hOther
          rw [if_pos rfl, List.filter_cons_of_pos hHere, List.tail_cons]
        · have hAway : ¬belongs shardOf other item = true := fun h => hOther (beq_iff_eq.1 h)
          rw [if_neg hOther, List.filter_cons_of_neg hAway]
      · rw [List.eraseP_cons_of_neg hHere]
        by_cases hThere : belongs shardOf other item = true
        · have hNe : index ≠ other := by
            rintro rfl
            exact hHere hThere
          rw [List.filter_cons_of_pos hThere, List.filter_cons_of_pos hThere, ih, if_neg hNe,
            if_neg hNe]
        · rw [List.filter_cons_of_neg hThere, List.filter_cons_of_neg hThere, ih]

namespace Lists

theorem stored?_eq_some_iff (h : cache.Lists items) (key : κ) (value : β) :
    cache.stored? key = some value ↔ (key, value) ∈ items := by
  rw [stored?, shard, (h.shards _).getElem?_eq_some_iff, List.mem_filter]
  simp [belongs]

theorem stored?_eq_none_iff (h : cache.Lists items) (key : κ) :
    cache.stored? key = none ↔ key ∉ items.map Prod.fst := by
  rw [Option.eq_none_iff_forall_ne_some, List.mem_map]
  refine ⟨?_, fun hNone value hValue => ?_⟩
  · rintro hNone ⟨item, hItem, rfl⟩
    exact hNone item.2 ((h.stored?_eq_some_iff _ _).2 hItem)
  · exact hNone ⟨(key, value), (h.stored?_eq_some_iff _ _).1 hValue, rfl⟩

theorem mem_entries_iff (h : cache.Lists items) (key : κ) :
    key ∈ (cache.shard key).entries ↔ key ∈ items.map Prod.fst := by
  rw [← not_iff_not, ← h.stored?_eq_none_iff, Std.HashMap.mem_iff_isSome_getElem?, ← stored?,
    Bool.not_eq_true, Option.isSome_eq_false_iff, Option.isNone_iff_eq_none]

theorem size_shard (h : cache.Lists items) (index : Fin 16) :
    cache.shards[index].entries.size = items.countP (belongs cache.shardOf index) := by
  rw [(h.shards index).size_eq, List.countP_eq_length_filter]

theorem get (h : cache.Lists items) (key : κ) : (cache.get key).2.Lists items := by
  refine ⟨h.nodup, fun index => ?_, fun index => ?_⟩
  · rw [shards_get, shardOf_get]
    exact h.shards index
  · rw [shardOf_get, shardCapacity_get]
    exact h.bound index

theorem clear (cache : Cache κ β) : cache.clear.Lists [] :=
  have hEmpty := lists_empty cache.capacity cache.shardOf
  ⟨hEmpty.nodup, hEmpty.shards, hEmpty.bound⟩

theorem removeAll (h : cache.Lists items) (matched : κ → Bool) :
    (cache.removeAll matched).Lists (items.filter fun item => !matched item.1) := by
  refine ⟨h.nodup.sublist (List.filter_sublist.map _), fun index => ?_, fun index => ?_⟩
  · have hShard := (h.shards index).removeAll matched
    rw [List.filter_filter] at hShard ⊢
    rw [Cache.removeAll, Fin.getElem_fin, Vector.getElem_map, ← Fin.getElem_fin]
    simpa only [Bool.and_comm] using hShard
  · exact List.filter_sublist.countP_le.trans (h.bound index)

theorem insert_of_stored (h : cache.Lists items) (hStored : key ∈ items.map Prod.fst) (value : β) :
    cache.insert key value = cache := by
  rw [Cache.insert, if_pos ((h.mem_entries_iff key).2 hStored), ite_self]

end Lists

section

variable (shardOf : κ → Fin 16) (room : Nat)

omit [DecidableEq κ] [Hashable κ] in
theorem nodup_arrive (hNodup : (items.map Prod.fst).Nodup) (hNew : key ∉ items.map Prod.fst)
    (value : β) : ((arrive shardOf room key value items).map Prod.fst).Nodup := by
  have hKept : (if items.countP (belongs shardOf (shardOf key)) < room then items
      else items.eraseP (belongs shardOf (shardOf key))).Sublist items := by
    split
    · exact List.Sublist.refl _
    · exact List.eraseP_sublist
  rw [arrive, List.map_append, List.map_singleton]
  refine List.nodup_append_comm.2 (List.nodup_cons.2 ⟨?_, hNodup.sublist (hKept.map _)⟩)
  exact fun hMember => hNew ((hKept.map _).subset hMember)

omit [DecidableEq κ] [Hashable κ] in
/-- One entry comes, and at most one goes. -/
theorem length_arrive (hRoom : room ≠ 0) (key : κ) (value : β) (items : List (κ × β)) :
    (arrive shardOf room key value items).length +
        (if items.countP (belongs shardOf (shardOf key)) < room then 0 else 1) =
      items.length + 1 := by
  rw [arrive, List.length_append, List.length_singleton]
  split
  · rfl
  · rename_i hFull
    have hSome : 0 < items.countP (belongs shardOf (shardOf key)) := by omega
    obtain ⟨item, hItem, hOwn⟩ := List.countP_pos_iff.1 hSome
    have hLength := List.length_pos_of_mem hItem
    rw [List.length_eraseP_of_mem hItem hOwn]
    omega

omit [DecidableEq κ] [Hashable κ] in
/-- What comes into a shard changes no other one. -/
theorem filter_arrive (key : κ) (value : β) (items : List (κ × β)) (index : Fin 16) :
    (arrive shardOf room key value items).filter (belongs shardOf index) =
      if shardOf key = index then
        (if (items.filter (belongs shardOf index)).length < room
          then items.filter (belongs shardOf index)
          else (items.filter (belongs shardOf index)).tail) ++ [(key, value)]
      else items.filter (belongs shardOf index) := by
  rw [arrive, List.filter_append, List.countP_eq_length_filter]
  by_cases hHere : shardOf key = index
  · subst hHere
    have hOwn : belongs shardOf (shardOf key) (key, value) = true := beq_self_eq_true _
    rw [if_pos rfl, List.filter_cons_of_pos hOwn, List.filter_nil]
    split
    · rfl
    · rw [filter_eraseP_belongs, if_pos rfl]
  · have hOther : ¬belongs shardOf index (key, value) = true := fun h => hHere (beq_iff_eq.1 h)
    rw [if_neg hHere, List.filter_cons_of_neg hOther, List.filter_nil, List.append_nil]
    split
    · rfl
    · rw [filter_eraseP_belongs, if_neg hHere]

omit [DecidableEq κ] [Hashable κ] in
theorem countP_arrive_le (hBound : ∀ index, items.countP (belongs shardOf index) ≤ room)
    (hRoom : room ≠ 0) (key : κ) (value : β) (index : Fin 16) :
    (arrive shardOf room key value items).countP (belongs shardOf index) ≤ room := by
  have hHere := hBound index
  rw [List.countP_eq_length_filter] at hHere ⊢
  rw [filter_arrive]
  by_cases hOwn : shardOf key = index
  · rw [if_pos hOwn, List.length_append, List.length_singleton]
    split
    · omega
    · rw [List.length_tail]
      omega
  · rw [if_neg hOwn]
    exact hHere

end

namespace Lists

theorem insert (h : cache.Lists items) (hNew : cache.stored? key = none)
    (hCapacity : cache.shardCapacity ≠ 0) (value : β) :
    (cache.insert key value).Lists (arrive cache.shardOf cache.shardCapacity key value items) ∧
      (cache.insert key value).stats = { cache.stats with
        insertions := cache.stats.insertions + 1
        evictions := cache.stats.evictions +
          if items.countP (belongs cache.shardOf (cache.shardOf key)) < cache.shardCapacity
          then 0 else 1 } := by
  have hAbsent : key ∉ (cache.shard key).entries := by
    rw [h.mem_entries_iff, ← h.stored?_eq_none_iff]
    exact hNew
  have hUnlisted : key ∉ items.map Prod.fst := (h.stored?_eq_none_iff key).1 hNew
  have hOwnBound := h.bound (cache.shardOf key)
  rw [List.countP_eq_length_filter] at hOwnBound
  have hOwn : key ∉ (items.filter (belongs cache.shardOf (cache.shardOf key))).map Prod.fst :=
    fun hMember => hUnlisted ((List.filter_sublist.map _).subset hMember)
  obtain ⟨hEntered, hDropped⟩ :=
    (h.shards (cache.shardOf key)).insert hOwn hOwnBound hCapacity value
  rw [Cache.insert, if_neg hCapacity, if_neg hAbsent]
  refine ⟨⟨nodup_arrive _ _ h.nodup hUnlisted value, fun index => ?_, fun index => ?_⟩, ?_⟩
  · rw [filter_arrive, Fin.getElem_fin, Vector.getElem_set]
    by_cases hHere : cache.shardOf key = index
    · subst hHere
      rw [if_pos rfl, if_pos rfl]
      exact hEntered
    · rw [if_neg hHere, if_neg fun hSame => hHere (Fin.ext hSame)]
      exact h.shards index
  · exact countP_arrive_le _ _ h.bound hCapacity key value index
  · rw [List.countP_eq_length_filter]
    exact congrArg (fun dropped => { cache.stats with
      insertions := cache.stats.insertions + 1
      evictions := cache.stats.evictions + dropped }) hDropped

end Lists

end Cache

end Ancestry
