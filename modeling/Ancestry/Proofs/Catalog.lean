import Ancestry.Proofs.Hierarchy.Meaning

/-! The catalogs that can be built. Main statements: the index of each of them has under a name the
declarations with that name (`Catalog.Built.indexed`), and the catalogs of loaded files are among
them (`Hierarchy.built_of_load`). -/
namespace Ancestry

namespace Catalog

variable {catalog changed : Catalog} {entry : Entry} {name : String} {id : ClassId}

/-- A catalog comes from the initial one by declarations and by changes of relations. -/
inductive Built : Catalog → Prop where
  | initial : Built Catalog.initial
  | declare {catalog : Catalog} (h : Built catalog) (kind : Kind) (name : String) :
      Built (catalog.declare kind name).1
  | setSuperclass {catalog : Catalog} (h : Built catalog) (id : ClassId)
      (superclass : Option ClassId) : Built (catalog.setSuperclass id superclass)
  | setInterfaces {catalog : Catalog} (h : Built catalog) (id : ClassId)
      (interfaces : List ClassId) : Built (catalog.setInterfaces id interfaces)

/-- The names and kinds of the declarations, in their order. -/
def identities (catalog : Catalog) : List (String × Kind) :=
  catalog.entries.toList.map fun entry => (entry.name, entry.kind)

theorem length_identities (catalog : Catalog) : catalog.identities.length = catalog.size := by
  rw [identities, List.length_map, Array.length_toList, size]

theorem getElem?_identities (catalog : Catalog) (id : ClassId) :
    catalog.identities[id.index]? =
      (catalog.entry? id).map fun entry => (entry.name, entry.kind) := by
  rw [identities, List.getElem?_map, Array.getElem?_toList, entry?]

theorem kind?_eq (catalog : Catalog) (id : ClassId) :
    catalog.kind? id = catalog.identities[id.index]?.map Prod.snd := by
  rw [getElem?_identities, Option.map_map]
  rfl

theorem className_eq (catalog : Catalog) (id : ClassId) :
    catalog.className id = (catalog.identities[id.index]?.map Prod.fst).getD unknownName := by
  rw [getElem?_identities, Option.map_map, className]
  cases catalog.entry? id <;> rfl

theorem identities_add (catalog : Catalog) (entry : Entry) :
    (catalog.add entry).1.identities = catalog.identities ++ [(entry.name, entry.kind)] := by
  rw [identities, add, Array.toList_push, List.map_append, List.map_singleton, identities]

/-- Names and kinds stay when the relations of one declaration change. -/
theorem identities_modify {index : Nat} {update : Entry → Entry}
    (hUpdate : ∀ entry, (update entry).name = entry.name ∧ (update entry).kind = entry.kind) :
    identities ⟨catalog.entries.modify index update, catalog.byName⟩ = catalog.identities := by
  refine List.ext_getElem? fun place => ?_
  have hPlace (catalog : Catalog) := getElem?_identities catalog ⟨place⟩
  simp only at hPlace
  rw [hPlace, hPlace, entry?, Array.getElem?_modify, entry?]
  split
  · rw [Option.map_map]
    refine Option.map_congr fun entry _ => ?_
    obtain ⟨hName, hKind⟩ := hUpdate entry
    rw [Function.comp_apply, hName, hKind]
  · rfl

@[simp] theorem identities_setSuperclass (catalog : Catalog) (id : ClassId)
    (superclass : Option ClassId) :
    (catalog.setSuperclass id superclass).identities = catalog.identities :=
  identities_modify fun entry => by split <;> exact ⟨rfl, rfl⟩

@[simp] theorem identities_setInterfaces (catalog : Catalog) (id : ClassId)
    (interfaces : List ClassId) :
    (catalog.setInterfaces id interfaces).identities = catalog.identities :=
  identities_modify fun _ => ⟨rfl, rfl⟩

theorem ids_add (catalog : Catalog) (entry : Entry) :
    (catalog.add entry).1.ids = catalog.ids ++ [⟨catalog.size⟩] := by
  rw [ids, size_add, List.range_succ, List.map_append, List.map_singleton, ids]

theorem mem_ids_iff : id ∈ catalog.ids ↔ id.index < catalog.size := by
  rw [ids, List.mem_map]
  constructor
  · rintro ⟨index, hIndex, rfl⟩
    exact List.mem_range.1 hIndex
  · exact fun hIndex => ⟨id.index, List.mem_range.2 hIndex, rfl⟩

theorem className_add (catalog : Catalog) (entry : Entry) (id : ClassId) :
    Catalog.className (catalog.add entry).1 id =
      if id.index = catalog.size then entry.name else catalog.className id := by
  rw [className, entry?_add, className]
  by_cases hLast : id.index = catalog.size
  · rw [if_pos hLast, if_pos hLast]
  · rw [if_neg hLast, if_neg hLast]

/-- The index has under each name the declarations with that name, in their order. -/
def Indexed (catalog : Catalog) : Prop :=
  ∀ name, catalog.lookupAll name = catalog.ids.filter fun id => catalog.className id = name

theorem indexed_empty : Indexed ⟨#[], ∅⟩ := lookupAll_empty

theorem Indexed.add (h : catalog.Indexed) (entry : Entry) : (catalog.add entry).1.Indexed := by
  intro name
  have hOld : (catalog.ids.filter fun id => (catalog.add entry).1.className id = name) =
      catalog.lookupAll name := by
    rw [h name]
    refine List.filter_congr fun id hId => ?_
    rw [className_add, if_neg (Nat.ne_of_lt (mem_ids_iff.1 hId))]
  rw [lookupAll_add, ids_add, List.filter_append, hOld, List.filter_singleton, className_add,
    if_pos rfl]
  by_cases hName : entry.name = name <;> simp [hName]

/-- The index stays right as long as names and kinds do. -/
theorem Indexed.of_identities_eq (h : catalog.Indexed) (hByName : changed.byName = catalog.byName)
    (hSame : changed.identities = catalog.identities) : changed.Indexed := by
  intro name
  have hIds : changed.ids = catalog.ids := by
    rw [ids, ← length_identities, hSame, length_identities, ids]
  have hNames : changed.className = catalog.className :=
    funext fun id => by rw [className_eq, hSame, className_eq]
  rw [lookupAll, hByName, hIds, hNames]
  exact h name

theorem Built.indexed (h : catalog.Built) : catalog.Indexed := by
  induction h with
  | initial => exact ((indexed_empty.add _).add _).add _
  | declare _ kind name ih =>
      rw [declare_eq]
      exact ih.add _
  | setSuperclass _ id superclass ih =>
      exact ih.of_identities_eq rfl (identities_setSuperclass _ id superclass)
  | setInterfaces _ id interfaces ih =>
      exact ih.of_identities_eq rfl (identities_setInterfaces _ id interfaces)

theorem Built.className_of_lookup? (h : catalog.Built) (hFound : catalog.lookup? name = some id) :
    catalog.className id = name := by
  have hMember : id ∈ catalog.lookupAll name := List.mem_of_mem_head? hFound
  rw [h.indexed name, List.mem_filter] at hMember
  exact of_decide_eq_true hMember.2

end Catalog

namespace Hierarchy

variable {names : Names} {catalog : Catalog}

theorem built_nameAll (declarations : List Declaration) : (nameAll declarations).catalog.Built := by
  induction declarations using List.reverseRecOn with
  | nil => exact .initial
  | append_singleton declarations declaration ih =>
      rw [nameAll_append, Names.add]
      split
      · exact ih
      · exact ih.declare _ _

theorem built_setParents (h : catalog.Built) (id : ClassId) (parents : Parents) :
    (setParents catalog id parents).Built := by
  unfold setParents
  cases parents.superclass with
  | none => exact h.setInterfaces _ _
  | some superclass => exact (h.setSuperclass _ _).setInterfaces _ _

theorem built_setAll (h : catalog.Built) (given : List (ClassId × Parents)) :
    (setAll catalog given).Built :=
  List.foldlRecOn given _ h fun _ hBuilt (id, parents) _ => built_setParents hBuilt id parents

theorem built_of_load {source : String} {hierarchy : Hierarchy}
    (hLoad : load source = .ok hierarchy) : hierarchy.catalog.Built := by
  obtain ⟨_, _, _, _, _, rfl⟩ := load_eq_ok_iff.1 hLoad
  exact built_setAll (built_nameAll _) _

end Hierarchy

end Ancestry
