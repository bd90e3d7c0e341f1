import Ancestry.Proofs.Catalog

/-! A catalog under declarations and changes of relations, in any order. Main statement: the index
and the declarations never disagree, and whatever is declared keeps its name and its kind
(`Catalog.index_matches_entries`). -/
namespace Ancestry

/-- It has no superclass if it declares an interface. -/
def Entry.IsProper (entry : Entry) : Prop :=
  entry.kind = .interfaceType → entry.superclass = none

namespace Catalog

variable {catalog changed : Catalog} {entry : Entry} {id : ClassId}

/-- What can be done to a catalog. -/
inductive Change where
  | declare (kind : Kind) (name : String)
  | setSuperclass (id : ClassId) (superclass : Option ClassId)
  | setInterfaces (id : ClassId) (interfaces : List ClassId)

/-- The name and the kind of what is declared, if anything is. -/
def Change.identity? : Change → Option (String × Kind)
  | .declare kind name => some (name, kind)
  | _ => none

def change (catalog : Catalog) : Change → Catalog
  | .declare kind name => (catalog.declare kind name).1
  | .setSuperclass id superclass => catalog.setSuperclass id superclass
  | .setInterfaces id interfaces => catalog.setInterfaces id interfaces

theorem Built.change (h : catalog.Built) (made : Change) : (catalog.change made).Built := by
  cases made with
  | declare kind name => exact h.declare kind name
  | setSuperclass id superclass => exact h.setSuperclass id superclass
  | setInterfaces id interfaces => exact h.setInterfaces id interfaces

theorem Built.foldl_change (h : catalog.Built) (changes : List Change) :
    (changes.foldl Catalog.change catalog).Built :=
  List.foldlRecOn changes _ h fun _ hBuilt made _ => hBuilt.change made

/-- A change declares at most one type, which comes last, and leaves the others their names and
kinds. -/
theorem identities_change (catalog : Catalog) (made : Change) :
    (catalog.change made).identities = catalog.identities ++ made.identity?.toList := by
  cases made with
  | declare kind name =>
      rw [Catalog.change, declare_eq, identities_add]
      rfl
  | setSuperclass id superclass => simp [Catalog.change, Change.identity?]
  | setInterfaces id interfaces => simp [Catalog.change, Change.identity?]

theorem identities_foldl_change (catalog : Catalog) (changes : List Change) :
    (changes.foldl Catalog.change catalog).identities =
      catalog.identities ++ changes.filterMap Change.identity? := by
  induction changes generalizing catalog with
  | nil => simp
  | cons made rest ih =>
      rw [List.foldl_cons, ih, identities_change, List.append_assoc]
      cases hMade : made.identity? <;> simp [hMade]

/-- Names and kinds are those of the declarations at the places that the identities name. -/
theorem map_ids (catalog : Catalog) :
    catalog.ids.map (fun id => (catalog.className id, catalog.kind? id)) =
      catalog.identities.map fun identity => (identity.1, some identity.2) := by
  refine List.ext_getElem? fun place => ?_
  by_cases hPlace : place < catalog.size
  · have hIdentity : place < catalog.identities.length := by rwa [length_identities]
    simp [ids, hPlace, className_eq, kind?_eq, hIdentity]
  · have hIdentity : ¬place < catalog.identities.length := by rwa [length_identities]
    simp [ids, hPlace, hIdentity]

/-- Of all declarations, at most that of the given class changes, and of that one only the
superclass. -/
theorem entry?_setSuperclass_eq (catalog : Catalog) (id : ClassId) (superclass : Option ClassId)
    (other : ClassId) : Catalog.entry? (catalog.setSuperclass id superclass) other =
      (catalog.entry? other).map fun entry =>
        if other = id ∧ entry.kind = .classType then { entry with superclass } else entry := by
  rw [entry?_setSuperclass]
  by_cases hSame : other = id
  · subst hSame
    rw [if_pos rfl]
    refine Option.map_congr fun entry _ => ?_
    cases hKind : entry.kind <;> simp
  · have hIndex : id.index ≠ other.index := fun hIndex => hSame (congrArg ClassId.mk hIndex.symm)
    simp [hIndex, hSame]

/-- Of all declarations, at most that of the given type changes, and of that one only the
interfaces. -/
theorem entry?_setInterfaces_eq (catalog : Catalog) (id : ClassId) (interfaces : List ClassId)
    (other : ClassId) : Catalog.entry? (catalog.setInterfaces id interfaces) other =
      (catalog.entry? other).map fun entry =>
        if other = id then { entry with interfaces } else entry := by
  rw [entry?_setInterfaces]
  by_cases hSame : other = id
  · subst hSame
    simp
  · have hIndex : id.index ≠ other.index := fun hIndex => hSame (congrArg ClassId.mk hIndex.symm)
    simp [hIndex, hSame]

def Proper (catalog : Catalog) : Prop :=
  ∀ id entry, catalog.entry? id = some entry → entry.IsProper

theorem Proper.add (h : catalog.Proper) (hEntry : entry.IsProper) :
    (catalog.add entry).1.Proper := by
  intro id found hFound
  rw [entry?_add] at hFound
  split at hFound
  · cases hFound
    exact hEntry
  · exact h id found hFound

theorem Proper.of_entry?_eq {update : ClassId → Entry → Entry} (h : catalog.Proper)
    (hEntries : ∀ id, changed.entry? id = (catalog.entry? id).map (update id))
    (hUpdate : ∀ id entry, entry.IsProper → (update id entry).IsProper) : changed.Proper := by
  intro id found hFound
  rw [hEntries] at hFound
  obtain ⟨old, hOld, rfl⟩ := Option.map_eq_some_iff.1 hFound
  exact hUpdate id old (h id old hOld)

theorem Built.proper (h : catalog.Built) : catalog.Proper := by
  induction h with
  | initial =>
      have hEmpty : Proper ⟨#[], ∅⟩ := fun _ _ hFound => by cases hFound
      exact ((hEmpty.add fun _ => rfl).add fun _ => rfl).add fun _ => rfl
  | declare _ kind name ih =>
      rw [declare_eq]
      cases kind with
      | classType => exact ih.add nofun
      | interfaceType => exact ih.add fun _ => rfl
  | setSuperclass _ id superclass ih =>
      refine ih.of_entry?_eq (entry?_setSuperclass_eq _ id superclass) fun other entry hEntry => ?_
      split
      · rename_i hClass
        exact fun hInterface => absurd (hClass.2.symm.trans hInterface) nofun
      · exact hEntry
  | setInterfaces _ id interfaces ih =>
      refine ih.of_entry?_eq (entry?_setInterfaces_eq _ id interfaces) fun other entry hEntry => ?_
      split <;> exact hEntry

theorem Built.superclass?_eq_none (h : catalog.Built) (hInterface : catalog.isInterface id = true) :
    catalog.superclass? id = none := by
  obtain ⟨entry, hEntry, hKind⟩ := Option.map_eq_some_iff.1 (beq_iff_eq.1 hInterface)
  rw [superclass?, hEntry]
  exact h.proper id entry hEntry hKind

/-- The names and kinds of the predeclared types. -/
def predeclaredIdentities : List (String × Kind) :=
  [("Object", .classType), ("Serializable", .interfaceType), ("Cloneable", .interfaceType)]

theorem identities_initial : initial.identities = predeclaredIdentities := rfl

/-- What is declared later leaves the declarations that there are their names and kinds. -/
theorem keeps_identity {added : List (String × Kind)}
    (h : changed.identities = catalog.identities ++ added) (hId : id ∈ catalog.ids) :
    id ∈ changed.ids ∧ changed.className id = catalog.className id ∧
      changed.kind? id = catalog.kind? id := by
  have hIndex : id.index < catalog.identities.length :=
    (length_identities catalog).symm ▸ mem_ids_iff.1 hId
  have hSame : changed.identities[id.index]? = catalog.identities[id.index]? := by
    rw [h, List.getElem?_append_left hIndex]
  refine ⟨mem_ids_iff.2 ?_, ?_, ?_⟩
  · rw [← length_identities, h, List.length_append]
    exact Nat.lt_add_right _ hIndex
  · rw [className_eq, hSame, className_eq]
  · rw [kind?_eq, hSame, kind?_eq]

theorem pairwise_ids (catalog : Catalog) :
    catalog.ids.Pairwise fun earlier later => earlier.index < later.index :=
  List.pairwise_map.2 List.pairwise_lt_range

theorem isPrefix_ids (h : ClassId.predeclaredCount ≤ catalog.size) :
    [.object, .serializable, .cloneable] <+: catalog.ids := by
  obtain ⟨others, hSize⟩ := Nat.exists_eq_add_of_le h
  rw [ids, hSize, List.range_add, List.map_append]
  exact List.prefix_append _ _

/-- A declaration gets an identity of its own. -/
theorem declare_fresh (catalog : Catalog) (kind : Kind) (name : String) :
    (catalog.declare kind name).2 ∉ catalog.ids ∧
      (catalog.declare kind name).1.className (catalog.declare kind name).2 = name ∧
      (catalog.declare kind name).1.kind? (catalog.declare kind name).2 = some kind := by
  have hId : (catalog.add (.bare kind name)).2.index = catalog.size := rfl
  rw [declare_eq]
  refine ⟨fun hMember => Nat.lt_irrefl _ (mem_ids_iff.1 hMember), ?_, ?_⟩
  · rw [className_add, if_pos hId]
    rfl
  · rw [kind?, entry?_add, if_pos hId]
    rfl

/-- Whatever is declared and whichever relations are changed: the identities count the declarations,
the predeclared ones first, and each has the name and the kind with which it was declared. The
index has under a name the identities with that name, in their order. No later change touches a
name or a kind, and a declaration gets an identity of its own. An interface has no superclass. A
change of relations touches one field of the declaration that it names, if there is one. -/
theorem index_matches_entries (changes more : List Change) :
    let catalog := changes.foldl change .initial
    let later := more.foldl change catalog
    (catalog.ids.map (·.index) = List.range catalog.size ∧
      [.object, .serializable, .cloneable] <+: catalog.ids ∧
      catalog.ids.map (fun id => (catalog.className id, catalog.kind? id)) =
        (predeclaredIdentities ++ changes.filterMap Change.identity?).map
          fun identity => (identity.1, some identity.2)) ∧
    (∀ name,
      catalog.lookupAll name = catalog.ids.filter (fun id => catalog.className id = name) ∧
      (catalog.lookupAll name).Pairwise (fun earlier later => earlier.index < later.index) ∧
      catalog.lookup? name = catalog.ids.find? (fun id => catalog.className id = name)) ∧
    (∀ id ∈ catalog.ids, id ∈ later.ids ∧
      later.className id = catalog.className id ∧ later.kind? id = catalog.kind? id) ∧
    (∀ kind name, (catalog.declare kind name).2 ∉ catalog.ids ∧
      (catalog.declare kind name).1.className (catalog.declare kind name).2 = name ∧
      (catalog.declare kind name).1.kind? (catalog.declare kind name).2 = some kind) ∧
    (∀ id, catalog.isInterface id = true → catalog.superclass? id = none) ∧
    (∀ id superclass name other,
      (catalog.setSuperclass id superclass).lookupAll name = catalog.lookupAll name ∧
      Catalog.entry? (catalog.setSuperclass id superclass) other =
        (catalog.entry? other).map fun entry =>
          if other = id ∧ entry.kind = .classType then { entry with superclass } else entry) ∧
    ∀ id interfaces name other,
      (catalog.setInterfaces id interfaces).lookupAll name = catalog.lookupAll name ∧
      Catalog.entry? (catalog.setInterfaces id interfaces) other =
        (catalog.entry? other).map fun entry =>
          if other = id then { entry with interfaces } else entry := by
  intro catalog later
  have hBuilt : catalog.Built := Built.initial.foldl_change changes
  have hIdentities : catalog.identities =
      predeclaredIdentities ++ changes.filterMap Change.identity? := by
    rw [identities_foldl_change, identities_initial]
  have hSize : ClassId.predeclaredCount ≤ catalog.size := by
    rw [← length_identities, hIdentities, List.length_append]
    exact Nat.le_add_right _ _
  refine ⟨⟨?_, isPrefix_ids hSize, ?_⟩, fun name => ⟨hBuilt.indexed name, ?_, ?_⟩,
    fun id hId => keeps_identity (identities_foldl_change catalog more) hId,
    declare_fresh catalog, fun id hInterface => ?_,
    fun id superclass _ other => ⟨rfl, entry?_setSuperclass_eq catalog id superclass other⟩,
    fun id interfaces _ other => ⟨rfl, entry?_setInterfaces_eq catalog id interfaces other⟩⟩
  · rw [ids, List.map_map]
    exact List.map_id _
  · rw [map_ids, hIdentities]
  · rw [hBuilt.indexed name]
    exact catalog.pairwise_ids.filter _
  · rw [lookup?, hBuilt.indexed name, List.head?_filter]
  · exact hBuilt.superclass?_eq_none hInterface

/-- An interface and a class have one name. The interface is not given the superclass, and nothing
is changed under an identity that no declaration has. -/
def homonymChanges : List Change :=
  [.declare .interfaceType "Node", .setSuperclass ⟨3⟩ (some .object), .declare .classType "Node",
    .setInterfaces ⟨999⟩ [⟨3⟩], .setSuperclass ⟨4⟩ none]

theorem index_matches_entries_homonyms :
    let catalog := homonymChanges.foldl change .initial
    catalog.lookupAll "Node" = [⟨3⟩, ⟨4⟩] ∧ catalog.lookup? "Node" = some ⟨3⟩ ∧
      catalog.isInterface ⟨3⟩ = true ∧ catalog.superclass? ⟨3⟩ = none := by
  intro catalog
  obtain ⟨_, hIndex, _, _, hBare, _⟩ := index_matches_entries homonymChanges []
  obtain ⟨hAll, _, hFirst⟩ := hIndex "Node"
  have hInterface : catalog.isInterface ⟨3⟩ = true := by decide
  exact ⟨hAll.trans (by decide), hFirst.trans (by decide), hInterface, hBare ⟨3⟩ hInterface⟩

end Catalog

end Ancestry
