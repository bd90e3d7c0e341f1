import Ancestry.Proofs.Hierarchy.Loaded
import Mathlib.Data.List.Induction
import Mathlib.Data.List.Nodup

/-! The first pass over a hierarchy file, in which its types get their names and identities. Main
statements: the pass goes without errors just when no name is given twice
(`Hierarchy.errors_eq_empty_iff`), and the identity of a type is then its place among the
predeclared types and the declarations (`Hierarchy.named_of_nodup`). -/
namespace Ancestry

namespace Catalog

theorem lookup?_add (catalog : Catalog) (entry : Entry) (name : String) :
    (catalog.add entry).1.lookup? name =
      (catalog.lookup? name).or (if entry.name = name then some ⟨catalog.size⟩ else none) := by
  rw [lookup?, lookupAll_add, lookup?]
  by_cases hName : entry.name = name
  · rw [if_pos hName, if_pos hName, List.head?_append]
    rfl
  · rw [if_neg hName, if_neg hName, Option.or_none]

end Catalog

namespace Hierarchy

variable {declarations : List Declaration} {declaration : Declaration} {names : Names}
  {name : String} {id : ClassId}

/-- The names and kinds of the types that every file starts with. -/
def predeclared : List (String × Kind) :=
  [("Object", .classType), ("Serializable", .interfaceType), ("Cloneable", .interfaceType)]

/-- The names and kinds of all types of a file. -/
def types (declarations : List Declaration) : List (String × Kind) :=
  predeclared ++ declarations.map fun declaration => (declaration.name, declaration.kind)

def typeNames (declarations : List Declaration) : List String := (types declarations).map Prod.fst

/-- The identity of the first type of a file that has the name. -/
def idNamed? (declarations : List Declaration) (name : String) : Option ClassId :=
  ((typeNames declarations).idxOf? name).map ClassId.mk

@[simp] theorem length_types (declarations : List Declaration) :
    (types declarations).length = 3 + declarations.length := by
  simp only [types, predeclared, List.length_append, List.length_map, List.length_cons,
    List.length_nil]

theorem typeNames_append (declarations others : List Declaration) :
    typeNames (declarations ++ others) = typeNames declarations ++ others.map (·.name) := by
  simp [typeNames, types]

theorem idNamed?_eq_none_iff :
    idNamed? declarations name = none ↔ name ∉ typeNames declarations := by
  rw [idNamed?, Option.map_eq_none_iff, List.idxOf?_eq_none_iff]

theorem idNamed?_append (declarations : List Declaration) (declaration : Declaration)
    (name : String) :
    idNamed? (declarations ++ [declaration]) name = (idNamed? declarations name).or
      (if declaration.name = name then some ⟨3 + declarations.length⟩ else none) := by
  have hLength : (typeNames declarations).length = 3 + declarations.length := by
    rw [typeNames, List.length_map, length_types]
  rw [idNamed?, typeNames_append, List.idxOf?, List.findIdx?_append, ← List.idxOf?, hLength,
    idNamed?]
  cases (typeNames declarations).idxOf? name with
  | some place => rfl
  | none => by_cases hName : declaration.name = name <;> simp [hName]

/-- If no name is given twice, the names and the identities of a file belong to each other. -/
theorem idNamed?_eq_some_iff (hDistinct : (typeNames declarations).Nodup) :
    idNamed? declarations name = some id ↔ (typeNames declarations)[id.index]? = some name := by
  rw [idNamed?, Option.map_eq_some_iff, List.getElem?_eq_some_iff]
  constructor
  · rintro ⟨place, hPlace, rfl⟩
    obtain ⟨hLength, hName, _⟩ := List.idxOf?_eq_some_iff.1 hPlace
    exact ⟨hLength, hName⟩
  · rintro ⟨hLength, hName⟩
    refine ⟨id.index, List.idxOf?_eq_some_iff.2 ⟨hLength, hName, fun other hOther hSame => ?_⟩, rfl⟩
    have hPlaces := hDistinct.getElem_inj_iff.1 (hSame.trans hName.symm)
    omega

/-- What the first pass has done about the given declarations if all is well. -/
structure Named (declarations : List Declaration) (names : Names) : Prop where
  entries : names.catalog.entries.toList = Catalog.initial.entries.toList ++
    declarations.map fun declaration => .bare declaration.kind declaration.name
  lookup?_eq : ∀ name, names.catalog.lookup? name = idNamed? declarations name
  lines : names.lines.toList = declarations.map (·.line)
  accepted : names.accepted.toList =
    declarations.mapIdx fun place declaration => (⟨3 + place⟩, declaration)
  errors : names.errors = #[]

theorem Named.size_eq (h : Named declarations names) :
    names.catalog.size = 3 + declarations.length := by
  rw [Catalog.size, ← Array.length_toList, h.entries, List.length_append, List.length_map]
  rfl

theorem Named.entry?_eq (h : Named declarations names) (id : ClassId) :
    names.catalog.entry? id = (Catalog.initial.entries.toList ++
      declarations.map fun declaration => .bare declaration.kind declaration.name)[id.index]? := by
  rw [Catalog.entry?, ← Array.getElem?_toList, h.entries]

theorem Named.entry?_declared (h : Named declarations names) {place : Nat}
    (hPlace : declarations[place]? = some declaration) :
    names.catalog.entry? ⟨3 + place⟩ = some (.bare declaration.kind declaration.name) := by
  have hLength : Catalog.initial.entries.toList.length = 3 := rfl
  have hBehind : Catalog.initial.entries.toList.length ≤ 3 + place := Nat.le_add_right 3 place
  rw [h.entry?_eq, List.getElem?_append_right hBehind, hLength, Nat.add_sub_cancel_left,
    List.getElem?_map, hPlace]
  rfl

theorem Named.entry?_predeclared (h : Named declarations names) (hId : id.isPredeclared = true) :
    names.catalog.entry? id = Catalog.initial.entry? id := by
  have hIndex : id.index < Catalog.initial.entries.toList.length := of_decide_eq_true hId
  rw [h.entry?_eq, List.getElem?_append_left hIndex, Catalog.entry?, Array.getElem?_toList]

/-- Every type has the kind with which it is declared. -/
theorem Named.kind?_eq (h : Named declarations names) (id : ClassId) :
    names.catalog.kind? id = (types declarations)[id.index]?.map Prod.snd := by
  have hTypes : names.catalog.entries.toList.map (fun entry => (entry.name, entry.kind)) =
      types declarations := by
    rw [h.entries, List.map_append, List.map_map]
    rfl
  rw [Catalog.kind?, Catalog.entry?, ← Array.getElem?_toList, ← hTypes, List.getElem?_map,
    Option.map_map]
  rfl

theorem named_initial : Named [] Names.initial where
  entries := rfl
  lookup?_eq := by
    intro name
    simp only [Names.initial, Catalog.initial, Catalog.declareInterface, Catalog.lookup?_add]
    by_cases hObject : "Object" = name <;> by_cases hSerializable : "Serializable" = name <;>
      simp [Catalog.lookup?, Catalog.add, Catalog.size, idNamed?, typeNames, types, predeclared,
        List.idxOf?_cons, hObject, hSerializable]
  lines := rfl
  accepted := rfl
  errors := rfl

theorem Named.add (h : Named declarations names)
    (hNew : declaration.name ∉ typeNames declarations) :
    Named (declarations ++ [declaration]) (names.add declaration) := by
  have hLookup : names.catalog.lookup? declaration.name = none := by
    rw [h.lookup?_eq, idNamed?_eq_none_iff]
    exact hNew
  rw [Names.add_of_new hLookup, Catalog.declare_eq]
  constructor
  · simp [Catalog.add, h.entries]
  · intro name
    rw [Catalog.lookup?_add, h.lookup?_eq, h.size_eq, idNamed?_append]
    rfl
  · simp [h.lines]
  · simp [Catalog.add, h.accepted, h.size_eq, List.mapIdx_append]
  · exact h.errors

/-- The state of the first pass behind the given declarations. -/
def nameAll (declarations : List Declaration) : Names :=
  declarations.foldl Names.add Names.initial

theorem nameAll_append (declarations : List Declaration) (declaration : Declaration) :
    nameAll (declarations ++ [declaration]) = (nameAll declarations).add declaration := by
  simp [nameAll]

theorem nodup_typeNames_append : (typeNames (declarations ++ [declaration])).Nodup ↔
    (typeNames declarations).Nodup ∧ declaration.name ∉ typeNames declarations := by
  rw [typeNames_append, List.map_singleton, ← List.concat_eq_append, List.nodup_concat]
  exact and_comm

theorem named_of_nodup (hDistinct : (typeNames declarations).Nodup) :
    Named declarations (nameAll declarations) := by
  induction declarations using List.reverseRecOn with
  | nil => exact named_initial
  | append_singleton declarations declaration ih =>
      obtain ⟨hBefore, hNew⟩ := nodup_typeNames_append.1 hDistinct
      rw [nameAll_append]
      exact (ih hBefore).add hNew

/-- An error stays. -/
theorem Names.errors_of_add (h : (names.add declaration).errors = #[]) :
    names.errors = #[] ∧ names.catalog.lookup? declaration.name = none := by
  unfold add at h
  split at h
  · simp at h
  · rename_i hNew
    exact ⟨h, hNew⟩

theorem errors_eq_empty_iff :
    (nameAll declarations).errors = #[] ↔ (typeNames declarations).Nodup := by
  refine ⟨fun h => ?_, fun h => (named_of_nodup h).errors⟩
  induction declarations using List.reverseRecOn with
  | nil => decide
  | append_singleton declarations declaration ih =>
      rw [nameAll_append] at h
      obtain ⟨hErrors, hNew⟩ := Names.errors_of_add h
      have hBefore := ih hErrors
      rw [(named_of_nodup hBefore).lookup?_eq, idNamed?_eq_none_iff] at hNew
      exact nodup_typeNames_append.2 ⟨hBefore, hNew⟩

end Hierarchy

end Ancestry
