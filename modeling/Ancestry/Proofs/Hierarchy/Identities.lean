import Ancestry.Proofs.Hierarchy.Meaning
import Ancestry.Proofs.Parents

/-! The identities of a loaded hierarchy. Main statements: they have different names
(`Hierarchy.Means.eq_of_className`), and whatever is an ancestor of a type of the file is a type of
the file or predeclared (`Hierarchy.Means.exists_of_reaches`). -/
namespace Ancestry.Hierarchy

variable {declarations : List Declaration} {hierarchy : Hierarchy} {id other : ClassId}
  {policy : Policy}

/-- The identity belongs to a predeclared type or to one of the declarations. -/
def IsKnown (declarations : List Declaration) (id : ClassId) : Prop :=
  id.index < 3 + declarations.length

theorem isKnown_of_idNamed? {name : String} (h : idNamed? declarations name = some id) :
    IsKnown declarations id := by
  obtain ⟨place, hPlace, rfl⟩ := Option.map_eq_some_iff.1 h
  obtain ⟨hLength, _⟩ := List.idxOf?_eq_some_iff.1 hPlace
  rwa [typeNames, List.length_map, length_types] at hLength

theorem isKnown_of_isPredeclared (hId : id.isPredeclared = true) : IsKnown declarations id :=
  Nat.lt_of_lt_of_le (of_decide_eq_true hId) (Nat.le_add_right 3 _)

/-- An identity is predeclared, that of a declaration, or unused. -/
theorem cases_id (declarations : List Declaration) (id : ClassId) :
    id.isPredeclared = true ∨
      (∃ place declaration, declarations[place]? = some declaration ∧ id = ⟨3 + place⟩) ∨
      ¬IsKnown declarations id := by
  obtain ⟨index⟩ := id
  by_cases hFirst : index < 3
  · exact .inl (decide_eq_true hFirst)
  · by_cases hKnown : index < 3 + declarations.length
    · have hPlace : index - 3 < declarations.length := by omega
      refine .inr (.inl ⟨index - 3, _, List.getElem?_eq_getElem hPlace, ?_⟩)
      congr 1
      omega
    · exact .inr (.inr hKnown)

theorem typeNames_getElem?_declared {place : Nat} {declaration : Declaration}
    (hPlace : declarations[place]? = some declaration) :
    (typeNames declarations)[3 + place]? = some declaration.name := by
  have hLength : predeclared.length ≤ 3 + place := Nat.le_add_right 3 place
  rw [typeNames, types, List.getElem?_map, List.getElem?_append_right hLength, List.getElem?_map]
  simp [predeclared, hPlace]

namespace Means

variable (h : Means declarations hierarchy)
include h

theorem entry?_of_not_known (hId : ¬IsKnown declarations id) :
    hierarchy.catalog.entry? id = none := by
  apply Array.getElem?_eq_none
  have hSize := h.size_eq
  rw [Catalog.size] at hSize
  rw [IsKnown] at hId
  omega

theorem mem_declared_iff :
    id ∈ hierarchy.declared ↔ IsKnown declarations id ∧ id.isPredeclared = false := by
  rw [h.declared, IsKnown]
  constructor
  · intro hMem
    obtain ⟨place, hPlace, rfl⟩ := List.mem_map.1 hMem
    have hLength := List.mem_range.1 hPlace
    exact ⟨by dsimp only; omega, decide_eq_false (by dsimp only [ClassId.predeclaredCount]; omega)⟩
  · rintro ⟨hKnown, hUser⟩
    have hIndex : 3 ≤ id.index := Nat.le_of_not_lt (of_decide_eq_false hUser)
    refine List.mem_map.2 ⟨id.index - 3, List.mem_range.2 (by omega), ?_⟩
    rw [Nat.add_sub_cancel' hIndex]

theorem isKnown_superclass (hParent : hierarchy.catalog.superclass? id = some other) :
    IsKnown declarations other := by
  rcases cases_id declarations id with hFirst | ⟨place, declaration, hPlace, rfl⟩ | hUnknown
  · rw [(h.unrelated id hFirst).1] at hParent
    cases hParent
  · rw [(h.reflects place declaration hPlace).superclass] at hParent
    split at hParent
    · cases hParent
    · cases hParent
      exact isKnown_of_isPredeclared rfl
    · exact isKnown_of_idNamed? hParent
  · rw [Catalog.superclass?, h.entry?_of_not_known hUnknown] at hParent
    cases hParent

theorem isKnown_interface (hParent : other ∈ hierarchy.catalog.interfaces id) :
    IsKnown declarations other := by
  rcases cases_id declarations id with hFirst | ⟨place, declaration, hPlace, rfl⟩ | hUnknown
  · rw [(h.unrelated id hFirst).2] at hParent
    cases hParent
  · have hSome := List.mem_map_of_mem (f := some) hParent
    rw [(h.reflects place declaration hPlace).interfaces] at hSome
    obtain ⟨name, _, hName⟩ := List.mem_map.1 hSome
    exact isKnown_of_idNamed? hName
  · rw [Catalog.interfaces, h.entry?_of_not_known hUnknown] at hParent
    cases hParent

theorem isKnown_parent
    (hParent : other ∈ policy.classParents hierarchy.catalog.relations id) :
    IsKnown declarations other := by
  rcases Policy.mem_classParents hParent with rfl | hSuperclass | hInterface
  · exact isKnown_of_isPredeclared rfl
  · exact h.isKnown_superclass hSuperclass
  · exact h.isKnown_interface hInterface

/-- The ancestors of a known type are known types. -/
theorem exists_of_reaches (hId : IsKnown declarations id) {ancestor : Node}
    (hReaches : Reaches (policy.parents hierarchy.catalog.relations) (.ofClass id) ancestor) :
    ∃ other, ancestor = .ofClass other ∧ IsKnown declarations other := by
  induction hReaches with
  | refl => exact ⟨id, rfl, hId⟩
  | tail _ hParent ih =>
      obtain ⟨child, rfl, _⟩ := ih
      rw [DirectParent, Policy.parents_ofClass] at hParent
      obtain ⟨parent, hMem, rfl⟩ := List.mem_map.1 hParent
      exact ⟨parent, rfl, h.isKnown_parent hMem⟩

/-- The predeclared types have linearizations, whatever else is declared. -/
theorem exists_linearizes_predeclared (hId : id.isPredeclared = true) :
    ∃ order, Linearizes (policy.parents hierarchy.catalog.relations) (.ofClass id) order := by
  obtain ⟨hSuperclass, hInterfaces⟩ := h.unrelated id hId
  have hRoot : Linearizes (policy.parents hierarchy.catalog.relations) (.ofClass .object)
      ⟨.ofClass .object, []⟩ := by
    apply Linearizes.of_no_parents
    rw [Policy.parents_ofClass]
    exact congrArg _ (Policy.classParents_root policy hierarchy.catalog.relations)
  have hParents : policy.classParents hierarchy.catalog.relations id = [] ∨
      policy.classParents hierarchy.catalog.relations id = [.object] :=
    Policy.classParents_of_unrelated hSuperclass hInterfaces
  rcases hParents with hNone | hOnly
  · exact ⟨_, .of_no_parents (by rw [Policy.parents_ofClass, hNone]; rfl)⟩
  · exact ⟨_, .of_only_parent (by rw [Policy.parents_ofClass, hOnly]; rfl) hRoot⟩

/-- The name of a type is found at the place that its identity says. -/
theorem typeNames_getElem?_eq (hId : IsKnown declarations id) :
    (typeNames declarations)[id.index]? = some (hierarchy.catalog.className id) := by
  rcases cases_id declarations id with hFirst | ⟨place, declaration, hPlace, rfl⟩ | hUnknown
  · rw [Catalog.className, h.entry?_predeclared id hFirst]
    rcases cases_predeclared hFirst with rfl | rfl | rfl <;> rfl
  · rw [(h.reflects place declaration hPlace).name]
    exact typeNames_getElem?_declared hPlace
  · exact absurd hId hUnknown

/-- Types with one name are one type. -/
theorem eq_of_className (hDistinct : (typeNames declarations).Nodup)
    (hId : IsKnown declarations id) (hOther : IsKnown declarations other)
    (hSame : hierarchy.catalog.className id = hierarchy.catalog.className other) : id = other := by
  have hFound := (idNamed?_eq_some_iff hDistinct).2 (h.typeNames_getElem?_eq hId)
  have hOtherFound := (idNamed?_eq_some_iff hDistinct).2 (h.typeNames_getElem?_eq hOther)
  rw [hSame, hOtherFound] at hFound
  exact (Option.some.inj hFound).symm

end Means

section

variable (hMeans : Means tangledDeclarations hierarchy)
include hMeans

/-- The parents of the types of `tangledSource`, in its order. -/
theorem parents_tangled :
    let parents := Policy.superclassFirst.parents hierarchy.catalog.relations
    parents (.ofClass ⟨3⟩) = [.ofClass ⟨6⟩] ∧
      parents (.ofClass ⟨4⟩) = [.object] ∧
      parents (.ofClass ⟨5⟩) = [.ofClass ⟨4⟩] ∧
      parents (.ofClass ⟨6⟩) = [.ofClass ⟨4⟩, .ofClass ⟨5⟩, .object] := by
  have hSub := hMeans.reflects 0 _ rfl
  have hFirst := hMeans.reflects 1 _ rfl
  have hExtends := hMeans.reflects 2 _ rfl
  have hMix := hMeans.reflects 3 _ rfl
  have hSubInterfaces : hierarchy.catalog.interfaces ⟨3⟩ = [] := hSub.interfaces_eq rfl
  have hFirstInterfaces : hierarchy.catalog.interfaces ⟨4⟩ = [] := hFirst.interfaces_eq rfl
  have hExtended : hierarchy.catalog.interfaces ⟨5⟩ = [⟨4⟩] := hExtends.interfaces_eq rfl
  have hListed : hierarchy.catalog.interfaces ⟨6⟩ = [⟨4⟩, ⟨5⟩] := hMix.interfaces_eq rfl
  have hSubclass : hierarchy.catalog.superclass? ⟨3⟩ = some ⟨6⟩ := hSub.superclass
  have hFirstNone : hierarchy.catalog.superclass? ⟨4⟩ = none := hFirst.superclass
  have hNone : hierarchy.catalog.superclass? ⟨5⟩ = none := hExtends.superclass
  have hObject : hierarchy.catalog.superclass? ⟨6⟩ = some .object := hMix.superclass
  simp [Policy.classParents, Catalog.relations, Policy.interfacesOrRoot, ClassId.object,
    Node.object, *]

/-- The second interface of that file extends the first one. -/
theorem orders_tangled :
    let parents := Policy.superclassFirst.parents hierarchy.catalog.relations
    Linearizes parents .object ⟨.object, []⟩ ∧
      Linearizes parents (.ofClass ⟨4⟩) ⟨.ofClass ⟨4⟩, [.object]⟩ ∧
      Linearizes parents (.ofClass ⟨5⟩) ⟨.ofClass ⟨5⟩, [.ofClass ⟨4⟩, .object]⟩ := by
  intro parents
  obtain ⟨_, hFirst, hExtends, _⟩ := parents_tangled hMeans
  have hRoot : Linearizes parents .object ⟨.object, []⟩ := .of_no_parents rfl
  have hExtended : Linearizes parents (.ofClass ⟨4⟩) ⟨.ofClass ⟨4⟩, [.object]⟩ :=
    .of_only_parent hFirst hRoot
  exact ⟨hRoot, hExtended, .of_only_parent hExtends hExtended⟩

end

end Ancestry.Hierarchy
