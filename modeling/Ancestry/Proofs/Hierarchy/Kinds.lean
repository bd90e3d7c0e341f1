import Ancestry.Proofs.Hierarchy.Identities

/-! The kinds of the parents in a loaded hierarchy. Main statement: only classes have superclasses,
these are classes, and no type lists an interface twice (`Hierarchy.wellKinded_of_load`). -/
namespace Ancestry

theorem nodup_eraseDups {α : Type} [DecidableEq α] : ∀ list : List α, list.eraseDups.Nodup
  | [] => List.nodup_nil
  | first :: rest => by
      rw [List.eraseDups_cons, List.nodup_cons, List.mem_eraseDups]
      exact ⟨by simp, nodup_eraseDups _⟩
termination_by list => list.length
decreasing_by exact Nat.lt_succ_of_le (List.length_filter_le ..)

/-- The superclass of a type is the class that a class extends, and its interfaces are different
from each other. -/
structure Relations.WellKinded (relations : Relations) : Prop where
  superclass?_interface : ∀ id, relations.isInterface id = true → relations.superclass? id = none
  isInterface_superclass : ∀ id parent, relations.superclass? id = some parent →
    relations.isInterface parent = false
  nodup_interfaces : ∀ id, (relations.interfaces id).Nodup

namespace Hierarchy

variable {declarations : List Declaration} {hierarchy : Hierarchy} {id other : ClassId}

namespace Means

variable (h : Means declarations hierarchy)
include h

/-- The kind of a type is that of its declaration. -/
theorem kind?_eq (id : ClassId) :
    hierarchy.catalog.kind? id = (types declarations)[id.index]?.map Prod.snd := by
  rcases cases_id declarations id with hFirst | ⟨place, declaration, hPlace, rfl⟩ | hUnknown
  · rw [Catalog.kind?, h.entry?_predeclared id hFirst]
    rcases cases_predeclared hFirst with rfl | rfl | rfl <;> rfl
  · have hLength : predeclared.length ≤ 3 + place := Nat.le_add_right 3 place
    rw [(h.reflects place declaration hPlace).kind, types, List.getElem?_append_right hLength,
      List.getElem?_map]
    simp [predeclared, hPlace]
  · have hLength : (types declarations).length ≤ id.index := by
      rw [length_types]
      exact Nat.le_of_not_lt hUnknown
    rw [Catalog.kind?, h.entry?_of_not_known hUnknown, List.getElem?_eq_none hLength]
    rfl

theorem superclass?_of_isInterface (hId : hierarchy.catalog.isInterface id = true) :
    hierarchy.catalog.superclass? id = none := by
  have hKind : hierarchy.catalog.kind? id = some .interfaceType := beq_iff_eq.1 hId
  rcases cases_id declarations id with hFirst | ⟨place, declaration, hPlace, rfl⟩ | hUnknown
  · exact (h.unrelated id hFirst).1
  · have hReflects := h.reflects place declaration hPlace
    have hDeclared := Option.some.inj (hReflects.kind.symm.trans hKind)
    rw [hReflects.superclass, hDeclared]
  · rw [Catalog.superclass?, h.entry?_of_not_known hUnknown]
    rfl

theorem kind?_superclass (hCoherent : Coherent declarations)
    (hParent : hierarchy.catalog.superclass? id = some other) :
    hierarchy.catalog.kind? other = some .classType := by
  rcases cases_id declarations id with hFirst | ⟨place, declaration, hPlace, rfl⟩ | hUnknown
  · rw [(h.unrelated id hFirst).1] at hParent
    cases hParent
  · have hKnown := hCoherent.known declaration (List.mem_of_getElem? hPlace)
    rw [(h.reflects place declaration hPlace).superclass] at hParent
    split at hParent
    · cases hParent
    · cases hParent
      rw [h.kind?_eq]
      rfl
    · rename_i name _ hSuperclass
      obtain ⟨index, hIndex⟩ := List.mem_iff_getElem?.1 (hKnown.superclass name hSuperclass)
      have hId : idNamed? declarations name = some ⟨index⟩ :=
        idNamed?_of_getElem? hCoherent.distinct hIndex
      obtain rfl := Option.some.inj (hParent.symm.trans hId)
      rw [h.kind?_eq, hIndex]
      rfl
  · rw [Catalog.superclass?, h.entry?_of_not_known hUnknown] at hParent
    cases hParent

theorem nodup_interfaces (hCoherent : Coherent declarations) (id : ClassId) :
    (hierarchy.catalog.interfaces id).Nodup := by
  rcases cases_id declarations id with hFirst | ⟨place, declaration, hPlace, rfl⟩ | hUnknown
  · rw [(h.unrelated id hFirst).2]
    exact List.nodup_nil
  · have hSame := (h.reflects place declaration hPlace).interfaces
    -- Different names are those of different types.
    refine List.Nodup.of_map some ?_
    rw [hSame]
    refine (nodup_eraseDups _).map_on fun name hName other _ hId => ?_
    have hListed := List.mem_map_of_mem (f := idNamed? declarations) hName
    rw [← hSame] at hListed
    obtain ⟨found, _, hFound⟩ := List.mem_map.1 hListed
    exact eq_of_idNamed? hCoherent.distinct hFound.symm (hId.symm.trans hFound.symm)
  · rw [Catalog.interfaces, h.entry?_of_not_known hUnknown]
    exact List.nodup_nil

end Means

theorem wellKinded_of_load {source : String} (hLoad : load source = .ok hierarchy) :
    hierarchy.catalog.relations.WellKinded := by
  obtain ⟨declarations, _, hCoherent, hMeans⟩ := means_of_load hLoad
  constructor
  · exact fun id => hMeans.superclass?_of_isInterface
  · intro id parent hParent
    have hKind := hMeans.kind?_superclass hCoherent hParent
    simp [Catalog.relations, Catalog.isInterface, hKind]
  · exact hMeans.nodup_interfaces hCoherent

end Hierarchy

end Ancestry
