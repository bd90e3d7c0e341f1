import Ancestry.Proofs.Hierarchy.Resolution

/-! The second pass over a hierarchy file where it fails. Main statement: a declaration fails with
what is wrong with the first of its parents that is not the name of a type of the right kind
(`Hierarchy.resolveParents_eq_error_iff`). -/
namespace Ancestry

/-- The parents that a declaration names, in its order, with the kinds that they must have. -/
def Declaration.parents (declaration : Declaration) : List (String × Kind) :=
  declaration.superclass.toList.map (·, .classType) ++
    declaration.interfaces.map (·, .interfaceType)

namespace Hierarchy

variable {declarations : List Declaration} {declaration : Declaration} {names : Names}
  {name : String} {kind : Kind} {parent : String × Kind} {line : Nat} {error : Error}

/-- What is wrong with the name of a parent that must have a kind, if anything is. -/
def faultOf? (declarations : List Declaration) (line : Nat) (parent : String × Kind) :
    Option Error :=
  if parent ∈ types declarations then none
  else if parent.1 ∈ typeNames declarations then some (.wrongKind line parent.1 parent.2)
  else some (.unknownType line parent.1)

theorem faultOf?_eq_none_iff :
    faultOf? declarations line parent = none ↔ parent ∈ types declarations := by
  unfold faultOf?
  by_cases hParent : parent ∈ types declarations
  · simp [hParent]
  · by_cases hName : parent.1 ∈ typeNames declarations <;> simp [hParent, hName]

theorem faultOf?_eq_some_iff : faultOf? declarations line parent = some error ↔
    parent ∉ types declarations ∧
      (parent.1 ∈ typeNames declarations ∧ error = .wrongKind line parent.1 parent.2 ∨
        parent.1 ∉ typeNames declarations ∧ error = .unknownType line parent.1) := by
  unfold faultOf?
  by_cases hParent : parent ∈ types declarations
  · simp [hParent]
  · by_cases hName : parent.1 ∈ typeNames declarations <;> simp [hParent, hName, eq_comm]

theorem line_of_faultOf? (h : faultOf? declarations line parent = some error) :
    error.line = line := by
  obtain ⟨_, ⟨_, rfl⟩ | ⟨_, rfl⟩⟩ := faultOf?_eq_some_iff.1 h <;> rfl

/-- A name that does not resolve has something wrong with it, and this is the error. -/
theorem resolveName_eq_error_iff (h : Named declarations names)
    (hDistinct : (typeNames declarations).Nodup) :
    resolveName names.catalog line kind name = .error error ↔
      faultOf? declarations line (name, kind) = some error := by
  by_cases hType : (name, kind) ∈ types declarations
  · obtain ⟨place, hPlace⟩ := List.mem_iff_getElem?.1 hType
    have hOk : resolveName names.catalog line kind name = .ok ⟨place⟩ :=
      (resolveName_eq_ok_iff h hDistinct).2 hPlace
    rw [hOk, faultOf?_eq_none_iff.2 hType]
    simp
  · rw [resolveName, faultOf?, if_neg hType]
    cases hLookup : names.catalog.lookup? name with
    | none =>
        have hName : name ∉ typeNames declarations :=
          idNamed?_eq_none_iff.1 ((h.lookup?_eq name).symm.trans hLookup)
        rw [if_neg hName]
        simp
    | some id =>
        have hName : name ∈ typeNames declarations := by
          by_contra hNew
          rw [h.lookup?_eq, idNamed?_eq_none_iff.2 hNew] at hLookup
          cases hLookup
        have hKind : names.catalog.kind? id ≠ some kind := by
          intro hKind
          have hOk : resolveName names.catalog line kind name = .ok id := by
            rw [resolveName, hLookup]
            exact if_pos hKind
          exact hType (List.mem_of_getElem? ((resolveName_eq_ok_iff h hDistinct).1 hOk))
        rw [if_pos hName]
        simp [hKind]

/-- Whether an interface is listed again makes no difference to the errors. -/
theorem resolveInterfaces_eq_error_iff (h : Named declarations names)
    (hDistinct : (typeNames declarations).Nodup) {seen : List ClassId} {listed : List String} :
    resolveInterfaces names.catalog declaration seen listed = .error error ↔
      (listed.map (·, Kind.interfaceType)).findSome? (faultOf? declarations declaration.line) =
        some error := by
  induction listed generalizing seen with
  | nil => simp [resolveInterfaces]
  | cons name listed ih =>
      have hName : ∀ error,
          resolveName names.catalog declaration.line .interfaceType name = .error error ↔
            faultOf? declarations declaration.line (name, .interfaceType) = some error :=
        fun _ => resolveName_eq_error_iff h hDistinct
      rw [resolveInterfaces, bind_eq_error_iff, List.map_cons, ← List.singleton_append,
        List.findSome?_append, Option.or_eq_some_iff, List.findSome?_singleton, ← hName,
        ← exists_eq_ok_iff_of_error hName, ← exists_and_right]
      refine or_congr_right (exists_congr fun id => and_congr_right fun _ => ?_)
      split
      · rw [bind_eq_error_iff, ih]
        simp [pure, Except.pure]
      · rw [bind_eq_error_iff, ih]
        simp [pure, Except.pure]

theorem resolveSuperclass_eq_error_iff (h : Named declarations names)
    (hDistinct : (typeNames declarations).Nodup) :
    resolveSuperclass names.catalog declaration = .error error ↔
      (declaration.superclass.toList.map (·, Kind.classType)).findSome?
        (faultOf? declarations declaration.line) = some error := by
  rw [resolveSuperclass]
  cases declaration.superclass with
  | none => simp
  | some name =>
      rw [map_eq_error_iff, resolveName_eq_error_iff h hDistinct]
      simp

/-- A declaration fails with the first of its parents that something is wrong with. -/
theorem resolveParents_eq_error_iff (h : Named declarations names)
    (hDistinct : (typeNames declarations).Nodup) :
    resolveParents names.catalog declaration = .error error ↔
      ∃ before parent after, declaration.parents = before ++ parent :: after ∧
        faultOf? declarations declaration.line parent = some error ∧
        ∀ other ∈ before, other ∈ types declarations := by
  have hFirst : resolveParents names.catalog declaration = .error error ↔
      declaration.parents.findSome? (faultOf? declarations declaration.line) = some error := by
    have hSuperclass : ∀ error,
        resolveSuperclass names.catalog declaration = .error error ↔
          (declaration.superclass.toList.map (·, Kind.classType)).findSome?
            (faultOf? declarations declaration.line) = some error :=
      fun _ => resolveSuperclass_eq_error_iff h hDistinct
    rw [resolveParents, bind_eq_error_iff, Declaration.parents, List.findSome?_append,
      Option.or_eq_some_iff, ← hSuperclass, ← exists_eq_ok_iff_of_error hSuperclass,
      ← exists_and_right]
    refine or_congr_right (exists_congr fun superclass => and_congr_right fun _ => ?_)
    rw [bind_eq_error_iff, resolveInterfaces_eq_error_iff h hDistinct]
    simp [pure, Except.pure]
  simp only [hFirst, List.findSome?_eq_some_iff, faultOf?_eq_none_iff]

end Hierarchy

end Ancestry
