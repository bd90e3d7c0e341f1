import Ancestry.Hierarchy
import Ancestry.Proofs.Results
import Ancestry.Policy

/-! What the relations of a loaded file have in common. Main statement: the predeclared types keep
their kinds and parents, and nothing but interfaces is listed among the interfaces of a type
(`Hierarchy.ordinary_of_load`). -/
namespace Ancestry

/-- The types with a role of their own are fit for it, and whatever a type lists among its
interfaces is one. -/
structure Relations.Ordinary (relations : Relations) : Prop where
  isInterface_root : relations.isInterface relations.root = false
  isInterface_marker : ∀ marker ∈ [relations.serializable, relations.cloneable],
    relations.isInterface marker = true
  superclass?_marker : ∀ marker ∈ [relations.serializable, relations.cloneable],
    relations.superclass? marker = none
  interfaces_marker : ∀ marker ∈ [relations.serializable, relations.cloneable],
    relations.interfaces marker = []
  markers_ne : relations.serializable ≠ relations.cloneable
  isInterface_of_mem : ∀ id, ∀ parent ∈ relations.interfaces id,
    relations.isInterface parent = true

theorem ClassId.index_ne {id other : ClassId} (hId : id.isPredeclared = false)
    (hOther : other.isPredeclared = true) : id.index ≠ other.index := by
  intro hSame
  rw [isPredeclared, hSame] at hId
  rw [isPredeclared, hId] at hOther
  cases hOther

/-- A declaration whose parents are not known yet. A class extends the root. -/
def Entry.bare (kind : Kind) (name : String) : Entry where
  name := name
  kind := kind
  superclass := match kind with
    | .classType => some .object
    | .interfaceType => none
  interfaces := []

namespace Catalog

variable {catalog : Catalog} {id other : ClassId}

theorem declare_eq (catalog : Catalog) (kind : Kind) (name : String) :
    catalog.declare kind name = catalog.add (.bare kind name) := by
  cases kind <;> rfl

theorem entry?_add (catalog : Catalog) (entry : Entry) (id : ClassId) :
    Catalog.entry? (catalog.add entry).1 id =
      if id.index = catalog.size then some entry else catalog.entry? id :=
  Array.getElem?_push

theorem size_add (catalog : Catalog) (entry : Entry) :
    (catalog.add entry).1.size = catalog.size + 1 :=
  Array.size_push _

/-- Another declaration of a name comes last. -/
@[simp] theorem lookupAll_add (catalog : Catalog) (entry : Entry) (name : String) :
    (catalog.add entry).1.lookupAll name =
      if entry.name = name then catalog.lookupAll name ++ [⟨catalog.size⟩]
      else catalog.lookupAll name := by
  rw [lookupAll, add, Std.HashMap.getD_insert]
  by_cases hName : entry.name = name <;> simp [hName, lookupAll]

@[simp] theorem lookupAll_empty (name : String) : (⟨#[], ∅⟩ : Catalog).lookupAll name = [] := by
  simp [lookupAll]

theorem entry?_setSuperclass (catalog : Catalog) (id : ClassId) (superclass : Option ClassId)
    (other : ClassId) : Catalog.entry? (catalog.setSuperclass id superclass) other =
      if id.index = other.index then
        (catalog.entry? other).map fun entry =>
          match entry.kind with
          | .classType => { entry with superclass }
          | .interfaceType => entry
      else catalog.entry? other :=
  Array.getElem?_modify

theorem entry?_setInterfaces (catalog : Catalog) (id : ClassId) (interfaces : List ClassId)
    (other : ClassId) : Catalog.entry? (catalog.setInterfaces id interfaces) other =
      if id.index = other.index then
        (catalog.entry? other).map fun entry => { entry with interfaces }
      else catalog.entry? other :=
  Array.getElem?_modify

/-- Parents change nothing about kinds. -/
theorem kind?_setSuperclass (catalog : Catalog) (id : ClassId) (superclass : Option ClassId)
    (other : ClassId) :
    (catalog.setSuperclass id superclass).kind? other = catalog.kind? other := by
  rw [kind?, entry?_setSuperclass, kind?]
  split
  · rw [Option.map_map]
    refine Option.map_congr fun entry _ => ?_
    simp only [Function.comp_apply]
    split <;> rfl
  · rfl

theorem kind?_setInterfaces (catalog : Catalog) (id : ClassId) (interfaces : List ClassId)
    (other : ClassId) :
    (catalog.setInterfaces id interfaces).kind? other = catalog.kind? other := by
  rw [kind?, entry?_setInterfaces, kind?]
  split
  · rw [Option.map_map]
    rfl
  · rfl

theorem interfaces_setSuperclass (catalog : Catalog) (id : ClassId)
    (superclass : Option ClassId) (other : ClassId) :
    (catalog.setSuperclass id superclass).interfaces other = catalog.interfaces other := by
  rw [interfaces, entry?_setSuperclass, interfaces]
  by_cases hSame : id.index = other.index
  · rw [if_pos hSame]
    cases catalog.entry? other with
    | none => rfl
    | some entry =>
        simp only [Option.map_some]
        cases entry.kind <;> rfl
  · rw [if_neg hSame]

theorem mem_interfaces_setInterfaces {interfaces : List ClassId} {parent : ClassId}
    (h : parent ∈ (catalog.setInterfaces id interfaces).interfaces other) :
    parent ∈ interfaces ∨ parent ∈ catalog.interfaces other := by
  rw [Catalog.interfaces, entry?_setInterfaces] at h
  by_cases hSame : id.index = other.index
  · rw [if_pos hSame] at h
    cases hEntry : catalog.entry? other with
    | none =>
        rw [hEntry] at h
        cases h
    | some entry =>
        rw [hEntry] at h
        exact .inl h
  · rw [if_neg hSame] at h
    exact .inr h

theorem interfaces_add_eq_nil {entry : Entry} (h : ∀ id, catalog.interfaces id = [])
    (hEntry : entry.interfaces = []) (id : ClassId) :
    (catalog.add entry).1.interfaces id = [] := by
  rw [interfaces, entry?_add]
  by_cases hLast : id.index = catalog.size
  · rw [if_pos hLast]
    exact hEntry
  · rw [if_neg hLast]
    exact h id

/-- The predeclared types are as they were at the beginning. -/
def KeepsPredeclared (catalog : Catalog) : Prop :=
  ∀ id : ClassId, id.isPredeclared = true → catalog.entry? id = initial.entry? id

theorem KeepsPredeclared.kind?_eq (h : catalog.KeepsPredeclared)
    (hId : id.isPredeclared = true) : catalog.kind? id = initial.kind? id := by
  rw [kind?, h id hId, kind?]

end Catalog

namespace Hierarchy

open Catalog (KeepsPredeclared)

/-- What holds while the declarations get their names: nothing has a parent among the interfaces
yet, and no predeclared type is declared again. -/
structure Names.Sound (names : Names) : Prop where
  predeclared : names.catalog.KeepsPredeclared
  size_le : ClassId.predeclaredCount ≤ names.catalog.size
  interfaces_eq : ∀ id, names.catalog.interfaces id = []
  accepted : ∀ named ∈ names.accepted, named.1.isPredeclared = false

theorem Names.sound_initial : Names.initial.Sound where
  predeclared := fun _ _ => rfl
  size_le := by decide
  interfaces_eq := by
    refine Catalog.interfaces_add_eq_nil (Catalog.interfaces_add_eq_nil
      (Catalog.interfaces_add_eq_nil (fun id => ?_) rfl) rfl) rfl
    simp [Catalog.interfaces, Catalog.entry?]
  accepted := by simp [Names.initial]

theorem Names.add_of_new {names : Names} {declaration : Declaration}
    (h : names.catalog.lookup? declaration.name = none) :
    names.add declaration =
      ⟨(names.catalog.declare declaration.kind declaration.name).1,
        names.lines.push declaration.line,
        names.accepted.push
          ((names.catalog.declare declaration.kind declaration.name).2, declaration),
        names.errors⟩ := by
  rw [add, h]

theorem Names.Sound.add {names : Names} (h : names.Sound) (declaration : Declaration) :
    (names.add declaration).Sound := by
  rw [Names.add]
  split
  · exact ⟨h.predeclared, h.size_le, h.interfaces_eq, h.accepted⟩
  · have hSize := h.size_le
    rw [Catalog.declare_eq]
    refine ⟨fun id hId => ?_, ?_, Catalog.interfaces_add_eq_nil h.interfaces_eq rfl, ?_⟩
    · have hIndex : id.index < ClassId.predeclaredCount := by
        simpa [ClassId.isPredeclared] using hId
      rw [Catalog.entry?_add, if_neg (by omega)]
      exact h.predeclared id hId
    · rw [Catalog.size_add]
      omega
    · intro named hNamed
      rcases Array.mem_push.1 hNamed with hOld | rfl
      · exact h.accepted named hOld
      · exact decide_eq_false (Nat.not_lt.2 hSize)

theorem kind?_of_resolveName {catalog : Catalog} {line : Nat} {expected : Kind} {name : String}
    {id : ClassId} (h : resolveName catalog line expected name = .ok id) :
    catalog.kind? id = some expected := by
  unfold resolveName at h
  split at h
  · cases h
  · split at h
    · rename_i hKind
      cases h
      exact hKind
    · cases h

/-- All that a declaration gets for interfaces are interfaces. -/
theorem kind?_of_resolveInterfaces {catalog : Catalog} {declaration : Declaration}
    {seen : List ClassId} {names : List String} {resolved : List ClassId × List Warning}
    (h : resolveInterfaces catalog declaration seen names = .ok resolved) :
    ∀ id ∈ resolved.1, catalog.kind? id = some .interfaceType := by
  induction names generalizing seen resolved with
  | nil =>
      cases h
      simp
  | cons name rest ih =>
      rw [resolveInterfaces] at h
      obtain ⟨id, hName, h⟩ := bind_eq_ok_iff.1 h
      split at h
      · obtain ⟨others, hOthers, h⟩ := bind_eq_ok_iff.1 h
        obtain rfl := Except.ok.inj h
        have hRest := ih hOthers
        exact hRest
      · obtain ⟨others, hOthers, h⟩ := bind_eq_ok_iff.1 h
        cases h
        intro other hOther
        rcases List.mem_cons.1 hOther with rfl | hOther
        · exact kind?_of_resolveName hName
        · exact ih hOthers other hOther

theorem kind?_of_resolveParents {catalog : Catalog} {declaration : Declaration}
    {parents : Parents} (h : resolveParents catalog declaration = .ok parents) :
    ∀ id ∈ parents.interfaces, catalog.kind? id = some .interfaceType := by
  obtain ⟨superclass, _, h⟩ := bind_eq_ok_iff.1 h
  obtain ⟨others, hOthers, h⟩ := bind_eq_ok_iff.1 h
  cases h
  exact kind?_of_resolveInterfaces hOthers

/-- What holds while the declarations get their parents, given the catalog with their names. -/
structure Resolved (named catalog : Catalog) : Prop where
  predeclared : catalog.KeepsPredeclared
  kind?_eq : ∀ id, catalog.kind? id = named.kind? id
  interfaces : ∀ id, ∀ parent ∈ catalog.interfaces id,
    named.kind? parent = some .interfaceType

theorem Resolved.setSuperclass {named catalog : Catalog} {id : ClassId}
    (h : Resolved named catalog) (hId : id.isPredeclared = false) (superclass : Option ClassId) :
    Resolved named (catalog.setSuperclass id superclass) where
  predeclared := by
    intro other hOther
    rw [Catalog.entry?_setSuperclass, if_neg (ClassId.index_ne hId hOther)]
    exact h.predeclared other hOther
  kind?_eq := fun other => (Catalog.kind?_setSuperclass catalog id superclass other).trans
    (h.kind?_eq other)
  interfaces := by
    intro other
    rw [Catalog.interfaces_setSuperclass]
    exact h.interfaces other

theorem Resolved.setInterfaces {named catalog : Catalog} {id : ClassId} {interfaces : List ClassId}
    (h : Resolved named catalog) (hId : id.isPredeclared = false)
    (hInterfaces : ∀ parent ∈ interfaces, named.kind? parent = some .interfaceType) :
    Resolved named (catalog.setInterfaces id interfaces) where
  predeclared := by
    intro other hOther
    rw [Catalog.entry?_setInterfaces, if_neg (ClassId.index_ne hId hOther)]
    exact h.predeclared other hOther
  kind?_eq := fun other => (Catalog.kind?_setInterfaces catalog id interfaces other).trans
    (h.kind?_eq other)
  interfaces := fun other parent hParent =>
    (Catalog.mem_interfaces_setInterfaces hParent).elim (hInterfaces parent)
      (h.interfaces other parent)

theorem Resolved.setParents {named catalog : Catalog} {id : ClassId} {parents : Parents}
    (h : Resolved named catalog) (hId : id.isPredeclared = false)
    (hParents : ∀ parent ∈ parents.interfaces, named.kind? parent = some .interfaceType) :
    Resolved named (setParents catalog id parents) := by
  unfold Hierarchy.setParents
  refine Resolved.setInterfaces ?_ hId hParents
  cases parents.superclass with
  | none => exact h
  | some superclass => exact h.setSuperclass hId _

theorem Resolved.ordinary {named catalog : Catalog} (h : Resolved named catalog) :
    catalog.relations.Ordinary where
  isInterface_root := by
    have hKind : catalog.kind? .object = some .classType := h.predeclared.kind?_eq rfl
    simp [Catalog.relations, Catalog.isInterface, hKind]
  isInterface_marker := by
    have hSerializable : catalog.kind? .serializable = some .interfaceType :=
      h.predeclared.kind?_eq rfl
    have hCloneable : catalog.kind? .cloneable = some .interfaceType := h.predeclared.kind?_eq rfl
    simp [Catalog.relations, Catalog.isInterface, hSerializable, hCloneable]
  superclass?_marker := by
    have hSerializable : catalog.entry? .serializable = _ := h.predeclared .serializable rfl
    have hCloneable : catalog.entry? .cloneable = _ := h.predeclared .cloneable rfl
    simp only [Catalog.relations, Catalog.superclass?, List.mem_cons, List.not_mem_nil, or_false,
      forall_eq_or_imp, forall_eq, hSerializable, hCloneable]
    exact ⟨rfl, rfl⟩
  interfaces_marker := by
    have hSerializable : catalog.entry? .serializable = _ := h.predeclared .serializable rfl
    have hCloneable : catalog.entry? .cloneable = _ := h.predeclared .cloneable rfl
    simp only [Catalog.relations, Catalog.interfaces, List.mem_cons, List.not_mem_nil, or_false,
      forall_eq_or_imp, forall_eq, hSerializable, hCloneable]
    exact ⟨rfl, rfl⟩
  markers_ne := by
    change ClassId.serializable ≠ ClassId.cloneable
    decide
  isInterface_of_mem := by
    intro id parent hParent
    have hKind := (h.kind?_eq parent).trans (h.interfaces id parent hParent)
    simp [Catalog.relations, Catalog.isInterface, hKind]

theorem Names.Sound.resolved {names : Names} (h : names.Sound) :
    Resolved names.catalog names.catalog where
  predeclared := h.predeclared
  kind?_eq := fun _ => rfl
  interfaces := by simp [h.interfaces_eq]

/-- The relations are ordinary when all declarations have got their parents. -/
theorem Names.Sound.ordinary {names : Names} (h : names.Sound) :
    (((names.accepted.toList.map (·.1)).zip (successes (names.accepted.toList.map
      fun (_, declaration) => resolveParents names.catalog declaration))).foldl
        (fun catalog (id, parents) => setParents catalog id parents)
          names.catalog).relations.Ordinary := by
  refine Resolved.ordinary (List.foldlRecOn _ _ h.resolved
    fun catalog hCatalog (id, parents) hGiven => ?_)
  obtain ⟨hId, hParents⟩ := List.of_mem_zip hGiven
  obtain ⟨named, hNamed, hSame⟩ := List.mem_map.1 hId
  obtain ⟨_, _, hFound⟩ := List.mem_map.1 (mem_of_successes hParents)
  rw [← hSame]
  exact hCatalog.setParents (h.accepted named (Array.mem_toList_iff.1 hNamed))
    (kind?_of_resolveParents hFound)

/-- The relations of a loaded file are ordinary, whatever it declares. -/
theorem ordinary_of_load {source : String} {hierarchy : Hierarchy}
    (h : load source = .ok hierarchy) : hierarchy.catalog.relations.Ordinary := by
  have hNames : (((successes (readSource source)).filterMap id).foldl Names.add
      Names.initial).Sound :=
    List.foldlRecOn _ Names.add Names.sound_initial fun _ hSound declaration _ =>
      hSound.add declaration
  rw [load] at h
  split at h
  · rw [← Except.ok.inj h]
    dsimp only
    exact hNames.ordinary
  · cases h

end Hierarchy

end Ancestry
