import Ancestry.Proofs.Hierarchy.Names

/-! The second pass over a hierarchy file, in which its types get their parents. Main statements:
the names of parents are resolved just when each of them is the name of a type of the right kind,
which may be declared later (`Hierarchy.exists_resolveParents_iff`), and every type then gets its
own parents and no others (`Hierarchy.entry?_setAll_of_mem`). -/
namespace Ancestry.Hierarchy

variable {declarations : List Declaration} {declaration : Declaration} {names : Names}
  {name : String} {kind : Kind} {id other : ClassId}

/-- Each name of a parent is that of a type of the right kind. -/
structure ParentsKnown (declarations : List Declaration) (declaration : Declaration) : Prop where
  superclass : ∀ name ∈ declaration.superclass, (name, .classType) ∈ types declarations
  interfaces : ∀ name ∈ declaration.interfaces, (name, .interfaceType) ∈ types declarations

/-- The names that were among some others before or have been listed already. -/
def repeatsAfter (before listed : List String) : List String :=
  (listed.zipIdx.filter fun (name, place) => name ∈ before ++ listed.take place).map Prod.fst

/-- One warning for each interface that the declaration lists again. -/
def repeatWarnings (declaration : Declaration) : List Warning :=
  (repeatsAfter [] declaration.interfaces).map fun name =>
    ⟨declaration.line, declaration.name, name⟩

/-- The parents are those that the declaration names, each interface once. -/
structure IsParents (declarations : List Declaration) (declaration : Declaration)
    (parents : Parents) : Prop where
  superclass : parents.superclass = declaration.superclass.bind (idNamed? declarations)
  interfaces : parents.interfaces.map some =
    declaration.interfaces.eraseDups.map (idNamed? declarations)
  warnings : parents.warnings = repeatWarnings declaration

theorem repeatsAfter_cons (before : List String) (name : String) (listed : List String) :
    repeatsAfter before (name :: listed) =
      if name ∈ before then name :: repeatsAfter (name :: before) listed
      else repeatsAfter (name :: before) listed := by
  have hRest : ((listed.zipIdx 1).filter fun (other, place) =>
      other ∈ before ++ (name :: listed).take place).map Prod.fst =
        repeatsAfter (name :: before) listed := by
    rw [List.zipIdx_succ, List.filter_map, List.map_map, repeatsAfter]
    apply congrArg₂ List.map rfl
    apply List.filter_congr
    rintro ⟨other, place⟩ _
    simp [Bool.or_left_comm]
  rw [← hRest, repeatsAfter, List.zipIdx_cons, List.filter_cons]
  by_cases hName : name ∈ before <;> simp [hName]

theorem eraseDups_filter_cons (before : List String) (name : String) (listed : List String) :
    ((name :: listed).filter (· ∉ before)).eraseDups =
      if name ∈ before then (listed.filter (· ∉ name :: before)).eraseDups
      else name :: (listed.filter (· ∉ name :: before)).eraseDups := by
  by_cases hName : name ∈ before
  · have hSame : listed.filter (· ∉ name :: before) = listed.filter (· ∉ before) := by
      apply List.filter_congr
      intro other _
      by_cases hOther : other = name <;> simp [hOther, hName]
    rw [if_pos hName, hSame, List.filter_cons_of_neg (by simpa using hName)]
  · have hSame : (listed.filter (· ∉ before)).filter (fun other => !other == name) =
        listed.filter (· ∉ name :: before) := by
      rw [List.filter_filter]
      apply List.filter_congr
      intro other _
      by_cases hOther : other = name <;> simp [hOther]
    rw [if_neg hName, List.filter_cons_of_pos (by simpa using hName), List.eraseDups_cons, hSame]

/-- Names resolve to the places of types with the right kind. -/
theorem resolveName_eq_ok_iff (h : Named declarations names)
    (hDistinct : (typeNames declarations).Nodup) {line : Nat} :
    resolveName names.catalog line kind name = .ok id ↔
      (types declarations)[id.index]? = some (name, kind) := by
  have hLookup : ∀ found, names.catalog.lookup? name = some found ↔
      (types declarations)[found.index]?.map Prod.fst = some name := by
    intro found
    rw [h.lookup?_eq, idNamed?_eq_some_iff hDistinct, typeNames, List.getElem?_map]
  rw [resolveName]
  cases hFound : names.catalog.lookup? name with
  | none =>
      constructor
      · intro hOk
        cases hOk
      · intro hPlace
        rw [(hLookup id).2 (by rw [hPlace]; rfl)] at hFound
        cases hFound
  | some found =>
      obtain ⟨⟨_, foundKind⟩, hPlace, rfl⟩ := Option.map_eq_some_iff.1 ((hLookup found).1 hFound)
      have hKind : names.catalog.kind? found = some foundKind := by
        rw [h.kind?_eq, hPlace]
        rfl
      constructor
      · intro hOk
        dsimp only at hOk
        split at hOk
        · rename_i hExpected
          cases hOk
          rw [hPlace, Option.some.inj (hKind.symm.trans hExpected)]
        · cases hOk
      · intro hId
        have hSame := (hLookup id).2 (by rw [hId]; rfl)
        obtain rfl := Option.some.inj (hFound.symm.trans hSame)
        rw [hPlace] at hId
        cases hId
        exact if_pos hKind

theorem idNamed?_of_getElem? (hDistinct : (typeNames declarations).Nodup)
    (h : (types declarations)[id.index]? = some (name, kind)) :
    idNamed? declarations name = some id := by
  rw [idNamed?_eq_some_iff hDistinct, typeNames, List.getElem?_map, h]
  rfl

theorem eq_of_idNamed? {other : String} (hDistinct : (typeNames declarations).Nodup)
    (hName : idNamed? declarations name = some id)
    (hOther : idNamed? declarations other = some id) : name = other := by
  rw [idNamed?_eq_some_iff hDistinct] at hName hOther
  exact Option.some.inj (hName.symm.trans hOther)

/-- The identities are those of the names. -/
def IdsOf (declarations : List Declaration) (ids : List ClassId) (given : List String) : Prop :=
  ∀ name id, idNamed? declarations name = some id → (id ∈ ids ↔ name ∈ given)

theorem idsOf_nil (declarations : List Declaration) : IdsOf declarations [] [] := by
  intro name id _
  simp

/-- A name that is given again adds nothing. -/
theorem IdsOf.again {ids : List ClassId} {given : List String} (h : IdsOf declarations ids given)
    (hGiven : name ∈ given) : IdsOf declarations ids (name :: given) := by
  intro other otherId hOther
  rw [h other otherId hOther, List.mem_cons]
  constructor
  · exact .inr
  · rintro (rfl | hOld)
    · exact hGiven
    · exact hOld

theorem IdsOf.cons {ids : List ClassId} {given : List String} (h : IdsOf declarations ids given)
    (hDistinct : (typeNames declarations).Nodup) (hId : idNamed? declarations name = some id) :
    IdsOf declarations (id :: ids) (name :: given) := by
  intro other otherId hOther
  have hSame : otherId = id ↔ other = name := by
    constructor
    · rintro rfl
      exact eq_of_idNamed? hDistinct hOther hId
    · rintro rfl
      exact Option.some.inj (hOther.symm.trans hId)
  rw [List.mem_cons, List.mem_cons, hSame, h other otherId hOther]

/-- The interfaces that are resolved are the listed ones, each at its first place. -/
theorem exists_resolveInterfaces (h : Named declarations names)
    (hDistinct : (typeNames declarations).Nodup) {seen : List ClassId} {before listed : List String}
    (hSeen : IdsOf declarations seen before)
    (hKnown : ∀ name ∈ listed, (name, .interfaceType) ∈ types declarations) :
    ∃ interfaces,
      resolveInterfaces names.catalog declaration seen listed = .ok (interfaces,
        (repeatsAfter before listed).map fun name =>
          ⟨declaration.line, declaration.name, name⟩) ∧
      interfaces.map some =
        (listed.filter (· ∉ before)).eraseDups.map (idNamed? declarations) := by
  induction listed generalizing seen before with
  | nil => exact ⟨[], rfl, rfl⟩
  | cons name listed ih =>
      obtain ⟨hHere, hRest⟩ := List.forall_mem_cons.1 hKnown
      obtain ⟨place, hPlace⟩ := List.mem_iff_getElem?.1 hHere
      have hResolve : resolveName names.catalog declaration.line .interfaceType name =
          .ok ⟨place⟩ := (resolveName_eq_ok_iff h hDistinct).2 hPlace
      have hId : idNamed? declarations name = some ⟨place⟩ :=
        idNamed?_of_getElem? hDistinct hPlace
      have hMem := hSeen name _ hId
      rw [resolveInterfaces, hResolve, repeatsAfter_cons, eraseDups_filter_cons]
      by_cases hBefore : name ∈ before
      · obtain ⟨interfaces, hOk, hInterfaces⟩ := ih (hSeen.again hBefore) hRest
        refine ⟨interfaces, ?_, ?_⟩
        · change (if _ then _ else _) = _
          rw [if_pos (hMem.2 hBefore), if_pos hBefore, hOk]
          rfl
        · rw [if_pos hBefore, hInterfaces]
      · obtain ⟨interfaces, hOk, hInterfaces⟩ := ih (hSeen.cons hDistinct hId) hRest
        refine ⟨⟨place⟩ :: interfaces, ?_, ?_⟩
        · change (if _ then _ else _) = _
          rw [if_neg (hMem.not.2 hBefore), if_neg hBefore, hOk]
          rfl
        · rw [if_neg hBefore, List.map_cons, List.map_cons, hInterfaces, hId]

/-- Nothing else is resolved. -/
theorem known_of_resolveInterfaces (h : Named declarations names)
    (hDistinct : (typeNames declarations).Nodup) {seen : List ClassId} {listed : List String}
    {resolved : List ClassId × List Warning}
    (hOk : resolveInterfaces names.catalog declaration seen listed = .ok resolved) :
    ∀ name ∈ listed, (name, .interfaceType) ∈ types declarations := by
  induction listed generalizing seen resolved with
  | nil => simp
  | cons name listed ih =>
      rw [resolveInterfaces] at hOk
      obtain ⟨id, hName, hOk⟩ := bind_eq_ok_iff.1 hOk
      have hHere := List.mem_of_getElem? ((resolveName_eq_ok_iff h hDistinct).1 hName)
      split at hOk
      · obtain ⟨others, hOthers, _⟩ := bind_eq_ok_iff.1 hOk
        exact List.forall_mem_cons.2 ⟨hHere, ih hOthers⟩
      · obtain ⟨others, hOthers, _⟩ := bind_eq_ok_iff.1 hOk
        exact List.forall_mem_cons.2 ⟨hHere, ih hOthers⟩

/-- The superclass that is resolved is the one that is named. -/
theorem resolveSuperclass_eq_ok_iff (h : Named declarations names)
    (hDistinct : (typeNames declarations).Nodup) {superclass : Option ClassId} :
    resolveSuperclass names.catalog declaration = .ok superclass ↔
      (∀ name ∈ declaration.superclass, (name, .classType) ∈ types declarations) ∧
        superclass = declaration.superclass.bind (idNamed? declarations) := by
  rw [resolveSuperclass]
  cases declaration.superclass with
  | none => simp [eq_comm]
  | some name =>
      simp only [map_eq_ok_iff, resolveName_eq_ok_iff h hDistinct, Option.mem_def,
        Option.some.injEq, forall_eq', Option.bind_some]
      constructor
      · rintro ⟨id, hPlace, rfl⟩
        exact ⟨List.mem_of_getElem? hPlace, (idNamed?_of_getElem? hDistinct hPlace).symm⟩
      · rintro ⟨hKnown, rfl⟩
        obtain ⟨place, hPlace⟩ := List.mem_iff_getElem?.1 hKnown
        have hId : idNamed? declarations name = some ⟨place⟩ :=
          idNamed?_of_getElem? hDistinct hPlace
        exact ⟨⟨place⟩, hPlace, hId.symm⟩

theorem exists_resolveParents (h : Named declarations names)
    (hDistinct : (typeNames declarations).Nodup) (hKnown : ParentsKnown declarations declaration) :
    ∃ parents, resolveParents names.catalog declaration = .ok parents ∧
      IsParents declarations declaration parents := by
  have hSuperclass := (resolveSuperclass_eq_ok_iff h hDistinct).2 ⟨hKnown.superclass, rfl⟩
  obtain ⟨interfaces, hInterfaces, hSame⟩ :=
    exists_resolveInterfaces h hDistinct (idsOf_nil _) hKnown.interfaces
  refine ⟨⟨_, interfaces, _⟩, ?_, rfl, ?_, rfl⟩
  · rw [resolveParents, hSuperclass]
    change resolveInterfaces _ _ _ _ >>= _ = _
    rw [hInterfaces]
    rfl
  · simpa using hSame

theorem exists_resolveParents_iff (h : Named declarations names)
    (hDistinct : (typeNames declarations).Nodup) :
    (∃ parents, resolveParents names.catalog declaration = .ok parents) ↔
      ParentsKnown declarations declaration := by
  constructor
  · rintro ⟨parents, hOk⟩
    obtain ⟨superclass, hSuperclass, hOk⟩ := bind_eq_ok_iff.1 hOk
    obtain ⟨resolved, hInterfaces, _⟩ := bind_eq_ok_iff.1 hOk
    exact ⟨((resolveSuperclass_eq_ok_iff h hDistinct).1 hSuperclass).1,
      known_of_resolveInterfaces h hDistinct hInterfaces⟩
  · intro hKnown
    obtain ⟨parents, hOk, _⟩ := exists_resolveParents h hDistinct hKnown
    exact ⟨parents, hOk⟩

/-- The entry of a type that has got its parents. A class that names no superclass keeps the one it
has, and so does an interface. -/
def withParents (parents : Parents) (entry : Entry) : Entry :=
  { entry with
    superclass := match entry.kind, parents.superclass with
      | .classType, some superclass => some superclass
      | _, _ => entry.superclass
    interfaces := parents.interfaces }

theorem entry?_setParents (catalog : Catalog) (id : ClassId) (parents : Parents)
    (other : ClassId) : Catalog.entry? (setParents catalog id parents) other =
      if id = other then (catalog.entry? other).map (withParents parents)
      else catalog.entry? other := by
  by_cases hSame : id = other
  · subst hSame
    rw [setParents, Catalog.entry?_setInterfaces, if_pos rfl, if_pos rfl]
    cases parents with
    | mk superclass interfaces warnings =>
        cases superclass with
        | none =>
            apply Option.map_congr
            intro entry _
            cases hKind : entry.kind <;> simp [withParents, hKind]
        | some superclass =>
            dsimp only
            rw [Catalog.entry?_setSuperclass, if_pos rfl, Option.map_map]
            apply Option.map_congr
            intro entry _
            cases hKind : entry.kind <;> simp [withParents, hKind]
  · have hIndex : id.index ≠ other.index := fun h => hSame (congrArg ClassId.mk h)
    rw [setParents, Catalog.entry?_setInterfaces, if_neg hIndex, if_neg hSame]
    cases parents.superclass with
    | none => rfl
    | some superclass =>
        dsimp only
        rw [Catalog.entry?_setSuperclass, if_neg hIndex]

theorem byName_setParents (catalog : Catalog) (id : ClassId) (parents : Parents) :
    (setParents catalog id parents).byName = catalog.byName := by
  unfold setParents
  cases parents.superclass <;> rfl

theorem size_setParents (catalog : Catalog) (id : ClassId) (parents : Parents) :
    (setParents catalog id parents).size = catalog.size := by
  unfold setParents
  cases parents.superclass <;>
    simp [Catalog.size, Catalog.setInterfaces, Catalog.setSuperclass]

/-- Gives several types their parents, one type after the other. -/
def setAll (catalog : Catalog) (given : List (ClassId × Parents)) : Catalog :=
  given.foldl (fun catalog (id, parents) => setParents catalog id parents) catalog

theorem lookup?_setAll (catalog : Catalog) (given : List (ClassId × Parents)) (name : String) :
    (setAll catalog given).lookup? name = catalog.lookup? name := by
  have hByName : (setAll catalog given).byName = catalog.byName := by
    induction given generalizing catalog with
    | nil => rfl
    | cons first rest ih => exact (ih _).trans (byName_setParents ..)
  rw [Catalog.lookup?, Catalog.lookupAll, hByName]
  rfl

theorem size_setAll (catalog : Catalog) (given : List (ClassId × Parents)) :
    (setAll catalog given).size = catalog.size := by
  induction given generalizing catalog with
  | nil => rfl
  | cons first rest ih => exact (ih _).trans (size_setParents ..)

/-- A type that is given no parents stays as it is. -/
theorem entry?_setAll_of_not_mem {catalog : Catalog} {given : List (ClassId × Parents)}
    (h : id ∉ given.map Prod.fst) :
    Catalog.entry? (setAll catalog given) id = catalog.entry? id := by
  induction given generalizing catalog with
  | nil => rfl
  | cons first rest ih =>
      rw [List.map_cons, List.mem_cons, not_or] at h
      change Catalog.entry? (setAll (setParents catalog first.1 first.2) rest) id = _
      rw [ih h.2, entry?_setParents, if_neg (Ne.symm h.1)]

/-- A type gets its own parents, whatever the others get. -/
theorem entry?_setAll_of_mem {catalog : Catalog} {given : List (ClassId × Parents)}
    {parents : Parents} (hDistinct : (given.map Prod.fst).Nodup) (h : (id, parents) ∈ given) :
    Catalog.entry? (setAll catalog given) id = (catalog.entry? id).map (withParents parents) := by
  induction given generalizing catalog with
  | nil => cases h
  | cons first rest ih =>
      rw [List.map_cons, List.nodup_cons] at hDistinct
      change Catalog.entry? (setAll (setParents catalog first.1 first.2) rest) id = _
      rcases List.mem_cons.1 h with rfl | hRest
      · rw [entry?_setAll_of_not_mem hDistinct.1, entry?_setParents, if_pos rfl]
      · have hOther : first.1 ≠ id := by
          rintro rfl
          exact hDistinct.1 (List.mem_map.2 ⟨_, hRest, rfl⟩)
        rw [ih hDistinct.2 hRest, entry?_setParents, if_neg hOther]

end Ancestry.Hierarchy
