import Ancestry.Proofs.Hierarchy.Grammar
import Ancestry.Proofs.Hierarchy.Resolution

/-! The language of hierarchy files, and what a file means. Main statement: exactly the files of the
language are loaded, and each of them as what it means (`Hierarchy.load_language`). -/
namespace Ancestry.Hierarchy

variable {source : String} {declarations : List Declaration} {declaration : Declaration}
  {hierarchy : Hierarchy}

/-- The declarations are those of a source, in its order: each line makes one of them or none. -/
def Declares (source : String) (declarations : List Declaration) : Prop :=
  ∃ lines said, Text.HasLines source.toList lines ∧
    List.Forall₂ (fun (line : List Char × Nat) => Declaration.Says (lineNumber line.2) line.1)
      lines.zipIdx said ∧
    declarations = said.reduceOption

/-- No name is given twice, and all parents are known. -/
structure Coherent (declarations : List Declaration) : Prop where
  distinct : (typeNames declarations).Nodup
  known : ∀ declaration ∈ declarations, ParentsKnown declarations declaration

/-- A type of a hierarchy is as it is declared. -/
structure Reflects (hierarchy : Hierarchy) (declarations : List Declaration) (id : ClassId)
    (declaration : Declaration) : Prop where
  line : hierarchy.lineOf? id = some declaration.line
  name : hierarchy.catalog.className id = declaration.name
  kind : hierarchy.catalog.kind? id = some declaration.kind
  superclass : hierarchy.catalog.superclass? id =
    match declaration.kind, declaration.superclass with
    | .interfaceType, _ => none
    | .classType, none => some .object
    | .classType, some name => idNamed? declarations name
  interfaces : (hierarchy.catalog.interfaces id).map some =
    declaration.interfaces.eraseDups.map (idNamed? declarations)

/-- What a file with the given declarations means. The types are numbered in the order of the file,
behind the predeclared ones, which have no relations. -/
structure Means (declarations : List Declaration) (hierarchy : Hierarchy) : Prop where
  declared : hierarchy.declared = (List.range declarations.length).map fun place => ⟨3 + place⟩
  size_eq : hierarchy.catalog.size = 3 + declarations.length
  reflects : ∀ place declaration, declarations[place]? = some declaration →
    hierarchy.Reflects declarations ⟨3 + place⟩ declaration
  entry?_predeclared : ∀ id : ClassId, id.isPredeclared = true →
    hierarchy.catalog.entry? id = Catalog.initial.entry? id
  unrelated : ∀ id : ClassId, id.isPredeclared = true →
    hierarchy.catalog.superclass? id = none ∧ hierarchy.catalog.interfaces id = []
  lookup?_eq : ∀ name, hierarchy.catalog.lookup? name = idNamed? declarations name
  warnings : hierarchy.warnings = declarations.flatMap repeatWarnings

theorem Reflects.interfaces_eq {id : ClassId} {interfaces : List ClassId}
    (h : hierarchy.Reflects declarations id declaration)
    (hInterfaces : declaration.interfaces.eraseDups.map (idNamed? declarations) =
      interfaces.map some) : hierarchy.catalog.interfaces id = interfaces :=
  List.map_injective_iff.2 (fun _ _ => Option.some.inj) (h.interfaces.trans hInterfaces)

/-- The lines are read as what they say. -/
theorem readSource_eq_iff {said : List (Option Declaration)} :
    readSource source = said.map .ok ↔
      List.Forall₂ (fun (line : List Char × Nat) => Declaration.Says (lineNumber line.2) line.1)
        (Text.lines source.toList).zipIdx said := by
  rw [readSource, ← List.forall₂_eq_eq_eq, List.forall₂_map_left_iff, List.forall₂_map_right_iff]
  simp only [mapError_eq_ok_iff, Declaration.readLine_eq_ok_iff]

theorem declares_iff : Declares source declarations ↔
    ∃ said : List (Option Declaration), readSource source = said.map .ok ∧
      declarations = said.reduceOption := by
  simp only [Declares, Text.hasLines_iff, readSource_eq_iff]
  constructor
  · rintro ⟨_, said, rfl, hSaid, hDeclarations⟩
    exact ⟨said, hSaid, hDeclarations⟩
  · rintro ⟨said, hSaid, hDeclarations⟩
    exact ⟨_, said, rfl, hSaid, hDeclarations⟩

/-- A source makes its declarations in one way only. -/
theorem Declares.unique {others : List Declaration} (h : Declares source declarations)
    (hOthers : Declares source others) : declarations = others := by
  obtain ⟨said, hSaid, rfl⟩ := declares_iff.1 h
  obtain ⟨otherSaid, hOtherSaid, rfl⟩ := declares_iff.1 hOthers
  have hSame := hSaid.symm.trans hOtherSaid
  rw [List.map_injective_iff.2 (fun _ _ => Except.ok.inj) hSame]

def resolveAll (names : Names) : List (Except Error Parents) :=
  names.accepted.toList.map fun (_, declaration) => resolveParents names.catalog declaration

/-- The hierarchy of a file whose names are given and whose parents are resolved. -/
def finished (names : Names) (parents : List Parents) : Hierarchy :=
  ⟨setAll names.catalog ((names.accepted.toList.map (·.1)).zip parents), names.lines,
    parents.flatMap (·.warnings)⟩

theorem load_eq (source : String) :
    let results := readSource source
    let names := nameAll (successes results).reduceOption
    let errors := failures results ++ names.errors.toList ++ failures (resolveAll names)
    load source =
      if errors.isEmpty then .ok (finished names (successes (resolveAll names)))
      else .error (errors.mergeSort fun first second => first.line ≤ second.line) := by
  unfold nameAll resolveAll finished setAll List.reduceOption
  exact load.eq_1 source

/-- A source is loaded if nothing is wrong with its lines, its names and its parents. -/
theorem load_eq_ok_iff : load source = .ok hierarchy ↔
    ∃ (said : List (Option Declaration)) (parents : List Parents),
      readSource source = said.map .ok ∧ (nameAll said.reduceOption).errors = #[] ∧
        resolveAll (nameAll said.reduceOption) = parents.map .ok ∧
        hierarchy = finished (nameAll said.reduceOption) parents := by
  rw [load_eq]
  constructor
  · intro h
    split at h
    · rename_i hNone
      simp only [List.isEmpty_iff, List.append_eq_nil_iff, Array.toList_eq_nil_iff,
        failures_eq_nil_iff] at hNone
      obtain ⟨⟨⟨said, hSaid⟩, hErrors⟩, parents, hParents⟩ := hNone
      rw [hSaid, successes_map_ok] at hErrors hParents h
      rw [hParents, successes_map_ok] at h
      exact ⟨said, parents, hSaid, hErrors, hParents, (Except.ok.inj h).symm⟩
    · cases h
  · rintro ⟨said, parents, hSaid, hErrors, hParents, rfl⟩
    rw [hSaid, successes_map_ok, hParents, successes_map_ok, if_pos]
    simp only [List.isEmpty_iff, List.append_eq_nil_iff, Array.toList_eq_nil_iff,
      failures_eq_nil_iff]
    exact ⟨⟨⟨said, rfl⟩, hErrors⟩, parents, rfl⟩

theorem resolveAll_eq {names : Names} (h : Named declarations names) :
    resolveAll names =
      declarations.map fun declaration => resolveParents names.catalog declaration := by
  rw [resolveAll, h.accepted]
  apply List.ext_getElem?
  intro place
  simp [Function.comp_def]

/-- The parents of all types are resolved if they are known. -/
theorem exists_resolveAll_iff (hDistinct : (typeNames declarations).Nodup) :
    (∃ parents : List Parents, resolveAll (nameAll declarations) = parents.map .ok) ↔
      ∀ declaration ∈ declarations, ParentsKnown declarations declaration := by
  have hNamed := named_of_nodup hDistinct
  rw [resolveAll_eq hNamed, exists_map_eq_map_ok_iff]
  simp only [exists_resolveParents_iff hNamed hDistinct]

/-- The sources that are loaded are those with coherent declarations. -/
theorem exists_load_iff :
    (∃ hierarchy, load source = .ok hierarchy) ↔
      ∃ declarations, Declares source declarations ∧ Coherent declarations := by
  simp only [load_eq_ok_iff, declares_iff, errors_eq_empty_iff]
  constructor
  · rintro ⟨_, said, parents, hSaid, hDistinct, hParents, _⟩
    have hKnown := (exists_resolveAll_iff hDistinct).1 ⟨parents, hParents⟩
    exact ⟨_, ⟨said, hSaid, rfl⟩, hDistinct, hKnown⟩
  · rintro ⟨_, ⟨said, hSaid, rfl⟩, hDistinct, hKnown⟩
    obtain ⟨parents, hParents⟩ := (exists_resolveAll_iff hDistinct).2 hKnown
    exact ⟨_, said, parents, hSaid, hDistinct, hParents, rfl⟩

/-- The resolved parents are those that the declarations name. -/
theorem isParents_of_resolveAll (h : Coherent declarations) {parents : List Parents}
    (hParents : resolveAll (nameAll declarations) = parents.map .ok) :
    List.Forall₂ (IsParents declarations) declarations parents := by
  have hNamed := named_of_nodup h.distinct
  rw [resolveAll_eq hNamed, ← List.forall₂_eq_eq_eq, List.forall₂_map_left_iff,
    List.forall₂_map_right_iff, List.forall₂_iff_get] at hParents
  obtain ⟨hLength, hEach⟩ := hParents
  refine List.forall₂_iff_get.2 ⟨hLength, fun place hHere hThere => ?_⟩
  obtain ⟨found, hFound, hIs⟩ := exists_resolveParents hNamed h.distinct
    (h.known _ (List.get_mem declarations ⟨place, hHere⟩))
  obtain rfl := Except.ok.inj ((hEach place hHere hThere).symm.trans hFound)
  exact hIs

/-- The identities of the declared types. -/
def declaredIds (count : Nat) : List ClassId := (List.range count).map fun place => ⟨3 + place⟩

theorem nodup_declaredIds (count : Nat) : (declaredIds count).Nodup := by
  apply List.Nodup.map _ List.nodup_range
  intro place other hSame
  have hIndex : 3 + place = 3 + other := congrArg ClassId.index hSame
  omega

theorem not_mem_declaredIds {count : Nat} {id : ClassId} (h : id.isPredeclared = true) :
    id ∉ declaredIds count := by
  intro hMem
  obtain ⟨place, _, rfl⟩ := List.mem_map.1 hMem
  have hIndex : 3 + place < 3 := of_decide_eq_true h
  omega

theorem userIds_of_size {catalog : Catalog} {count : Nat} (h : catalog.size = 3 + count) :
    catalog.userIds = declaredIds count := by
  have hFirst : ((List.range 3).map ClassId.mk).filter (fun id => !id.isPredeclared) = [] := rfl
  have hRest : (declaredIds count).filter (fun id => !id.isPredeclared) = declaredIds count := by
    apply List.filter_eq_self.2
    intro id hMem
    by_contra hId
    exact not_mem_declaredIds (by simpa using hId) hMem
  rw [Catalog.userIds, Catalog.ids, h, List.range_add, List.map_append, List.filter_append,
    List.map_map, hFirst]
  exact hRest

theorem acceptedIds_eq {names : Names} (h : Named declarations names) :
    names.accepted.toList.map (·.1) = declaredIds declarations.length := by
  rw [h.accepted, declaredIds]
  apply List.ext_getElem
  · simp
  · intro place _ _
    simp

/-- Each declared type gets the parents that it names. -/
theorem entry?_finished (h : Coherent declarations) {parents : List Parents}
    (hParents : List.Forall₂ (IsParents declarations) declarations parents) {place : Nat}
    (hPlace : declarations[place]? = some declaration) :
    ∃ found, IsParents declarations declaration found ∧
      Catalog.entry? (finished (nameAll declarations) parents).catalog ⟨3 + place⟩ =
        some (withParents found (.bare declaration.kind declaration.name)) := by
  have hNamed := named_of_nodup h.distinct
  obtain ⟨hLength, hEach⟩ := List.forall₂_iff_get.1 hParents
  obtain ⟨hHere, rfl⟩ := List.getElem?_eq_some_iff.1 hPlace
  have hThere : place < parents.length := hLength ▸ hHere
  refine ⟨parents[place], hEach place hHere hThere, ?_⟩
  rw [finished, acceptedIds_eq hNamed]
  dsimp only
  rw [entry?_setAll_of_mem, hNamed.entry?_declared hPlace]
  · rfl
  · rw [List.map_fst_zip]
    · exact nodup_declaredIds _
    · simp [declaredIds, hLength]
  · apply List.mem_of_getElem? (i := place)
    simp [declaredIds, List.getElem?_zip_eq_some, hHere]

theorem reflects_finished (h : Coherent declarations) {parents : List Parents}
    (hParents : List.Forall₂ (IsParents declarations) declarations parents) {place : Nat}
    (hPlace : declarations[place]? = some declaration) :
    (finished (nameAll declarations) parents).Reflects declarations ⟨3 + place⟩ declaration := by
  obtain ⟨found, hFound, hEntry⟩ := entry?_finished h hParents hPlace
  have hNamed := named_of_nodup h.distinct
  constructor
  · have hUser : ¬(⟨3 + place⟩ : ClassId).isPredeclared = true := fun hId =>
      absurd (of_decide_eq_true hId : 3 + place < 3) (by omega)
    rw [lineOf?, lineIn?, if_neg hUser]
    simp [finished, ← Array.getElem?_toList, hNamed.lines, hPlace, ClassId.predeclaredCount]
  · rw [Catalog.className, hEntry]
    rfl
  · rw [Catalog.kind?, hEntry]
    rfl
  · rw [Catalog.superclass?, hEntry, Option.bind_some, withParents, hFound.superclass]
    cases hKind : declaration.kind with
    | interfaceType => rfl
    | classType =>
        cases hSuperclass : declaration.superclass with
        | none => rfl
        | some name =>
            -- The name is known, so that the class does not keep the root.
            have hKnown := (h.known _ (List.mem_of_getElem? hPlace)).superclass name hSuperclass
            obtain ⟨index, hIndex⟩ := List.mem_iff_getElem?.1 hKnown
            have hId : idNamed? declarations name = some ⟨index⟩ :=
              idNamed?_of_getElem? h.distinct hIndex
            simp only [Entry.bare, Option.bind_some, hId]
  · rw [Catalog.interfaces, hEntry]
    exact hFound.interfaces

/-- A predeclared type has one of three roles. -/
theorem cases_predeclared {id : ClassId} (hId : id.isPredeclared = true) :
    id = .object ∨ id = .serializable ∨ id = .cloneable := by
  obtain ⟨index⟩ := id
  have hIndex : index < 3 := of_decide_eq_true hId
  obtain rfl | rfl | rfl : index = 0 ∨ index = 1 ∨ index = 2 := by omega
  · exact .inl rfl
  · exact .inr (.inl rfl)
  · exact .inr (.inr rfl)

theorem means_finished (h : Coherent declarations) {parents : List Parents}
    (hParents : List.Forall₂ (IsParents declarations) declarations parents) :
    Means declarations (finished (nameAll declarations) parents) := by
  have hNamed := named_of_nodup h.distinct
  have hPredeclared : ∀ id : ClassId, id.isPredeclared = true →
      Catalog.entry? (finished (nameAll declarations) parents).catalog id =
        Catalog.initial.entry? id := by
    intro id hId
    rw [finished, acceptedIds_eq hNamed]
    dsimp only
    rw [entry?_setAll_of_not_mem, hNamed.entry?_predeclared hId]
    intro hMem
    obtain ⟨given, hGiven, hSame⟩ := List.mem_map.1 hMem
    have hDeclared := (List.of_mem_zip hGiven).1
    rw [hSame] at hDeclared
    exact not_mem_declaredIds hId hDeclared
  have hSize : (finished (nameAll declarations) parents).catalog.size = 3 + declarations.length :=
    (size_setAll ..).trans hNamed.size_eq
  constructor
  · exact userIds_of_size hSize
  · exact hSize
  · intro place declaration hPlace
    exact reflects_finished h hParents hPlace
  · exact hPredeclared
  · intro id hId
    rw [Catalog.superclass?, Catalog.interfaces, hPredeclared id hId]
    rcases cases_predeclared hId with rfl | rfl | rfl <;> exact ⟨rfl, rfl⟩
  · intro name
    exact (lookup?_setAll ..).trans (hNamed.lookup?_eq name)
  · have hEach : parents.map (·.warnings) = declarations.map repeatWarnings := by
      rw [eq_comm, ← List.forall₂_eq_eq_eq, List.forall₂_map_left_iff, List.forall₂_map_right_iff]
      exact hParents.imp fun _ _ hIs => hIs.warnings.symm
    rw [finished, List.flatMap_def, List.flatMap_def, hEach]

/-- A loaded source is in the language, and it is loaded as what it means. -/
theorem means_of_load (hLoad : load source = .ok hierarchy) :
    ∃ declarations, Declares source declarations ∧ Coherent declarations ∧
      Means declarations hierarchy := by
  obtain ⟨said, parents, hSaid, hErrors, hParents, rfl⟩ := load_eq_ok_iff.1 hLoad
  have hDistinct := errors_eq_empty_iff.1 hErrors
  have hCoherent : Coherent said.reduceOption :=
    ⟨hDistinct, (exists_resolveAll_iff hDistinct).1 ⟨parents, hParents⟩⟩
  exact ⟨_, declares_iff.2 ⟨said, hSaid, rfl⟩, hCoherent,
    means_finished hCoherent (isParents_of_resolveAll hCoherent hParents)⟩

/-- A source that makes coherent declarations is loaded as what they mean. -/
theorem Declares.exists_means (h : Declares source declarations)
    (hCoherent : Coherent declarations) :
    ∃ hierarchy, load source = .ok hierarchy ∧ Means declarations hierarchy := by
  obtain ⟨hierarchy, hLoad⟩ := exists_load_iff.2 ⟨_, h, hCoherent⟩
  obtain ⟨others, hOthers, _, hMeans⟩ := means_of_load hLoad
  exact ⟨hierarchy, hLoad, hOthers.unique h ▸ hMeans⟩

/-- A file in which a class comes before the one that it extends, and the other class lists an
interface again, before and behind another one that extends it. -/
def tangledSource : String :=
  "class Sub extends Mix # or\n\ninterface A\ninterface B extends A\nclass Mix implements A,B,A"

def tangledDeclarations : List Declaration :=
  [⟨1, .classType, "Sub", some "Mix", []⟩, ⟨3, .interfaceType, "A", none, []⟩,
    ⟨4, .interfaceType, "B", none, ["A"]⟩, ⟨5, .classType, "Mix", none, ["A", "B", "A"]⟩]

theorem declares_tangled : Declares tangledSource tangledDeclarations := by
  refine declares_iff.2 ⟨[some ⟨1, .classType, "Sub", some "Mix", []⟩, none,
    some ⟨3, .interfaceType, "A", none, []⟩, some ⟨4, .interfaceType, "B", none, ["A"]⟩,
    some ⟨5, .classType, "Mix", none, ["A", "B", "A"]⟩], ?_, rfl⟩
  decide +kernel

theorem coherent_tangled : Coherent tangledDeclarations where
  distinct := by decide
  known := by
    simp only [tangledDeclarations, List.forall_mem_cons]
    refine ⟨⟨?_, ?_⟩, ⟨?_, ?_⟩, ⟨?_, ?_⟩, ⟨?_, ?_⟩, ?_⟩ <;> simp [types, predeclared]

/-- Exactly the sources of the language are loaded: those whose lines are blank or declarations, up
to their comments, and whose declarations are coherent. Each is loaded as what it means. -/
theorem load_language (source : String) :
    ((∃ hierarchy, load source = .ok hierarchy) ↔
      ∃ declarations, Declares source declarations ∧ Coherent declarations) ∧
    ∀ hierarchy, load source = .ok hierarchy →
      ∃ declarations, Declares source declarations ∧ Coherent declarations ∧
        Means declarations hierarchy :=
  ⟨exists_load_iff, fun _ => means_of_load⟩

theorem load_language_tangled : ∃ hierarchy, load tangledSource = .ok hierarchy ∧
    hierarchy.declared = [⟨3⟩, ⟨4⟩, ⟨5⟩, ⟨6⟩] ∧
    hierarchy.catalog.superclass? ⟨3⟩ = some ⟨6⟩ ∧
    hierarchy.catalog.superclass? ⟨6⟩ = some .object ∧
    hierarchy.catalog.interfaces ⟨6⟩ = [⟨4⟩, ⟨5⟩] ∧
    hierarchy.warnings = [⟨5, "Mix", "A"⟩] := by
  obtain ⟨hAccepts, hMeans⟩ := load_language tangledSource
  obtain ⟨hierarchy, hLoad⟩ := hAccepts.2 ⟨_, declares_tangled, coherent_tangled⟩
  obtain ⟨declarations, hDeclares, _, hMeans⟩ := hMeans hierarchy hLoad
  obtain rfl := hDeclares.unique declares_tangled
  have hSub := hMeans.reflects 0 _ rfl
  have hMixed := hMeans.reflects 3 _ rfl
  have hInterfaces : hierarchy.catalog.interfaces ⟨6⟩ = [⟨4⟩, ⟨5⟩] := hMixed.interfaces_eq rfl
  exact ⟨hierarchy, hLoad, hMeans.declared, hSub.superclass, hMixed.superclass, hInterfaces,
    hMeans.warnings⟩

end Ancestry.Hierarchy
