import Ancestry.Proofs.Hierarchy.Complaints
import Ancestry.Proofs.Hierarchy.Repeats
import Mathlib.Data.List.ReduceOption

/-! What is reported about a hierarchy file that is not loaded. Main statement: the errors are one
for each line that cannot be read, gives a name again or has a parent that is not known, in the
order of the lines (`Hierarchy.errors_of_load`). -/
namespace Ancestry.Hierarchy

variable {source : String} {position : Nat} {text : List Char} {declaration first : Declaration}
  {error : Error} {results : List (Except Error (Option Declaration))}

section Lines

/-- A line is read under its own number unless there are too many. -/
theorem getElem?_readSource (hLines : lineCount source < 2 ^ 32) (position : Nat) :
    (readSource source)[position]? = (Text.lines source.toList)[position]?.map fun text =>
      (Declaration.readLine (position + 1) text).mapError (Error.badLine (position + 1)) := by
  rw [readSource, List.getElem?_map, List.getElem?_zipIdx, Option.map_map, Nat.zero_add]
  refine Option.map_congr fun text hText => ?_
  obtain ⟨hPosition, _⟩ := List.getElem?_eq_some_iff.1 hText
  have hSmall : position + 1 ≤ 4294967295 := by
    unfold lineCount at hLines
    omega
  simp [lineNumber, Nat.min_eq_left hSmall]

theorem declaresAt_iff (hLines : lineCount source < 2 ^ 32) :
    DeclaresAt source position declaration ↔
      (readSource source)[position]? = some (.ok (some declaration)) := by
  rw [getElem?_readSource hLines, Option.map_eq_some_iff]
  simp only [mapError_eq_ok_iff, Declaration.readLine_eq_ok_iff, ← lineAt_iff]
  rfl

theorem malformed_iff (hLines : lineCount source < 2 ^ 32) :
    Malformed source position error ↔ (readSource source)[position]? = some (.error error) := by
  rw [getElem?_readSource hLines, Option.map_eq_some_iff]
  simp only [mapError_eq_error_iff, ← lineAt_iff]
  constructor
  · rintro ⟨hText, hRead⟩
    exact ⟨_, hText, _, hRead, rfl⟩
  · rintro ⟨text, hText, cause, hRead, rfl⟩
    exact ⟨hText, hRead⟩

end Lines

section Declarations

/-- What is picked from a list comes in the order of its lines if each line is that of the place. -/
theorem pairwise_line_filterMap {α β : Type} {items : List α} {pick : α → Option β} {line : β → Nat}
    (h : ∀ position item, items[position]? = some item →
      ∀ found, pick item = some found → line found = position + 1) :
    (items.filterMap pick).Pairwise fun first second => line first < line second := by
  rw [List.pairwise_filterMap, List.pairwise_iff_getElem]
  intro position behind hPosition hBehind hLess found hFound other hOther
  rw [h position _ (List.getElem?_eq_getElem hPosition) found hFound,
    h behind _ (List.getElem?_eq_getElem hBehind) other hOther]
  exact Nat.succ_lt_succ hLess

/-- What is declared in lines that have been read. -/
def declarationsIn (results : List (Except Error (Option Declaration))) : List Declaration :=
  (successes results).reduceOption

/-- What is declared in a line that has been read. -/
def declaredBy? : Except Error (Option Declaration) → Option Declaration
  | .ok said => said
  | .error _ => none

theorem declaredBy?_eq_some_iff {result : Except Error (Option Declaration)} :
    declaredBy? result = some declaration ↔ result = .ok (some declaration) := by
  cases result <;> simp [declaredBy?]

theorem declarationsIn_eq (results : List (Except Error (Option Declaration))) :
    declarationsIn results = results.filterMap declaredBy? := by
  rw [declarationsIn, successes, List.reduceOption, List.filterMap_filterMap]
  refine List.filterMap_congr fun result _ => ?_
  cases result <;> rfl

theorem declarationsIn_append (results others : List (Except Error (Option Declaration))) :
    declarationsIn (results ++ others) = declarationsIn results ++ declarationsIn others := by
  rw [declarationsIn, successes, List.filterMap_append, List.reduceOption_append]
  rfl

theorem mem_declarationsIn_iff :
    declaration ∈ declarationsIn results ↔ .ok (some declaration) ∈ results := by
  rw [declarationsIn, List.reduceOption_mem_iff]
  exact ⟨mem_of_successes, fun h => List.mem_filterMap.2 ⟨_, h, rfl⟩⟩

theorem mem_declarationsIn_take_iff : declaration ∈ declarationsIn (results.take position) ↔
    ∃ earlier < position, results[earlier]? = some (.ok (some declaration)) := by
  rw [mem_declarationsIn_iff, List.mem_iff_getElem?]
  simp only [List.getElem?_take]
  constructor
  · rintro ⟨earlier, hEarlier⟩
    by_cases hBefore : earlier < position
    · rw [if_pos hBefore] at hEarlier
      exact ⟨earlier, hBefore, hEarlier⟩
    · rw [if_neg hBefore] at hEarlier
      cases hEarlier
  · rintro ⟨earlier, hBefore, hEarlier⟩
    exact ⟨earlier, (if_pos hBefore).trans hEarlier⟩

/-- A declaration stands behind those of the lines before its own. -/
theorem exists_split_declarationsIn_iff {p : List Declaration → Declaration → Prop} :
    (∃ before declaration after,
        declarationsIn results = before ++ declaration :: after ∧ p before declaration) ↔
      ∃ position declaration, results[position]? = some (.ok (some declaration)) ∧
        p (declarationsIn (results.take position)) declaration := by
  constructor
  · rintro ⟨before, declaration, after, hSplit, h⟩
    rw [declarationsIn_eq, List.filterMap_eq_append_iff] at hSplit
    obtain ⟨start, rest, rfl, hBefore, hRest⟩ := hSplit
    -- Between the declarations before and this one there may be lines that declare nothing.
    obtain ⟨skipped, found, others, rfl, hSkipped, hFound, _⟩ := List.filterMap_eq_cons_iff.1 hRest
    have hLines : declarationsIn (start ++ skipped) = before := by
      rw [declarationsIn_eq, List.filterMap_append, hBefore, List.filterMap_eq_nil_iff.2 hSkipped,
        List.append_nil]
    rw [← List.append_assoc, declaredBy?_eq_some_iff.1 hFound]
    refine ⟨(start ++ skipped).length, declaration, by simp, ?_⟩
    rw [List.take_left, hLines]
    exact h
  · rintro ⟨position, declaration, hDeclares, h⟩
    obtain ⟨hPosition, hHere⟩ := List.getElem?_eq_some_iff.1 hDeclares
    refine ⟨_, declaration, declarationsIn (results.drop (position + 1)), ?_, h⟩
    have hSplit : results = results.take position ++
        .ok (some declaration) :: results.drop (position + 1) := by
      rw [← hHere, ← List.drop_eq_getElem_cons hPosition, List.take_append_drop]
    calc declarationsIn results
      _ = declarationsIn (results.take position ++
            .ok (some declaration) :: results.drop (position + 1)) := congrArg _ hSplit
      _ = _ := declarationsIn_append _ _

theorem resolveAll_nameAll (declarations : List Declaration) :
    resolveAll (nameAll declarations) = (firsts declarations).map fun declaration =>
      resolveParents (nameAll declarations).catalog declaration := by
  rw [← resolveAll_cleared, resolveAll_eq (named_firsts declarations), Names.catalog_cleared]

theorem resolveParents_nameAll_eq_error_iff {declarations : List Declaration} :
    resolveParents (nameAll declarations).catalog declaration = .error error ↔
      ∃ before parent after, declaration.parents = before ++ parent :: after ∧
        faultOf? (firsts declarations) declaration.line parent = some error ∧
        ∀ other ∈ before, other ∈ types (firsts declarations) := by
  rw [← Names.catalog_cleared]
  exact resolveParents_eq_error_iff (named_firsts _) (nodup_typeNames_firsts _)

theorem mem_firsts_declarationsIn_iff : first ∈ firsts (declarationsIn results) ↔
    ∃ position, results[position]? = some (.ok (some first)) ∧
      first.name ∉ typeNames (declarationsIn (results.take position)) := by
  rw [mem_firsts_iff, exists_split_declarationsIn_iff]
  apply exists_congr
  intro position
  constructor
  · rintro ⟨_, hDeclares, hNew, rfl⟩
    exact ⟨hDeclares, hNew⟩
  · rintro ⟨hDeclares, hNew⟩
    exact ⟨first, hDeclares, hNew, rfl⟩

end Declarations

/-- The lines of errors differ if the errors have reasons that exclude each other. -/
theorem lines_ne {errors others : List Error} {p q : Nat → Error → Prop}
    (hErrors : ∀ error ∈ errors, ∃ position, p position error)
    (hOthers : ∀ error ∈ others, ∃ position, q position error)
    (hLine : ∀ position error, p position error → error.line = position + 1)
    (hOtherLine : ∀ position error, q position error → error.line = position + 1)
    (hApart : ∀ position error other, p position error → ¬q position other) :
    ∀ line ∈ errors.map (·.line), ∀ other ∈ others.map (·.line), line ≠ other := by
  intro line hHere other hThere hSame
  obtain ⟨error, hError, rfl⟩ := List.mem_map.1 hHere
  obtain ⟨otherError, hOtherError, rfl⟩ := List.mem_map.1 hThere
  obtain ⟨position, h⟩ := hErrors error hError
  obtain ⟨place, hOther⟩ := hOthers otherError hOtherError
  rw [hLine position error h, hOtherLine place otherError hOther] at hSame
  obtain rfl := Nat.succ.inj hSame
  exact hApart position error otherError h hOther

section

variable (hLines : lineCount source < 2 ^ 32)
include hLines

theorem mem_before_iff : declaration ∈ declarationsIn ((readSource source).take position) ↔
    ∃ earlier < position, DeclaresAt source earlier declaration := by
  simp only [mem_declarationsIn_take_iff, declaresAt_iff hLines]

/-- A name is new if neither an earlier line declares it nor is it predeclared. -/
theorem not_mem_typeNames_before_iff {name : String} :
    name ∉ typeNames (declarationsIn ((readSource source).take position)) ↔
      name ∉ predeclared.map Prod.fst ∧
        ∀ earlier < position, ∀ other, DeclaresAt source earlier other → other.name ≠ name := by
  rw [mem_typeNames_iff, not_or]
  apply and_congr_right
  intro _
  simp only [mem_before_iff hLines]
  constructor
  · exact fun h earlier hEarlier other hOther hName => h ⟨other, ⟨earlier, hEarlier, hOther⟩, hName⟩
  · rintro h ⟨other, ⟨earlier, hEarlier, hOther⟩, hName⟩
    exact h earlier hEarlier other hOther hName

theorem firstAt_iff : FirstAt source position declaration ↔
    DeclaresAt source position declaration ∧
      declaration.name ∉ typeNames (declarationsIn ((readSource source).take position)) := by
  rw [not_mem_typeNames_before_iff hLines]
  exact ⟨fun h => ⟨h.declares, h.not_predeclared, h.first⟩, fun h => ⟨h.1, h.2.1, h.2.2⟩⟩

theorem mem_firsts_before_iff :
    first ∈ firsts (declarationsIn ((readSource source).take position)) ↔
      ∃ earlier < position, FirstAt source earlier first := by
  rw [mem_firsts_declarationsIn_iff]
  simp only [firstAt_iff hLines, declaresAt_iff hLines, List.getElem?_take, List.take_take]
  constructor
  · rintro ⟨earlier, hDeclares, hNew⟩
    by_cases hEarlier : earlier < position
    · rw [if_pos hEarlier] at hDeclares
      rw [Nat.min_eq_left hEarlier.le] at hNew
      exact ⟨earlier, hEarlier, hDeclares, hNew⟩
    · rw [if_neg hEarlier] at hDeclares
      cases hDeclares
  · rintro ⟨earlier, hEarlier, hDeclares, hNew⟩
    refine ⟨earlier, (if_pos hEarlier).trans hDeclares, ?_⟩
    rwa [Nat.min_eq_left hEarlier.le]

theorem mem_firsts_readSource_iff : first ∈ firsts (declarationsIn (readSource source)) ↔
    ∃ position, FirstAt source position first := by
  simp only [mem_firsts_declarationsIn_iff, firstAt_iff hLines, declaresAt_iff hLines]

theorem mem_types_iff {type : String × Kind} :
    type ∈ types (firsts (declarationsIn (readSource source))) ↔ HasType source type := by
  rw [types, List.mem_append, List.mem_map]
  simp only [mem_firsts_readSource_iff hLines]
  constructor
  · rintro (hPredeclared | ⟨declaration, ⟨position, hFirst⟩, rfl⟩)
    · exact .predeclared hPredeclared
    · exact .declared hFirst
  · rintro (hPredeclared | hFirst)
    · exact .inl hPredeclared
    · exact .inr ⟨_, ⟨_, hFirst⟩, rfl⟩

theorem mem_typeNames_readSource_iff {name : String} :
    name ∈ typeNames (firsts (declarationsIn (readSource source))) ↔
      ∃ kind, HasType source (name, kind) := by
  rw [typeNames, List.mem_map]
  simp only [mem_types_iff hLines, Prod.exists]
  simp

theorem mem_failures_readSource_iff :
    error ∈ failures (readSource source) ↔ ∃ position, Malformed source position error := by
  rw [mem_failures_iff, List.mem_iff_getElem?]
  simp only [malformed_iff hLines]

theorem mem_errors_readSource_iff :
    error ∈ (nameAll (declarationsIn (readSource source))).errors.toList ↔
      ∃ position, Redeclared source position error := by
  rw [mem_errors_nameAll_iff, exists_split_declarationsIn_iff]
  simp only [← declaresAt_iff hLines]
  apply exists_congr
  intro position
  constructor
  · rintro ⟨declaration, hDeclares, hRepeats⟩
    cases hRepeats with
    | predeclared hName =>
        rw [hDeclares.line_eq]
        exact .predeclared hDeclares hName
    | declared hFirst hName =>
        obtain ⟨earlier, hEarlier, hFirst⟩ := (mem_firsts_before_iff hLines).1 hFirst
        rw [hDeclares.line_eq, hFirst.declares.line_eq]
        exact .declared hDeclares hEarlier hFirst hName
  · intro hRedeclared
    cases hRedeclared with
    | predeclared hDeclares hName =>
        refine ⟨_, hDeclares, ?_⟩
        rw [← hDeclares.line_eq]
        exact .predeclared hName
    | declared hDeclares hEarlier hFirst hName =>
        refine ⟨_, hDeclares, ?_⟩
        rw [← hDeclares.line_eq, ← hFirst.declares.line_eq]
        exact .declared ((mem_firsts_before_iff hLines).2 ⟨_, hEarlier, hFirst⟩) hName

theorem mem_failures_resolveAll_iff :
    error ∈ failures (resolveAll (nameAll (declarationsIn (readSource source)))) ↔
      ∃ position, Unresolved source position error := by
  rw [resolveAll_nameAll, mem_failures_iff, List.mem_map]
  simp only [mem_firsts_readSource_iff hLines, resolveParents_nameAll_eq_error_iff,
    faultOf?_eq_some_iff, mem_types_iff hLines, mem_typeNames_readSource_iff hLines]
  constructor
  · rintro ⟨declaration, ⟨position, hFirst⟩, before, ⟨name, kind⟩, after, hParents,
      ⟨hParent, hError⟩, hBefore⟩
    have hUnresolved : FirstUnresolved source declaration (name, kind) :=
      ⟨before, after, hParents, hBefore, hParent⟩
    rw [hFirst.declares.line_eq] at hError
    rcases hError with ⟨⟨other, hOther⟩, rfl⟩ | ⟨hUnknown, rfl⟩
    · exact ⟨position, .wrongKind hFirst hUnresolved hOther⟩
    · exact ⟨position, .unknown hFirst hUnresolved fun other hOther => hUnknown ⟨other, hOther⟩⟩
  · rintro ⟨position, hUnresolved⟩
    cases hUnresolved with
    | unknown hFirst hParent hUnknown =>
        obtain ⟨before, after, hParents, hBefore, hParent⟩ := hParent
        refine ⟨_, ⟨position, hFirst⟩, before, _, after, hParents, ⟨hParent, .inr ⟨?_, ?_⟩⟩,
          hBefore⟩
        · rintro ⟨other, hOther⟩
          exact hUnknown other hOther
        · rw [hFirst.declares.line_eq]
    | wrongKind hFirst hParent hOther =>
        obtain ⟨before, after, hParents, hBefore, hParent⟩ := hParent
        refine ⟨_, ⟨position, hFirst⟩, before, _, after, hParents,
          ⟨hParent, .inl ⟨⟨_, hOther⟩, ?_⟩⟩, hBefore⟩
        rw [hFirst.declares.line_eq]

/-- The declarations come in the order of their lines. -/
theorem pairwise_declarationsIn :
    (declarationsIn (readSource source)).Pairwise fun first second => first.line < second.line := by
  rw [declarationsIn_eq]
  refine pairwise_line_filterMap fun position result hResult declaration hDeclares => ?_
  rw [declaredBy?_eq_some_iff.1 hDeclares] at hResult
  exact ((declaresAt_iff hLines).2 hResult).line_eq

theorem pairwise_failures_readSource :
    (failures (readSource source)).Pairwise fun first second => first.line < second.line := by
  refine pairwise_line_filterMap fun position result hResult error hError => ?_
  match result, hError with
  | .error _, rfl => exact ((malformed_iff hLines).2 hResult).line_eq

theorem pairwise_failures_resolveAll :
    (failures (resolveAll (nameAll (declarationsIn (readSource source))))).Pairwise
      fun first second => first.line < second.line := by
  have hLine : ∀ declaration error,
      resolveParents (nameAll (declarationsIn (readSource source))).catalog declaration =
        .error error → error.line = declaration.line := by
    intro declaration error hError
    obtain ⟨_, _, _, _, hFault, _⟩ := resolveParents_nameAll_eq_error_iff.1 hError
    exact line_of_faultOf? hFault
  rw [resolveAll_nameAll, pairwise_failures_iff, List.pairwise_map]
  refine ((pairwise_declarationsIn hLines).sublist (firsts_sublist _)).imp ?_
  intro first second hLess error hError other hOther
  rwa [hLine first error hError, hLine second other hOther]

/-- All errors of a file, reason by reason. -/
def allErrors (source : String) : List Error :=
  let names := nameAll (declarationsIn (readSource source))
  failures (readSource source) ++ names.errors.toList ++ failures (resolveAll names)

theorem mem_allErrors_iff :
    error ∈ allErrors source ↔ ∃ position, Complaint source position error := by
  simp only [allErrors, List.mem_append, mem_failures_readSource_iff hLines,
    mem_errors_readSource_iff hLines, mem_failures_resolveAll_iff hLines, Complaint, exists_or,
    or_assoc]

/-- No line has two errors. -/
theorem nodup_line_allErrors : ((allErrors source).map (·.line)).Nodup := by
  have hMalformed : ∀ error ∈ failures (readSource source),
      ∃ position, Malformed source position error :=
    fun _ => (mem_failures_readSource_iff hLines).1
  have hRedeclared : ∀ error ∈ (nameAll (declarationsIn (readSource source))).errors.toList,
      ∃ position, Redeclared source position error :=
    fun _ => (mem_errors_readSource_iff hLines).1
  have hUnresolved : ∀ error ∈ failures (resolveAll (nameAll (declarationsIn (readSource source)))),
      ∃ position, Unresolved source position error :=
    fun _ => (mem_failures_resolveAll_iff hLines).1
  have hDeclarations : ((declarationsIn (readSource source)).map (·.line)).Nodup :=
    List.pairwise_map.2 ((pairwise_declarationsIn hLines).imp Nat.ne_of_lt)
  -- Each of the three passes reports in the order of lines, and no line is reported by two.
  rw [allErrors, List.map_append, List.map_append, List.nodup_append, List.nodup_append]
  refine ⟨⟨?_, ?_, ?_⟩, ?_, ?_⟩
  · exact List.pairwise_map.2 ((pairwise_failures_readSource hLines).imp Nat.ne_of_lt)
  · exact hDeclarations.sublist (errors_nameAll_sublist _)
  · exact lines_ne hMalformed hRedeclared (fun _ _ => Malformed.line_eq)
      (fun _ _ => Redeclared.line_eq) fun _ _ _ h => h.not_redeclared
  · exact List.pairwise_map.2 ((pairwise_failures_resolveAll hLines).imp Nat.ne_of_lt)
  · intro line hLine
    rcases List.mem_append.1 hLine with hFirst | hSecond
    · exact lines_ne hMalformed hUnresolved (fun _ _ => Malformed.line_eq)
        (fun _ _ => Unresolved.line_eq) (fun _ _ _ h => h.not_unresolved) line hFirst
    · exact lines_ne hRedeclared hUnresolved (fun _ _ => Redeclared.line_eq)
        (fun _ _ => Unresolved.line_eq) (fun _ _ _ h => h.not_unresolved) line hSecond

end

theorem eq_mergeSort_of_load {errors : List Error} (hLoad : load source = .error errors) :
    errors = (allErrors source).mergeSort fun first second => first.line ≤ second.line := by
  rw [load_eq] at hLoad
  split at hLoad
  · cases hLoad
  · rw [← Except.error.inj hLoad]
    rfl

/-- Errors in different lines are put in the order of these. -/
theorem pairwise_mergeSort_line {errors : List Error} (h : (errors.map (·.line)).Nodup) :
    (errors.mergeSort fun first second => first.line ≤ second.line).Pairwise
      fun first second => first.line < second.line := by
  have hSorted : (errors.mergeSort fun first second => first.line ≤ second.line).Pairwise
      fun first second => decide (first.line ≤ second.line) = true :=
    List.pairwise_mergeSort (by simpa using fun _ _ _ => Nat.le_trans)
      (by simpa using fun _ _ => Nat.le_total _ _) errors
  have hPerm := List.mergeSort_perm errors fun first second => decide (first.line ≤ second.line)
  have hDistinct := List.pairwise_map.1 ((hPerm.map (·.line)).nodup_iff.2 h)
  refine (hSorted.and hDistinct).imp ?_
  rintro first second ⟨hLe, hNe⟩
  exact Nat.lt_of_le_of_ne (of_decide_eq_true hLe) hNe

/-- Each bad line is reported once, in the order of the lines, and nothing else is. -/
theorem errors_of_load {errors : List Error} (hLines : lineCount source < 2 ^ 32)
    (hLoad : load source = .error errors) :
    (errors.Pairwise fun first second => first.line < second.line) ∧
    (∀ error, error ∈ errors ↔ ∃ position, Complaint source position error) ∧
    ∀ position, (∃ error ∈ errors, error.line = position + 1) ↔
      (∃ text, LineAt source position text ∧
        ∀ said, ¬Declaration.Says (position + 1) text said) ∨
      (∃ declaration, DeclaresAt source position declaration ∧
        (declaration.name ∈ predeclared.map Prod.fst ∨
          ∃ earlier < position, ∃ other, DeclaresAt source earlier other ∧
            other.name = declaration.name)) ∨
      ∃ declaration, FirstAt source position declaration ∧
        ∃ parent ∈ declaration.parents, ¬HasType source parent := by
  have hErrors := eq_mergeSort_of_load hLoad
  have hMem : ∀ error, error ∈ errors ↔ ∃ position, Complaint source position error := by
    intro error
    rw [hErrors, List.mem_mergeSort, mem_allErrors_iff hLines]
  refine ⟨?_, hMem, fun position => ?_⟩
  · rw [hErrors]
    exact pairwise_mergeSort_line (nodup_line_allErrors hLines)
  rw [← exists_malformed_iff, ← exists_redeclared_iff, ← exists_unresolved_iff, ← exists_or,
    ← exists_or]
  constructor
  · rintro ⟨error, hError, hLine⟩
    obtain ⟨place, hComplaint⟩ := (hMem error).1 hError
    obtain rfl : place = position := Nat.succ.inj (hComplaint.line_eq.symm.trans hLine)
    exact ⟨error, hComplaint⟩
  · rintro ⟨error, hComplaint⟩
    exact ⟨error, (hMem error).2 ⟨position, hComplaint⟩, Complaint.line_eq hComplaint⟩

/-- A file with something wrong in all of its lines but the second. -/
def brokenSource : String :=
  "class A extends I\ninterface I\nclass A\n?\nclass B implements I,X,A"

def brokenDeclarations : List Declaration :=
  [⟨1, .classType, "A", some "I", []⟩, ⟨2, .interfaceType, "I", none, []⟩,
    ⟨3, .classType, "A", none, []⟩, ⟨5, .classType, "B", none, ["I", "X", "A"]⟩]

theorem readSource_broken : readSource brokenSource =
    [.ok (some ⟨1, .classType, "A", some "I", []⟩), .ok (some ⟨2, .interfaceType, "I", none, []⟩),
      .ok (some ⟨3, .classType, "A", none, []⟩), .error (.badLine 4 (.noDeclaration "?")),
      .ok (some ⟨5, .classType, "B", none, ["I", "X", "A"]⟩)] := by
  decide +kernel

theorem lineCount_broken : lineCount brokenSource < 2 ^ 32 := by
  decide +kernel

theorem hasType_broken_iff {type : String × Kind} :
    HasType brokenSource type ↔ type ∈ types (firsts brokenDeclarations) := by
  rw [← mem_types_iff lineCount_broken, readSource_broken]
  rfl

/-- The third line of that file gives the name of the first one again, and the others have parents
of which one is not known or not of the right kind. -/
theorem errors_of_load_broken : ∃ errors, load brokenSource = .error errors ∧
    (errors.Pairwise fun first second => first.line < second.line) ∧
    .wrongKind 1 "I" .classType ∈ errors ∧ .duplicate 3 "A" (some 1) ∈ errors ∧
    .unknownType 5 "X" ∈ errors := by
  obtain ⟨errors, hLoad⟩ : ∃ errors, load brokenSource = .error errors := by
    cases hLoad : load brokenSource with
    | error errors => exact ⟨errors, rfl⟩
    | ok hierarchy =>
        obtain ⟨said, _, hSaid, _⟩ := load_eq_ok_iff.1 hLoad
        have hNone := failures_eq_nil_iff.2 ⟨said, hSaid⟩
        rw [readSource_broken] at hNone
        cases hNone
  have hFirst : FirstAt brokenSource 0 ⟨1, .classType, "A", some "I", []⟩ := by
    rw [firstAt_iff lineCount_broken, declaresAt_iff lineCount_broken, readSource_broken]
    decide
  have hAgain : DeclaresAt brokenSource 2 ⟨3, .classType, "A", none, []⟩ := by
    rw [declaresAt_iff lineCount_broken, readSource_broken]
    rfl
  have hLast : FirstAt brokenSource 4 ⟨5, .classType, "B", none, ["I", "X", "A"]⟩ := by
    rw [firstAt_iff lineCount_broken, declaresAt_iff lineCount_broken, readSource_broken]
    decide
  have hUnknown : ∀ kind, ¬HasType brokenSource ("X", kind) := by
    intro kind
    rw [hasType_broken_iff]
    cases kind <;> decide
  have hInterface : HasType brokenSource ("I", .interfaceType) := hasType_broken_iff.2 (by decide)
  have hNoClass : ¬HasType brokenSource ("I", .classType) := hasType_broken_iff.not.2 (by decide)
  obtain ⟨hSorted, hMem, _⟩ := errors_of_load lineCount_broken hLoad
  refine ⟨errors, hLoad, hSorted, (hMem _).2 ⟨0, .inr (.inr ?_)⟩, (hMem _).2 ⟨2, .inr (.inl ?_)⟩,
    (hMem _).2 ⟨4, .inr (.inr ?_)⟩⟩
  · exact .wrongKind hFirst ⟨[], [], rfl, by simp, hNoClass⟩ hInterface
  · exact .declared hAgain (by decide) hFirst rfl
  · exact .unknown hLast ⟨[("I", .interfaceType)], [("A", .interfaceType)], rfl,
      by simpa using hInterface, hUnknown _⟩ hUnknown

end Ancestry.Hierarchy
