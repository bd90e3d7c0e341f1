import Ancestry.Hierarchy.Declaration
import Ancestry.Proofs.Results
import Ancestry.Proofs.Text.Words

/-! The language of the lines of a hierarchy file. The words of a declaration are determined by the
declaration (`Declaration.writtenWords`); main statements: the reader takes exactly these words
for it (`Declaration.readWords_eq_ok_iff`), and hence the lines that have these words up to their
comments (`Declaration.readLine_eq_ok_iff`). -/
namespace Ancestry

theorem Primitive.ofKeyword?_eq_none_iff {word : String} :
    ofKeyword? word = none ↔ ∀ kind : Primitive, kind.keyword ≠ word := by
  simp [ofKeyword?, List.find?_eq_none, mem_all]

namespace Declaration

variable {line : Nat} {word keyword : String} {words names : List String}
  {declaration : Declaration}

/-- The word is an identifier, but neither a keyword nor the name of a primitive kind. -/
structure IsName (word : String) : Prop where
  identifier : ∃ first rest, word.toList = first :: rest ∧ startsName first = true ∧
    ∀ c ∈ rest, continuesName c = true
  not_keyword : word ∉ keywords
  not_primitive : ∀ kind : Primitive, kind.keyword ≠ word

/-- A keyword with the names behind it, which commas separate. Without names there is no keyword. -/
def clause (keyword : String) (names : List String) : List String :=
  if names = [] then [] else keyword :: names.intersperse ","

/-- The words that make the declaration. -/
def writtenWords (declaration : Declaration) : List String :=
  match declaration.kind with
  | .interfaceType =>
    "interface" :: declaration.name :: clause "extends" declaration.interfaces
  | .classType =>
    "class" :: declaration.name :: (clause "extends" declaration.superclass.toList ++
      clause "implements" declaration.interfaces)

/-- What the declaration has for names are names, and no interface extends a class. -/
structure IsProper (declaration : Declaration) : Prop where
  name : IsName declaration.name
  superclass : ∀ name ∈ declaration.superclass, IsName name
  interfaces : ∀ name ∈ declaration.interfaces, IsName name
  superclass_eq_none : declaration.kind = .interfaceType → declaration.superclass = none

theorem isIdentifier_iff : isIdentifier word = true ↔
    ∃ first rest, word.toList = first :: rest ∧ startsName first = true ∧
      ∀ c ∈ rest, continuesName c = true := by
  rw [isIdentifier]
  cases word.toList with
  | nil => simp
  | cons first rest =>
      rw [Bool.and_eq_true, List.all_eq_true]
      constructor
      · exact fun h => ⟨first, rest, rfl, h⟩
      · rintro ⟨_, _, hSame, h⟩
        cases hSame
        exact h

theorem checkName_eq_ok_iff {name : String} :
    checkName word = .ok name ↔ name = word ∧ IsName word := by
  have hName : IsName word ↔
      isIdentifier word = true ∧ word ∉ keywords ∧ Primitive.ofKeyword? word = none := by
    rw [isIdentifier_iff, Primitive.ofKeyword?_eq_none_iff]
    exact ⟨fun h => ⟨h.identifier, h.not_keyword, h.not_primitive⟩, fun h => ⟨h.1, h.2.1, h.2.2⟩⟩
  rw [checkName, hName]
  cases Primitive.ofKeyword? word with
  | some kind => simp
  | none =>
      by_cases hKeyword : word ∈ keywords
      · simp [hKeyword]
      · cases hIdentifier : isIdentifier word <;> simp [hKeyword, eq_comm]

theorem readName_eq_ok_iff {name : String} {rest : List String} :
    readName words = .ok (name, rest) ↔ IsName name ∧ words = name :: rest := by
  cases words with
  | nil => simp [readName]
  | cons word others =>
      simp only [readName, bind_eq_ok_iff, checkName_eq_ok_iff]
      constructor
      · rintro ⟨found, ⟨rfl, hName⟩, hSame⟩
        cases hSame
        exact ⟨hName, rfl⟩
      · rintro ⟨hName, hSame⟩
        cases hSame
        exact ⟨name, ⟨rfl, hName⟩, rfl⟩

/-- Names are read up to the end if they and the commas between them are all that is left. -/
theorem readNames_eq_ok_iff : readNames words = .ok (names, []) ↔
    names ≠ [] ∧ (∀ name ∈ names, IsName name) ∧ words = names.intersperse "," := by
  induction words using readNames.induct generalizing names with
  | case1 =>
      cases names with
      | nil => simp [readNames]
      | cons name names => cases names <;> simp [readNames]
  | case2 word rest ih =>
      simp only [readNames, bind_eq_ok_iff, checkName_eq_ok_iff, Prod.exists]
      constructor
      · rintro ⟨found, ⟨rfl, hName⟩, others, end_, hOthers, hSame⟩
        cases hSame
        obtain ⟨hSome, hNames, rfl⟩ := ih.1 hOthers
        obtain ⟨next, others, rfl⟩ := List.exists_cons_of_ne_nil hSome
        exact ⟨List.cons_ne_nil _ _, List.forall_mem_cons.2 ⟨hName, hNames⟩, rfl⟩
      · rintro ⟨_, hNames, hWords⟩
        match names, hNames, hWords with
        | name :: next :: others, hNames, hWords =>
          cases hWords
          obtain ⟨hName, hNames⟩ := List.forall_mem_cons.1 hNames
          exact ⟨word, ⟨rfl, hName⟩, next :: others, [],
            ih.2 ⟨List.cons_ne_nil _ _, hNames, rfl⟩, rfl⟩
  | case3 word rest hComma =>
      rw [readNames]
      simp only [bind_eq_ok_iff, checkName_eq_ok_iff]
      · constructor
        · rintro ⟨found, ⟨rfl, hName⟩, hSame⟩
          cases hSame
          exact ⟨List.cons_ne_nil _ _, by simpa using hName, rfl⟩
        · rintro ⟨_, hNames, hWords⟩
          match names, hNames, hWords with
          | [name], hNames, hWords =>
            cases hWords
            exact ⟨word, ⟨rfl, hNames word List.mem_cons_self⟩, rfl⟩
          | name :: next :: others, _, hWords =>
            cases hWords
            exact absurd rfl (hComma _)
      · exact hComma

theorem readClause_eq_ok_iff : readClause keyword words = .ok (names, []) ↔
    (∀ name ∈ names, IsName name) ∧ words = clause keyword names := by
  cases words with
  | nil =>
      by_cases hNames : names = [] <;> simp [readClause, clause, hNames, eq_comm]
  | cons word rest =>
      by_cases hKeyword : word = keyword
      · subst hKeyword
        by_cases hNames : names = []
        · simp [readClause, readNames_eq_ok_iff, clause, hNames]
        · simp [readClause, readNames_eq_ok_iff, clause, hNames]
      · by_cases hNames : names = [] <;> simp [readClause, clause, hKeyword, hNames]

theorem readSuperclass_eq_ok_iff {superclass : Option String} {rest : List String} :
    readSuperclass words = .ok (superclass, rest) ↔
      (∀ name ∈ superclass, IsName name) ∧ words = clause "extends" superclass.toList ++ rest ∧
        if superclass.isSome then rest.head? ≠ some "," else words.head? ≠ some "extends" := by
  unfold readSuperclass
  split
  · rename_i others
    simp only [bind_eq_ok_iff, readName_eq_ok_iff, Prod.exists]
    constructor
    · rintro ⟨name, behind, ⟨hName, rfl⟩, h⟩
      by_cases hComma : behind.head? = some ","
      · rw [if_pos hComma] at h
        cases h
      · rw [if_neg hComma] at h
        cases h
        exact ⟨by simpa using hName, rfl, hComma⟩
    · rintro ⟨hNames, hWords, hNext⟩
      cases superclass with
      | none => exact absurd rfl hNext
      | some name =>
          cases hWords
          exact ⟨name, rest, ⟨hNames name rfl, rfl⟩, if_neg hNext⟩
  · rename_i hOther
    constructor
    · intro h
      cases h
      refine ⟨by simp, rfl, ?_⟩
      cases words with
      | nil => simp
      | cons word rest =>
          intro hSame
          obtain rfl : word = "extends" := by simpa using hSame
          exact hOther rest rfl
    · rintro ⟨_, hWords, _⟩
      cases superclass with
      | none => rw [hWords]; rfl
      | some name => exact absurd hWords (hOther _)

theorem readInterface_eq_ok_iff : readInterface line words = .ok declaration ↔
    declaration.line = line ∧ declaration.kind = .interfaceType ∧ declaration.IsProper ∧
      "interface" :: words = declaration.writtenWords := by
  simp only [readInterface, bind_eq_ok_iff, readName_eq_ok_iff, Prod.exists]
  constructor
  · rintro ⟨name, rest, ⟨hName, rfl⟩, interfaces, behind, hClause, h⟩
    split at h
    · obtain ⟨hNames, rfl⟩ := readClause_eq_ok_iff.1 hClause
      cases h
      exact ⟨rfl, rfl, ⟨hName, by simp, hNames, fun _ => rfl⟩, rfl⟩
    · cases h
    · cases h
  · obtain ⟨line, kind, name, superclass, interfaces⟩ := declaration
    rintro ⟨rfl, rfl, hProper, hWords⟩
    obtain rfl : superclass = none := hProper.superclass_eq_none rfl
    cases hWords
    exact ⟨name, _, ⟨hProper.name, rfl⟩, interfaces, [],
      readClause_eq_ok_iff.2 ⟨hProper.interfaces, rfl⟩, rfl⟩

/-- A clause does not begin with anything but its keyword. -/
theorem head?_clause_ne {other : String} (h : other ≠ keyword) :
    (clause keyword names).head? ≠ some other := by
  unfold clause
  split
  · simp
  · simpa using h.symm

theorem readClass_eq_ok_iff : readClass line words = .ok declaration ↔
    declaration.line = line ∧ declaration.kind = .classType ∧ declaration.IsProper ∧
      "class" :: words = declaration.writtenWords := by
  simp only [readClass, bind_eq_ok_iff, readName_eq_ok_iff, readSuperclass_eq_ok_iff, Prod.exists]
  constructor
  · rintro ⟨name, rest, ⟨hName, rfl⟩, superclass, behind, ⟨hSuperclass, rfl, _⟩, interfaces, last,
      hClause, h⟩
    split at h
    · obtain ⟨hNames, rfl⟩ := readClause_eq_ok_iff.1 hClause
      cases h
      exact ⟨rfl, rfl, ⟨hName, hSuperclass, hNames, nofun⟩, rfl⟩
    · cases h
    · cases h
  · obtain ⟨line, kind, name, superclass, interfaces⟩ := declaration
    rintro ⟨rfl, rfl, hProper, hWords⟩
    cases hWords
    refine ⟨name, _, ⟨hProper.name, rfl⟩, superclass, _, ⟨hProper.superclass, rfl, ?_⟩, interfaces,
      [], readClause_eq_ok_iff.2 ⟨hProper.interfaces, rfl⟩, rfl⟩
    cases superclass with
    | none => exact head?_clause_ne (by decide)
    | some name => exact head?_clause_ne (by decide)

theorem exists_writtenWords_eq_cons (declaration : Declaration) :
    ∃ rest, declaration.writtenWords =
      (match declaration.kind with | .interfaceType => "interface" | .classType => "class") ::
        rest := by
  unfold writtenWords
  cases declaration.kind <;> exact ⟨_, rfl⟩

/-- A line without words declares nothing, and any other line the declaration that has its
words. -/
theorem readWords_eq_ok_iff {said : Option Declaration} : readWords line words = .ok said ↔
    match said with
    | none => words = []
    | some declaration =>
      declaration.line = line ∧ declaration.IsProper ∧ words = declaration.writtenWords := by
  cases said with
  | none =>
      constructor
      · intro h
        unfold readWords at h
        split at h
        · rfl
        · obtain ⟨_, _, hSame⟩ := map_eq_ok_iff.1 h
          cases hSame
        · obtain ⟨_, _, hSame⟩ := map_eq_ok_iff.1 h
          cases hSame
        · cases h
      · rintro rfl
        rfl
  | some declaration =>
      constructor
      · intro h
        unfold readWords at h
        split at h
        · cases h
        · obtain ⟨_, hRead, hSame⟩ := map_eq_ok_iff.1 h
          cases hSame
          obtain ⟨hLine, _, hProper, hWords⟩ := readInterface_eq_ok_iff.1 hRead
          exact ⟨hLine, hProper, hWords⟩
        · obtain ⟨_, hRead, hSame⟩ := map_eq_ok_iff.1 h
          cases hSame
          obtain ⟨hLine, _, hProper, hWords⟩ := readClass_eq_ok_iff.1 hRead
          exact ⟨hLine, hProper, hWords⟩
        · cases h
      · rintro ⟨hLine, hProper, rfl⟩
        obtain ⟨rest, hRest⟩ := exists_writtenWords_eq_cons declaration
        cases hKind : declaration.kind with
        | interfaceType =>
            rw [hKind] at hRest
            rw [hRest]
            exact map_eq_ok_iff.2
              ⟨_, readInterface_eq_ok_iff.2 ⟨hLine, hKind, hProper, hRest.symm⟩, rfl⟩
        | classType =>
            rw [hKind] at hRest
            rw [hRest]
            exact map_eq_ok_iff.2
              ⟨_, readClass_eq_ok_iff.2 ⟨hLine, hKind, hProper, hRest.symm⟩, rfl⟩

/-- What a line with the given number says: nothing if it is blank up to its first `#`, or else the
declaration whose words it has there. -/
def Says (line : Nat) (text : List Char) : Option Declaration → Prop
  | none => ∀ c ∈ text.takeWhile (· != '#'), Text.isBlank c = true
  | some declaration => declaration.line = line ∧ declaration.IsProper ∧
      Text.HasWords (text.takeWhile (· != '#')) (declaration.writtenWords.map String.toList)

/-- The lines that are read are those that say something, and they are read as what they say. -/
theorem readLine_eq_ok_iff {text : List Char} {said : Option Declaration} :
    readLine line text = .ok said ↔ Says line text said := by
  rw [readLine, readWords_eq_ok_iff]
  cases said with
  | none => simp only [wordsOfLine, List.map_eq_nil_iff, Text.words_eq_nil_iff, Says]
  | some declaration =>
      have hWords : wordsOfLine text = declaration.writtenWords ↔
          Text.HasWords (text.takeWhile (· != '#'))
            (declaration.writtenWords.map String.toList) := by
        rw [Text.hasWords_iff, wordsOfLine]
        constructor
        · intro h
          rw [← h]
          simp
        · intro h
          rw [h]
          simp
      simp only [hWords, Says]

end Declaration

end Ancestry
