import Ancestry.Proofs.Hierarchy.Meaning
import Mathlib.Data.List.ReduceOption

/-! The statements of a file: what its lines say, apart from their places, blanks and comments. Main
statements: the declarations of a file come from its statements (`Hierarchy.Declares.within`), and a
file with the same statements in another order is loaded if one of them is
(`Hierarchy.exists_load_of_perm`). -/
namespace Ancestry

/-- The words of a line are those of what it says. -/
theorem Declaration.wordsOfLine_of_says {line : Nat} {text : List Char} {said : Option Declaration}
    (h : Says line text said) : wordsOfLine text = (said.map writtenWords).getD [] := by
  have hRead := readLine_eq_ok_iff.2 h
  rw [readLine, readWords_eq_ok_iff] at hRead
  cases said with
  | none => exact hRead
  | some declaration => exact hRead.2.2

theorem Declaration.writtenWords_ne_nil (declaration : Declaration) :
    declaration.writtenWords ≠ [] := by
  obtain ⟨rest, hRest⟩ := exists_writtenWords_eq_cons declaration
  rw [hRest]
  exact List.cons_ne_nil _ _

theorem Declaration.IsProper.moved {declaration : Declaration} (h : declaration.IsProper)
    (line : Nat) : IsProper { declaration with line } :=
  ⟨h.name, h.superclass, h.interfaces, h.superclass_eq_none⟩

/-- Declarations are written differently unless they differ in nothing but their lines. -/
theorem Declaration.eq_of_writtenWords {declaration other : Declaration}
    (h : declaration.IsProper) (hOther : other.IsProper)
    (hSame : declaration.writtenWords = other.writtenWords) :
    other = { declaration with line := other.line } := by
  have hRead : readWords other.line other.writtenWords = .ok (some other) :=
    readWords_eq_ok_iff.2 ⟨rfl, hOther, rfl⟩
  have hMoved : readWords other.line other.writtenWords =
      .ok (some { declaration with line := other.line }) :=
    readWords_eq_ok_iff.2 ⟨rfl, h.moved _, hSame.symm⟩
  exact Option.some.inj (Except.ok.inj (hRead.symm.trans hMoved))

namespace Hierarchy

variable {source other : String} {declarations others : List Declaration}

/-- The statements of a source, in their order: the words of each line that has any. -/
def statements (source : String) : List (List String) :=
  ((Text.lines source.toList).map Declaration.wordsOfLine).filter (· ≠ [])

/-- The lines may be moved as they are. -/
theorem statements_perm (h : (Text.lines source.toList).Perm (Text.lines other.toList)) :
    (statements source).Perm (statements other) :=
  (h.map _).filter _

/-- Lines may be added. -/
theorem statements_subset (h : Text.lines source.toList ⊆ Text.lines other.toList) :
    statements source ⊆ statements other := by
  intro words hWords
  obtain ⟨hMem, hSome⟩ := List.mem_filter.1 hWords
  exact List.mem_filter.2 ⟨List.map_subset _ h hMem, hSome⟩

/-- Every declaration is among the others, perhaps in another line. -/
def Within (declarations others : List Declaration) : Prop :=
  ∀ declaration ∈ declarations, ∃ line, { declaration with line } ∈ others

theorem Declares.isProper (h : Declares source declarations) :
    ∀ declaration ∈ declarations, declaration.IsProper := by
  obtain ⟨said, hSaid, rfl⟩ := declares_iff.1 h
  intro declaration hMem
  have hRead : Except.ok (some declaration) ∈ said.map (Except.ok (ε := Error)) :=
    List.mem_map_of_mem (List.reduceOption_mem_iff.1 hMem)
  rw [← hSaid] at hRead
  obtain ⟨⟨text, position⟩, _, hLine⟩ := List.mem_map.1 hRead
  have hSays := Declaration.readLine_eq_ok_iff.1 (mapError_eq_ok_iff.1 hLine)
  exact hSays.2.1

/-- The statements are the words of the declarations. -/
theorem Declares.statements_eq (h : Declares source declarations) :
    statements source = declarations.map (·.writtenWords) := by
  obtain ⟨lines, said, hLines, hSaid, rfl⟩ := h
  rw [statements, Text.hasLines_iff.1 hLines, ← List.zipIdx_map_fst 0 lines]
  generalize lines.zipIdx = numbered at hSaid
  induction hSaid with
  | nil => rfl
  | @cons line said lines rest hSays _ ih =>
      have hWords := Declaration.wordsOfLine_of_says hSays
      cases said with
      | none =>
          rw [List.map_cons, List.map_cons, hWords, List.filter_cons_of_neg (by simp), ih,
            List.reduceOption_cons_of_none]
      | some declaration =>
          rw [List.map_cons, List.map_cons, hWords,
            List.filter_cons_of_pos (by simpa using declaration.writtenWords_ne_nil), ih,
            List.reduceOption_cons_of_some]
          rfl

theorem Declares.within (h : Declares source declarations) (hOther : Declares other others)
    (hStatements : statements source ⊆ statements other) : Within declarations others := by
  intro declaration hMem
  rw [h.statements_eq, hOther.statements_eq] at hStatements
  obtain ⟨found, hFound, hSame⟩ := List.mem_map.1 (hStatements (List.mem_map_of_mem hMem))
  refine ⟨found.line, ?_⟩
  rwa [← Declaration.eq_of_writtenWords (h.isProper _ hMem) (hOther.isProper _ hFound) hSame.symm]

/-- A source all of whose statements are declarations makes some declarations. -/
theorem exists_declares (h : ∀ words ∈ statements source,
    ∃ declaration : Declaration, declaration.IsProper ∧ words = declaration.writtenWords) :
    ∃ declarations, Declares source declarations := by
  obtain ⟨said, hSaid⟩ : ∃ said : List (Option Declaration), readSource source = said.map .ok := by
    refine exists_map_eq_map_ok_iff.2 ?_
    rintro ⟨text, position⟩ hLine
    simp only [mapError_eq_ok_iff, Declaration.readLine, Declaration.readWords_eq_ok_iff]
    by_cases hNone : Declaration.wordsOfLine text = []
    · exact ⟨none, hNone⟩
    · have hText : text ∈ Text.lines source.toList := List.fst_mem_of_mem_zipIdx hLine
      obtain ⟨declaration, hProper, hWords⟩ := h (Declaration.wordsOfLine text)
        (List.mem_filter.2 ⟨List.mem_map_of_mem hText, by simpa using hNone⟩)
      exact ⟨some { declaration with line := lineNumber position }, rfl, hProper.moved _,
        hWords⟩
  exact ⟨_, declares_iff.2 ⟨said, hSaid, rfl⟩⟩

/-- The name and the kind of the type that some words declare. -/
def declaredType? (words : List String) : Option (String × Kind) :=
  match Declaration.readWords 0 words with
  | .ok (some declaration) => some (declaration.name, declaration.kind)
  | _ => none

theorem Declares.types_eq (h : Declares source declarations) :
    types declarations = predeclared ++ (statements source).filterMap declaredType? := by
  rw [types, h.statements_eq, List.filterMap_map, ← List.filterMap_eq_map]
  congr 1
  apply List.filterMap_congr
  intro declaration hMem
  have hProper := h.isProper declaration hMem
  have hRead : Declaration.readWords 0 declaration.writtenWords =
      .ok (some { declaration with line := 0 }) :=
    Declaration.readWords_eq_ok_iff.2 ⟨rfl, hProper.moved 0, rfl⟩
  simp only [Function.comp_apply, declaredType?, hRead]

theorem Within.parentsKnown (hWithin : Within others declarations)
    (hTypes : types declarations ⊆ types others)
    (hKnown : ∀ declaration ∈ declarations, ParentsKnown declarations declaration) :
    ∀ declaration ∈ others, ParentsKnown others declaration := by
  intro declaration hMem
  obtain ⟨line, hMoved⟩ := hWithin declaration hMem
  have hParents := hKnown _ hMoved
  exact ⟨fun name hName => hTypes (hParents.superclass name hName),
    fun name hName => hTypes (hParents.interfaces name hName)⟩

/-- The order of the statements does not matter for a file to be loaded. -/
theorem exists_load_of_perm (hStatements : (statements source).Perm (statements other))
    (hLoad : ∃ hierarchy, load source = .ok hierarchy) :
    ∃ hierarchy, load other = .ok hierarchy := by
  obtain ⟨declarations, hDeclares, hDistinct, hKnown⟩ := exists_load_iff.1 hLoad
  obtain ⟨others, hOthers⟩ : ∃ others, Declares other others := by
    apply exists_declares
    intro words hWords
    rw [← hStatements.mem_iff, hDeclares.statements_eq] at hWords
    obtain ⟨declaration, hMem, rfl⟩ := List.mem_map.1 hWords
    exact ⟨declaration, hDeclares.isProper declaration hMem, rfl⟩
  have hTypes : (types declarations).Perm (types others) := by
    rw [hDeclares.types_eq, hOthers.types_eq]
    exact (hStatements.filterMap _).append_left _
  have hWithin := hOthers.within hDeclares hStatements.symm.subset
  refine exists_load_iff.2 ⟨others, hOthers, ?_, ?_⟩
  · exact ((hTypes.map Prod.fst).nodup_iff).1 hDistinct
  · exact hWithin.parentsKnown hTypes.subset hKnown

end Hierarchy

end Ancestry
