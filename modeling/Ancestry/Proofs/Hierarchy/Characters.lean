import Ancestry.Proofs.Hierarchy.Identities
import Ancestry.Proofs.Text.Blanks

/-! The characters of the names in a hierarchy file. Main statement: a name has no character in
ranges that stand apart from letters, numerals and a few others
(`Declaration.IsName.not_isInRanges`), so that it has neither blanks nor brackets
(`Declaration.IsName.isNameChar`), and every type of a loaded file has such a name
(`Hierarchy.Means.isName_className`). -/
namespace Ancestry

namespace Text

/-- Whether no range meets any of the others. -/
def areApart (ranges others : List (Nat × Nat)) : Bool :=
  ranges.all fun range => others.all fun other => range.2 < other.1 || other.2 < range.1

theorem isInRanges_eq_false {ranges others : List (Nat × Nat)} {c : Char}
    (hApart : areApart ranges others = true) (h : isInRanges ranges c = true) :
    isInRanges others c = false := by
  obtain ⟨range, hRange, hIn⟩ := List.any_eq_true.1 h
  refine List.any_eq_false.2 fun other hOther hInOther => ?_
  have hMiss := List.all_eq_true.1 (List.all_eq_true.1 hApart range hRange) other hOther
  simp only [Bool.and_eq_true, Bool.or_eq_true, decide_eq_true_eq] at hIn hInOther hMiss
  omega

end Text

namespace Declaration

variable {c : Char} {word : String}

/-- The ranges of the characters that stand in names and are in no table. -/
def asciiRanges : List (Nat × Nat) :=
  [(0x24, 0x24), (0x2E, 0x2E), (0x30, 0x39), (0x41, 0x5A), (0x5F, 0x5F), (0x61, 0x7A)]

def nameRanges : List (Nat × Nat) := asciiRanges ++ (Text.letterRanges ++ Text.numeralRanges)

theorem isInRanges_of_isAlpha (h : c.isAlpha = true) : Text.isInRanges asciiRanges c = true := by
  have hCode : 0x41 ≤ c.toNat ∧ c.toNat ≤ 0x5A ∨ 0x61 ≤ c.toNat ∧ c.toNat ≤ 0x7A := by
    rcases (Bool.or_eq_true _ _).mp h with hUpper | hLower
    · exact .inl (of_decide_eq_true hUpper)
    · obtain ⟨hFrom, hTo⟩ := (Bool.and_eq_true _ _).mp hLower
      exact .inr ⟨of_decide_eq_true hFrom, of_decide_eq_true hTo⟩
  simp only [Text.isInRanges, asciiRanges, List.any_cons, List.any_nil, Bool.or_false,
    Bool.or_eq_true, Bool.and_eq_true, decide_eq_true_eq]
  omega

theorem isInRanges_of_isDigit (h : c.isDigit = true) : Text.isInRanges asciiRanges c = true := by
  have hCode : 0x30 ≤ c.toNat ∧ c.toNat ≤ 0x39 := by
    obtain ⟨hFrom, hTo⟩ := (Bool.and_eq_true _ _).mp h
    exact ⟨of_decide_eq_true hFrom, of_decide_eq_true hTo⟩
  simp only [Text.isInRanges, asciiRanges, List.any_cons, List.any_nil, Bool.or_false,
    Bool.or_eq_true, Bool.and_eq_true, decide_eq_true_eq]
  omega

theorem isInRanges_of_continuesName (h : continuesName c = true) :
    Text.isInRanges nameRanges c = true := by
  have hAppend : ∀ ranges others : List (Nat × Nat), Text.isInRanges (ranges ++ others) c =
      (Text.isInRanges ranges c || Text.isInRanges others c) := fun _ _ => List.any_append
  simp only [continuesName, Text.isLetter, Text.isNumeral, Bool.or_eq_true, beq_iff_eq] at h
  simp only [nameRanges, hAppend, Bool.or_eq_true]
  rcases h with ((((hAlpha | hLetter) | (hDigit | hNumeral)) | rfl) | rfl) | rfl
  · exact .inl (isInRanges_of_isAlpha hAlpha)
  · exact .inr (.inl hLetter)
  · exact .inl (isInRanges_of_isDigit hDigit)
  · exact .inr (.inr hNumeral)
  · exact .inl rfl
  · exact .inl rfl
  · exact .inl rfl

/-- Whatever starts a name may also stand behind its start. -/
theorem continuesName_of_startsName (h : startsName c = true) : continuesName c = true := by
  simp only [startsName, Bool.or_eq_true] at h
  simp only [continuesName, Bool.or_eq_true]
  rcases h with (hLetter | hUnderscore) | hDollar
  · exact .inl (.inl (.inl (.inl hLetter)))
  · exact .inl (.inl (.inr hUnderscore))
  · exact .inl (.inr hDollar)

theorem IsName.continuesName (h : IsName word) : ∀ c ∈ word.toList, continuesName c = true := by
  obtain ⟨first, rest, hWord, hFirst, hRest⟩ := h.identifier
  rw [hWord]
  exact List.forall_mem_cons.2 ⟨continuesName_of_startsName hFirst, hRest⟩

theorem IsName.not_isInRanges {others : List (Nat × Nat)} (h : IsName word)
    (hApart : Text.areApart nameRanges others = true) :
    ∀ c ∈ word.toList, Text.isInRanges others c = false :=
  fun c hMem => Text.isInRanges_eq_false hApart (isInRanges_of_continuesName
    (h.continuesName c hMem))

/-- No letter and no numeral of any script is a blank. -/
theorem IsName.isNameChar (h : IsName word) :
    word.toList ≠ [] ∧ ∀ c ∈ word.toList, Text.isNameChar c = true := by
  have hApart : Text.areApart nameRanges ((0x5B, 0x5D) :: Text.blankRanges) = true := by
    decide +kernel
  constructor
  · obtain ⟨first, rest, hWord, _⟩ := h.identifier
    rw [hWord]
    exact List.cons_ne_nil _ _
  · intro c hMem
    have hOut := h.not_isInRanges hApart c hMem
    rw [Text.isInRanges, List.any_cons, Bool.or_eq_false_iff] at hOut
    obtain ⟨hBracket, hBlank⟩ := hOut
    have hOpen : c ≠ '[' := by
      rintro rfl
      cases hBracket
    have hClose : c ≠ ']' := by
      rintro rfl
      cases hBracket
    simp [Text.isNameChar, Text.isBlank, Text.isInRanges, hBlank, hOpen, hClose]

end Declaration

namespace Hierarchy

open Declaration (IsName)

variable {declarations : List Declaration} {hierarchy : Hierarchy} {id : ClassId}

theorem isName_predeclared : ∀ type ∈ predeclared, IsName type.1 := by
  have hChecked : ∀ type ∈ predeclared, Declaration.checkName type.1 = .ok type.1 := by
    decide +kernel
  exact fun type hType => (Declaration.checkName_eq_ok_iff.1 (hChecked type hType)).2

/-- All types of a file have names that a line may declare, the predeclared ones as well. -/
theorem Means.isName_className (h : Means declarations hierarchy)
    (hProper : ∀ declaration ∈ declarations, declaration.IsProper)
    (hId : IsKnown declarations id) : IsName (hierarchy.catalog.className id) := by
  obtain ⟨type, hType, hName⟩ := List.mem_map.1 (List.mem_of_getElem? (h.typeNames_getElem?_eq hId))
  rw [← hName]
  rcases List.mem_append.1 hType with hPredeclared | hDeclared
  · exact isName_predeclared type hPredeclared
  · obtain ⟨declaration, hMem, rfl⟩ := List.mem_map.1 hDeclared
    exact (hProper declaration hMem).name

end Hierarchy

end Ancestry
