import Mathlib.Data.List.Basic

/-! Colour sequences of terminals, and texts without them. Main statements: what is removed from a
text is its colour sequences (`Text.IsSequence.removeSequences`) and nothing that stands outside of
them (`Text.removeSequences_append`). -/
namespace Ancestry

namespace Text

/-- The character with which every terminal sequence begins. -/
def escapeCharacter : Char := '\x1b'

/-- No terminal sequence can begin in the text. -/
def Uncoloured (text : String) : Prop := escapeCharacter ∉ text.toList

instance (text : String) : Decidable (Uncoloured text) :=
  inferInstanceAs (Decidable (escapeCharacter ∉ text.toList))

/-- Whether a character may stand in the numbers of a colour sequence or between them. -/
def isParameter (c : Char) : Bool := c.isDigit || c == ';'

/-- What stands behind the colour sequence with which a text begins, if it begins with one: the
escape character and a bracket, then numbers with semicolons, then an `m`. -/
def behindSequence? : List Char → Option (List Char)
  | first :: second :: rest =>
    if first = escapeCharacter ∧ second = '[' then
      match rest.dropWhile isParameter with
      | 'm' :: behind => some behind
      | _ => none
    else none
  | _ => none

theorem length_lt_of_behindSequence? {text behind : List Char}
    (h : behindSequence? text = some behind) : behind.length < text.length := by
  unfold behindSequence? at h
  split at h
  · rename_i first second rest
    split at h
    · split at h
      · rename_i left hLeft
        cases h
        have hLength := (List.dropWhile_sublist (p := isParameter) (l := rest)).length_le
        rw [hLeft] at hLength
        simp only [List.length_cons] at hLength ⊢
        omega
      · cases h
    · cases h
  · cases h

/-- The text without its colour sequences. -/
def removeSequences : List Char → List Char
  | [] => []
  | c :: rest =>
    match _h : behindSequence? (c :: rest) with
    | some behind => removeSequences behind
    | none => c :: removeSequences rest
termination_by text => text.length
decreasing_by
  · exact length_lt_of_behindSequence? _h
  · simp

def withoutColours (text : String) : String := String.ofList (removeSequences text.toList)

theorem removeSequences_of_sequence {parameters rest : List Char}
    (h : ∀ c ∈ parameters, isParameter c = true) :
    removeSequences (escapeCharacter :: '[' :: parameters ++ 'm' :: rest) =
      removeSequences rest := by
  have hBehind :
      behindSequence? (escapeCharacter :: '[' :: parameters ++ 'm' :: rest) = some rest := by
    have hLeft : (parameters ++ 'm' :: rest).dropWhile isParameter = 'm' :: rest := by
      rw [List.dropWhile_append_of_pos h]
      rfl
    simp [behindSequence?, hLeft]
  rw [List.cons_append, removeSequences]
  split
  · rename_i behind hFound
    obtain rfl : behind = rest := Option.some.inj (hFound.symm.trans hBehind)
    rfl
  · rename_i hNone
    cases hNone.symm.trans hBehind

theorem behindSequence?_of_ne {c : Char} (h : c ≠ escapeCharacter) (rest : List Char) :
    behindSequence? (c :: rest) = none := by
  cases rest with
  | nil => rfl
  | cons second rest => exact if_neg fun hBegins => h hBegins.1

theorem removeSequences_append {text rest : List Char} (h : escapeCharacter ∉ text) :
    removeSequences (text ++ rest) = text ++ removeSequences rest := by
  induction text with
  | nil => rfl
  | cons c others ih =>
      have hFirst : c ≠ escapeCharacter := fun hSame => h (hSame ▸ List.mem_cons_self)
      have hNone := behindSequence?_of_ne hFirst (others ++ rest)
      rw [List.cons_append, removeSequences]
      split
      · rename_i hFound
        cases hFound.symm.trans hNone
      · rw [ih fun hMember => h (List.mem_cons_of_mem _ hMember), List.cons_append]

theorem uncoloured_append {first second : String} :
    Uncoloured (first ++ second) ↔ Uncoloured first ∧ Uncoloured second := by
  simp [Uncoloured, not_or]

theorem uncoloured_toString (n : Nat) : Uncoloured (toString n) := by
  intro hMember
  rw [Nat.toString_eq_ofList_toDigits, String.toList_ofList] at hMember
  have hDigit := Nat.isDigit_of_mem_toDigits (by decide) (by decide) hMember
  exact absurd hDigit (by decide)

theorem removeSequences_of_uncoloured {text : List Char} (h : escapeCharacter ∉ text) :
    removeSequences text = text := by
  have hAppend : removeSequences (text ++ []) = text ++ removeSequences [] :=
    removeSequences_append h
  rwa [List.append_nil, removeSequences, List.append_nil] at hAppend

/-- The text is one colour sequence and nothing else. -/
def IsSequence (text : String) : Prop :=
  ∃ parameters, (∀ c ∈ parameters, isParameter c = true) ∧
    text.toList = escapeCharacter :: '[' :: parameters ++ ['m']

theorem IsSequence.removeSequences {text : String} (h : IsSequence text) (rest : List Char) :
    removeSequences (text.toList ++ rest) = removeSequences rest := by
  obtain ⟨parameters, hParameters, hText⟩ := h
  rw [hText, List.append_assoc]
  exact removeSequences_of_sequence hParameters

theorem IsSequence.not_uncoloured {text : String} (h : IsSequence text) : ¬Uncoloured text := by
  obtain ⟨parameters, _, hText⟩ := h
  exact fun hNone => hNone (hText ▸ List.mem_cons_self)

end Text

end Ancestry
