import Ancestry.Proofs.Json.Reader
import Ancestry.Diagnostic.Json
import Mathlib.Data.List.Forall2

/-! How strings, numbers, arrays and objects are written as JSON: quoted texts, decimal digits, and
items with a comma and white space between them. -/
namespace Ancestry.Json

open Text Diagnostic

/-! Strings -/

theorem isSpace_nil : IsSpace [] := nofun

theorem Writes.indented {indentation text : List Char} {value : Value}
    (h : Writes text (.value value)) (hIndentation : IsSpace indentation) :
    Writes (indentation ++ text) (.element value) := by
  simpa using h.element hIndentation isSpace_nil

theorem Writes.element_of_value {text : List Char} {value : Value}
    (h : Writes text (.value value)) : Writes text (.element value) :=
  h.indented isSpace_nil

theorem hexDigit?_digitChar {digit : Nat} (h : digit < 16) :
    hexDigit? (Nat.digitChar digit) = some digit := by
  have hAll : ∀ digit < 16, hexDigit? (Nat.digitChar digit) = some digit := by decide
  exact hAll digit h

theorem writesUnit_hexDigits {n : Nat} (h : n < 0x10000) : WritesUnit (hexDigits 4 n) n := by
  have hDigit (m : Nat) := hexDigit?_digitChar (Nat.mod_lt m (by decide : 0 < 16))
  have hUnit := WritesUnit.of_digits (hDigit (n / 16 / 16 / 16)) (hDigit (n / 16 / 16))
    (hDigit (n / 16)) (hDigit n)
  have hValue : ((n / 16 / 16 / 16 % 16 * 16 + n / 16 / 16 % 16) * 16 + n / 16 % 16) * 16 + n % 16 =
      n := by omega
  rwa [hValue] at hUnit

theorem isPlain_of_not_isControl {c : Char} (hQuotation : c ≠ '"') (hBackslash : c ≠ '\\')
    (h : ¬isControl c = true) : isPlain c = true := by
  simp only [isControl, Bool.or_eq_true, decide_eq_true_eq, not_or] at h
  simp [isPlain, hQuotation, hBackslash, Nat.not_lt.1 h.1]

theorem writesChar_escapeChar (c : Char) : WritesChar (escapeChar c) c := by
  unfold escapeChar
  split_ifs with hQuotation hBackslash hLine hReturn hTab hControl
  · exact .short (by rw [hQuotation]; rfl)
  · exact .short (by rw [hBackslash]; rfl)
  · exact .short (by rw [hLine]; rfl)
  · exact .short (by rw [hReturn]; rfl)
  · exact .short (by rw [hTab]; rfl)
  · simp only [isControl, Bool.or_eq_true, Bool.and_eq_true, decide_eq_true_eq] at hControl
    exact .unit (writesUnit_hexDigits (by omega))
  · exact .plain (isPlain_of_not_isControl hQuotation hBackslash hControl)

theorem writesChars_flatMap_escapeChar (chars : List Char) :
    WritesChars (chars.flatMap escapeChar) chars := by
  induction chars with
  | nil => exact .nil
  | cons c chars ih => exact .cons (writesChar_escapeChar c) ih

theorem writesChars_escape (text : String) : WritesChars (escape text).toList text.toList := by
  rw [escape, String.toList_ofList]
  exact writesChars_flatMap_escapeChar text.toList

theorem writesChars_of_isPlain {chars : List Char} (h : ∀ c ∈ chars, isPlain c = true) :
    WritesChars chars chars := by
  induction chars with
  | nil => exact .nil
  | cons c chars ih =>
      obtain ⟨hFirst, hRest⟩ := List.forall_mem_cons.1 h
      exact .cons (.plain hFirst) (ih hRest)

/-- Whether a text means itself in quotation marks, without any escapes. -/
def IsPlain (text : String) : Prop := ∀ c ∈ text.toList, isPlain c = true

theorem IsPlain.append {first second : String} (hFirst : IsPlain first) (hSecond : IsPlain second) :
    IsPlain (first ++ second) := by
  rw [IsPlain, String.toList_append]
  exact List.forall_mem_append.2 ⟨hFirst, hSecond⟩

instance (text : String) : Decidable (IsPlain text) :=
  decidable_of_iff (text.toList.all isPlain = true) List.all_eq_true

theorem writes_quoted {text string : String} (h : WritesChars text.toList string.toList) :
    Writes ("\"" ++ text ++ "\"").toList (.value (.string string)) := by
  rw [String.toList_append, String.toList_append]
  exact .string h

theorem writes_quote (text : String) : Writes (quote text).toList (.value (.string text)) :=
  writes_quoted (writesChars_escape text)

theorem IsPlain.writes {text : String} (h : IsPlain text) :
    Writes ("\"" ++ text ++ "\"").toList (.value (.string text)) :=
  writes_quoted (writesChars_of_isPlain h)

/-- What a text stands for inside quotation marks. -/
def unescape (text : String) : Option String :=
  match read ("\"" ++ text ++ "\"") with
  | some (.string string) => some string
  | _ => none

theorem unescape_escape (text : String) : unescape (escape text) = some text := by
  have hRead := read_eq_some_iff.2 (writes_quote text).element_of_value
  rw [quote] at hRead
  rw [unescape, hRead]

/-! Numbers -/

theorem decimal_toDigits (n : Nat) : decimal (Nat.toDigits 10 n) = n :=
  Nat.ofDigitChars_ten_toDigits

/-- Only zero has a zero as its first digit. -/
theorem eq_zero_of_head_toDigits {n : Nat} (h : (Nat.toDigits 10 n).head? = some '0') : n = 0 := by
  induction n using Nat.strongRecOn with
  | ind n ih =>
      obtain hSmall | hLarge := Nat.lt_or_ge n 10
      · have hNonzero : ∀ n < 10, (Nat.toDigits 10 n).head? = some '0' → n = 0 := by decide
        exact hNonzero n hSmall h
      · have hFront : (Nat.toDigits 10 (n / 10)).head? = some '0' := by
          rw [Nat.toDigits_of_base_le (by decide) hLarge, List.head?_append] at h
          cases hDigits : Nat.toDigits 10 (n / 10) with
          | nil => exact absurd hDigits Nat.toDigits_ne_nil
          | cons first rest => simpa [hDigits] using h
        have hQuotient := ih (n / 10) (by omega) hFront
        omega

theorem isWhole_toDigits (n : Nat) : IsWhole (Nat.toDigits 10 n) := by
  refine ⟨⟨Nat.toDigits_ne_nil, fun _ => Nat.isDigit_of_mem_toDigits (by decide) (by decide)⟩, ?_⟩
  intro hHead
  rw [eq_zero_of_head_toDigits hHead]
  rfl

theorem writesNumber_toString (n : Nat) : WritesNumber (toString n).toList n := by
  rw [Nat.toString_eq_ofList_toDigits, String.toList_ofList]
  have h := WritesUnsigned.of_parts (isWhole_toDigits n) .none .none
  simpa [decimal_toDigits] using WritesNumber.positive h

/-! Arrays and objects -/

theorem Writes.spaced {before text after : List Char} {value : Value}
    (h : Writes text (.element value)) (hBefore : IsSpace before) (hAfter : IsSpace after) :
    Writes (before ++ text ++ after) (.element value) := by
  cases h with
  | @element front text back _ hFront hBack h =>
      have hWrites : Writes ((before ++ front) ++ text ++ (back ++ after)) (.element value) :=
        .element (List.forall_mem_append.2 ⟨hBefore, hFront⟩)
          (List.forall_mem_append.2 ⟨hBack, hAfter⟩) h
      simpa using hWrites

theorem writes_elements {before space after text : List Char} {value : Value}
    {texts : List (List Char)} {values : List Value} (hBefore : IsSpace before)
    (hSpace : IsSpace space) (hAfter : IsSpace after) (h : Writes text (.element value))
    (hRest : List.Forall₂ (fun text value => Writes text (.element value)) texts values) :
    Writes (before ++ (',' :: space).intercalate (text :: texts) ++ after)
      (.elements (value :: values)) := by
  induction hRest generalizing before text value with
  | nil => simpa using (h.spaced hBefore hAfter).lastElement
  | cons hNext _ ih =>
      have hWrites := (h.spaced hBefore isSpace_nil).elements (ih hSpace hNext)
      simpa [List.intercalate_cons_cons] using hWrites

/-- White space may stand behind the opening bracket of an array, behind commas and in front of the
closing bracket. -/
theorem writes_array {before space after : List Char} {texts : List (List Char)}
    {values : List Value} (hBefore : IsSpace before) (hSpace : IsSpace space)
    (hAfter : IsSpace after)
    (h : List.Forall₂ (fun text value => Writes text (.element value)) texts values) :
    Writes ('[' :: (before ++ (',' :: space).intercalate texts ++ after) ++ [']'])
      (.value (.array values)) := by
  cases h with
  | nil =>
      refine .emptyArray ?_
      rw [List.intercalate_nil, List.append_nil]
      exact List.forall_mem_append.2 ⟨hBefore, hAfter⟩
  | cons hFirst hRest => exact .array (writes_elements hBefore hSpace hAfter hFirst hRest)

theorem jsonLines_cons (first : String) (rest : List String) :
    jsonLines (first :: rest) = ",\n".intercalate (first :: rest) ++ "\n" := by
  induction rest generalizing first with
  | nil => simp [jsonLines]
  | cons second rest ih =>
      rw [jsonLines, ih, String.intercalate_cons_cons]
      · simp [String.append_assoc]
      · simp

theorem forall₂_writes {α : Type} (items : List α) {text : α → String} {value : α → Value}
    (h : ∀ item ∈ items, Writes (text item).toList (.element (value item))) :
    List.Forall₂ (fun text value => Writes text (.element value))
      (items.map fun item => (text item).toList) (items.map value) :=
  List.forall₂_map_left_iff.2 (List.forall₂_map_right_iff.2 (List.forall₂_same.2 h))

/-- An array with each item on lines of its own. -/
theorem writes_jsonLines {α : Type} (items : List α) {text : α → String} {value : α → Value}
    (h : ∀ item ∈ items, Writes (text item).toList (.element (value item))) {indentation : String}
    (hIndentation : IsSpace indentation.toList) :
    Writes ("[\n" ++ jsonLines (items.map text) ++ indentation ++ "]").toList
      (.value (.array (items.map value))) := by
  have hTexts := forall₂_writes items h
  have hLine : IsSpace ['\n'] := by decide
  cases items with
  | nil =>
      have hWrites := writes_array hLine isSpace_nil hIndentation hTexts
      simpa [jsonLines] using hWrites
  | cons first rest =>
      have hAfter : IsSpace ('\n' :: indentation.toList) :=
        List.forall_mem_cons.2 ⟨by decide, hIndentation⟩
      have hWrites := writes_array hLine hLine hAfter hTexts
      simpa [jsonLines_cons, String.toList_intercalate, Function.comp_def] using hWrites

/-- A whole text that is an array with each item on lines of its own. -/
theorem writes_lines {α : Type} (items : List α) {text : α → String} {value : α → Value}
    (h : ∀ item ∈ items, Writes (text item).toList (.element (value item))) :
    Writes ("[\n" ++ jsonLines (items.map text) ++ "]\n").toList
      (.element (.array (items.map value))) := by
  have hNone : IsSpace "".toList := by decide
  have hLine : IsSpace ['\n'] := by decide
  have hElement := (writes_jsonLines items h hNone).element isSpace_nil hLine
  simpa using hElement

/-- A member of an object with the way in which its value is written. The name needs no escapes. -/
structure Field where
  name : String
  text : String
  value : Value
  isPlain_name : IsPlain name
  writes : Writes text.toList (.value value)

namespace Field

def line (field : Field) : String := "\"" ++ field.name ++ "\": " ++ field.text

def member (field : Field) : String × Value := (field.name, field.value)

theorem writes_member (field : Field) {before after : List Char} (hBefore : IsSpace before)
    (hAfter : IsSpace after) :
    Writes (before ++ field.line.toList ++ after) (.member field.name field.value) := by
  have hSpace : IsSpace [' '] := by decide
  have hWrites := (field.writes.element hSpace hAfter).member hBefore
    (writesChars_of_isPlain field.isPlain_name) isSpace_nil
  simpa [line] using hWrites

theorem writes_members {before space after : List Char} (hBefore : IsSpace before)
    (hSpace : IsSpace space) (hAfter : IsSpace after) (field : Field) (fields : List Field) :
    Writes (before ++ (',' :: space).intercalate ((field :: fields).map (·.line.toList)) ++ after)
      (.members ((field :: fields).map member)) := by
  induction fields generalizing before field with
  | nil => simpa [member] using (field.writes_member hBefore hAfter).lastMember
  | cons next fields ih =>
      have hWrites := (field.writes_member hBefore isSpace_nil).members (ih hSpace next)
      simpa [member, List.intercalate_cons_cons] using hWrites

/-- White space may stand behind the opening brace of an object, behind commas and in front of the
closing brace. -/
theorem writes_object {before space after : String} (hBefore : IsSpace before.toList)
    (hSpace : IsSpace space.toList) (hAfter : IsSpace after.toList) (fields : List Field) :
    Writes ("\x7b" ++ before ++ ("," ++ space).intercalate (fields.map line) ++ after ++
      "\x7d").toList (.value (.object (fields.map member))) := by
  cases fields with
  | nil =>
      have hWrites := Writes.emptyObject (List.forall_mem_append.2 ⟨hBefore, hAfter⟩)
      simpa using hWrites
  | cons field fields =>
      have hWrites := (writes_members hBefore hSpace hAfter field fields).object
      simpa [String.toList_intercalate, Function.comp_def] using hWrites

end Field

end Ancestry.Json
