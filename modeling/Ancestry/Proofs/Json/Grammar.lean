import Mathlib.Data.Rat.Defs

/-! The grammar of JSON: which texts there are, and what each of them means. White space is allowed
around values, names, commas and colons. -/
namespace Ancestry.Json

/-- What a text means. An object has its members in the order in which they are written. -/
inductive Value where
  | null
  | bool (value : Bool)
  | number (value : ℚ)
  | string (text : String)
  | array (values : List Value)
  | object (members : List (String × Value))

def isSpace (c : Char) : Bool := c = ' ' || c = '\t' || c = '\n' || c = '\r'

def IsSpace (text : List Char) : Prop := ∀ c ∈ text, isSpace c = true

instance (text : List Char) : Decidable (IsSpace text) :=
  decidable_of_iff (text.all isSpace = true) List.all_eq_true

/-! Strings -/

/-- Whether a character stands for itself inside quotation marks. -/
def isPlain (c : Char) : Bool := 0x20 ≤ c.toNat && c ≠ '"' && c ≠ '\\'

/-- What a letter behind a backslash stands for. -/
def shortEscape? (mark : Char) : Option Char :=
  [('"', '"'), ('\\', '\\'), ('/', '/'), ('b', '\x08'), ('f', '\x0C'), ('n', '\n'), ('r', '\r'),
    ('t', '\t')].lookup mark

/-- The value of a hexadecimal digit. Letters may be of either case. -/
def hexDigit? (c : Char) : Option Nat :=
  if '0' ≤ c ∧ c ≤ '9' then some (c.toNat - '0'.toNat)
  else if 'a' ≤ c ∧ c ≤ 'f' then some (c.toNat - 'a'.toNat + 10)
  else if 'A' ≤ c ∧ c ≤ 'F' then some (c.toNat - 'A'.toNat + 10)
  else none

/-- The unit of UTF-16 that four hexadecimal digits give. -/
inductive WritesUnit : List Char → Nat → Prop where
  | of_digits {first second third fourth : Char} {a b c d : Nat} (hFirst : hexDigit? first = some a)
      (hSecond : hexDigit? second = some b) (hThird : hexDigit? third = some c)
      (hFourth : hexDigit? fourth = some d) :
      WritesUnit [first, second, third, fourth] (((a * 16 + b) * 16 + c) * 16 + d)

/-- The number that a pair of surrogates stands for, if the units are one. -/
def pair? (high low : Nat) : Option Nat :=
  if (0xD800 ≤ high ∧ high < 0xDC00) ∧ 0xDC00 ≤ low ∧ low < 0xE000 then
    some (0x10000 + (high - 0xD800) * 0x400 + (low - 0xDC00))
  else none

/-- A character inside quotation marks: as itself, behind a backslash, or by its number. Numbers
beyond the first 65536 take two units. -/
inductive WritesChar : List Char → Char → Prop where
  | plain {c : Char} (h : isPlain c = true) : WritesChar [c] c
  | short {mark c : Char} (h : shortEscape? mark = some c) : WritesChar ['\\', mark] c
  | unit {digits : List Char} {c : Char} (h : WritesUnit digits c.toNat) :
      WritesChar ('\\' :: 'u' :: digits) c
  | pair {digits others : List Char} {high low : Nat} {c : Char} (hHigh : WritesUnit digits high)
      (hLow : WritesUnit others low) (h : pair? high low = some c.toNat) :
      WritesChar ('\\' :: 'u' :: digits ++ '\\' :: 'u' :: others) c

/-- Several characters inside quotation marks. -/
inductive WritesChars : List Char → List Char → Prop where
  | nil : WritesChars [] []
  | cons {text others : List Char} {c : Char} {chars : List Char} (hChar : WritesChar text c)
      (hChars : WritesChars others chars) : WritesChars (text ++ others) (c :: chars)

/-! Numbers -/

/-- A run of decimal digits. -/
def IsDigits (text : List Char) : Prop := text ≠ [] ∧ ∀ c ∈ text, c.isDigit = true

/-- Digits in front of the point: no zero comes first, unless it is alone. -/
def IsWhole (text : List Char) : Prop := IsDigits text ∧ (text.head? = some '0' → text = ['0'])

/-- A point and the digits behind it, or neither. -/
inductive WritesFraction : List Char → List Char → Prop where
  | none : WritesFraction [] []
  | digits {digits : List Char} (h : IsDigits digits) : WritesFraction ('.' :: digits) digits

def decimal (digits : List Char) : Nat := Nat.ofDigitChars 10 digits 0

/-- A power of ten, or none. -/
inductive WritesExponent : List Char → Int → Prop where
  | none : WritesExponent [] 0
  | unsigned {mark : Char} {digits : List Char} (hMark : mark = 'e' ∨ mark = 'E')
      (h : IsDigits digits) : WritesExponent (mark :: digits) (decimal digits)
  | positive {mark : Char} {digits : List Char} (hMark : mark = 'e' ∨ mark = 'E')
      (h : IsDigits digits) : WritesExponent (mark :: '+' :: digits) (decimal digits)
  | negative {mark : Char} {digits : List Char} (hMark : mark = 'e' ∨ mark = 'E')
      (h : IsDigits digits) : WritesExponent (mark :: '-' :: digits) (-decimal digits)

/-- A number without a sign. -/
inductive WritesUnsigned : List Char → ℚ → Prop where
  | of_parts {whole fraction digits exponent : List Char} {power : Int} (hWhole : IsWhole whole)
      (hFraction : WritesFraction fraction digits) (hExponent : WritesExponent exponent power) :
      WritesUnsigned (whole ++ fraction ++ exponent)
        (decimal (whole ++ digits) * (10 : ℚ) ^ (power - digits.length))

inductive WritesNumber : List Char → ℚ → Prop where
  | positive {text : List Char} {value : ℚ} (h : WritesUnsigned text value) :
      WritesNumber text value
  | negative {text : List Char} {value : ℚ} (h : WritesUnsigned text value) :
      WritesNumber ('-' :: text) (-value)

/-! Values -/

/-- What a part of a text can mean: a value, perhaps between white space, the values of an array, a
member of an object, or all its members. -/
inductive Part where
  | value (value : Value)
  | element (value : Value)
  | elements (values : List Value)
  | member (name : String) (value : Value)
  | members (members : List (String × Value))

/-- Which texts can mean a part. -/
inductive Writes : List Char → Part → Prop where
  | nullWord : Writes ['n', 'u', 'l', 'l'] (.value .null)
  | trueWord : Writes ['t', 'r', 'u', 'e'] (.value (.bool true))
  | falseWord : Writes ['f', 'a', 'l', 's', 'e'] (.value (.bool false))
  | number {text : List Char} {value : ℚ} (h : WritesNumber text value) :
      Writes text (.value (.number value))
  | string {text : List Char} {string : String} (h : WritesChars text string.toList) :
      Writes ('"' :: text ++ ['"']) (.value (.string string))
  | emptyArray {space : List Char} (h : IsSpace space) :
      Writes ('[' :: space ++ [']']) (.value (.array []))
  | array {text : List Char} {values : List Value} (h : Writes text (.elements values)) :
      Writes ('[' :: text ++ [']']) (.value (.array values))
  | emptyObject {space : List Char} (h : IsSpace space) :
      Writes ('\x7b' :: space ++ ['\x7d']) (.value (.object []))
  | object {text : List Char} {members : List (String × Value)}
      (h : Writes text (.members members)) :
      Writes ('\x7b' :: text ++ ['\x7d']) (.value (.object members))
  | element {before text after : List Char} {value : Value} (hBefore : IsSpace before)
      (hAfter : IsSpace after) (h : Writes text (.value value)) :
      Writes (before ++ text ++ after) (.element value)
  | lastElement {text : List Char} {value : Value} (h : Writes text (.element value)) :
      Writes text (.elements [value])
  | elements {text others : List Char} {value : Value} {values : List Value}
      (h : Writes text (.element value)) (hOthers : Writes others (.elements values)) :
      Writes (text ++ ',' :: others) (.elements (value :: values))
  | member {before name between text : List Char} {string : String} {value : Value}
      (hBefore : IsSpace before) (hName : WritesChars name string.toList)
      (hBetween : IsSpace between) (h : Writes text (.element value)) :
      Writes (before ++ '"' :: name ++ '"' :: between ++ ':' :: text) (.member string value)
  | lastMember {text : List Char} {name : String} {value : Value}
      (h : Writes text (.member name value)) : Writes text (.members [(name, value)])
  | members {text others : List Char} {name : String} {value : Value}
      {members : List (String × Value)} (h : Writes text (.member name value))
      (hOthers : Writes others (.members members)) :
      Writes (text ++ ',' :: others) (.members ((name, value) :: members))

end Ancestry.Json
