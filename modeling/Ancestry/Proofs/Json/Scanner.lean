import Ancestry.Proofs.Json.Grammar
import Mathlib.Data.List.TakeWhile

/-! Strings and numbers read from the front of a text. What is read is written there in the sense of
the grammar, and all that is written there is read, unless the rest of the text goes on with it. -/
namespace Ancestry.Json

variable {α β : Type}

/-- Whatever `read` takes off the front of a text is written there in the sense of `Written`. -/
def Sound (read : List Char → Option (α × List Char)) (Written : List Char → α → Prop) : Prop :=
  ∀ text item rest, read text = some (item, rest) →
    ∃ front, text = front ++ rest ∧ Written front item

/-- Reads something and makes another thing of it. -/
def readAs (make : α → β) (read : List Char → Option (α × List Char)) (text : List Char) :
    Option (β × List Char) :=
  (read text).map fun (item, rest) => (make item, rest)

theorem Sound.readAs {read : List Char → Option (α × List Char)} {Written : List Char → α → Prop}
    (h : Sound read Written) (make : α → β) :
    Sound (readAs make read) fun text made => ∃ item, Written text item ∧ make item = made := by
  intro text made rest hRead
  simp only [Json.readAs, Option.map_eq_some_iff, Prod.exists, Prod.mk.injEq] at hRead
  obtain ⟨item, _, hRead, hSame, rfl⟩ := hRead
  obtain ⟨front, hText, hFront⟩ := h _ _ _ hRead
  exact ⟨front, hText, item, hFront, hSame⟩

/-! Strings -/

/-- Reads four hexadecimal digits. -/
def readUnit : List Char → Option (Nat × List Char)
  | first :: second :: third :: fourth :: rest => do
    let a ← hexDigit? first
    let b ← hexDigit? second
    let c ← hexDigit? third
    let d ← hexDigit? fourth
    return (((a * 16 + b) * 16 + c) * 16 + d, rest)
  | _ => none

/-- Reads the second unit of a pair, given the first one. -/
def readPair (high : Nat) : List Char → Option (Nat × List Char)
  | '\\' :: 'u' :: text => do
    let (low, rest) ← readUnit text
    let number ← pair? high low
    return (number, rest)
  | _ => none

/-- Reads what stands behind a backslash. -/
def readEscape : List Char → Option (Char × List Char)
  | 'u' :: text => do
    let (unit, rest) ← readUnit text
    if unit.isValidChar then return (Char.ofNat unit, rest)
    else do
      let (number, rest) ← readPair unit rest
      return (Char.ofNat number, rest)
  | mark :: rest => (shortEscape? mark).map (·, rest)
  | [] => none

def readChar : List Char → Option (Char × List Char)
  | '\\' :: text => readEscape text
  | c :: rest => if isPlain c then some (c, rest) else none
  | [] => none

theorem sound_readUnit : Sound readUnit WritesUnit := by
  intro text unit rest h
  unfold readUnit at h
  split at h
  · simp only [Option.bind_eq_bind, Option.bind_eq_some_iff, Option.pure_def,
      Option.some.injEq, Prod.mk.injEq] at h
    obtain ⟨a, hFirst, b, hSecond, c, hThird, d, hFourth, rfl, rfl⟩ := h
    exact ⟨[_, _, _, _], rfl, .of_digits hFirst hSecond hThird hFourth⟩
  · cases h

theorem WritesUnit.readUnit_eq {digits : List Char} {unit : Nat} (h : WritesUnit digits unit)
    (rest : List Char) : readUnit (digits ++ rest) = some (unit, rest) := by
  cases h with
  | of_digits hFirst hSecond hThird hFourth =>
      simp [readUnit, hFirst, hSecond, hThird, hFourth]

theorem pair?_eq_some_iff {high low number : Nat} :
    pair? high low = some number ↔ (0xD800 ≤ high ∧ high < 0xDC00) ∧ (0xDC00 ≤ low ∧ low < 0xE000) ∧
      number = 0x10000 + (high - 0xD800) * 0x400 + (low - 0xDC00) := by
  unfold pair?
  split
  · rename_i hRange
    simp only [Option.some.injEq, hRange, and_self, true_and]
    exact eq_comm
  · rename_i hRange
    simp only [reduceCtorEq, false_iff]
    exact fun h => hRange ⟨h.1, h.2.1⟩

theorem toNat_ofNat_of_isValidChar {number : Nat} (h : number.isValidChar) :
    (Char.ofNat number).toNat = number := by
  rw [Char.ofNat, dif_pos h]
  rfl

theorem isValidChar_of_pair? {high low number : Nat} (h : pair? high low = some number) :
    number.isValidChar := by
  obtain ⟨hHigh, hLow, hNumber⟩ := pair?_eq_some_iff.1 h
  exact .inr ⟨by omega, by omega⟩

theorem sound_readPair (high : Nat) : Sound (readPair high) fun text number =>
    ∃ digits low, text = '\\' :: 'u' :: digits ∧ WritesUnit digits low ∧
      pair? high low = some number := by
  intro text number rest h
  unfold readPair at h
  split at h
  · simp only [Option.bind_eq_bind, Option.bind_eq_some_iff, Prod.exists] at h
    obtain ⟨low, _, hLow, _, hNumber, hSame⟩ := h
    cases hSame
    obtain ⟨digits, rfl, hDigits⟩ := sound_readUnit _ _ _ hLow
    exact ⟨'\\' :: 'u' :: digits, rfl, digits, low, rfl, hDigits, hNumber⟩
  · cases h

theorem sound_readEscape : Sound readEscape fun text c => WritesChar ('\\' :: text) c := by
  intro text c rest h
  unfold readEscape at h
  split at h
  · simp only [Option.bind_eq_bind, Option.bind_eq_some_iff, Prod.exists] at h
    obtain ⟨unit, _, hUnit, h⟩ := h
    obtain ⟨digits, rfl, hDigits⟩ := sound_readUnit _ _ _ hUnit
    split at h
    · rename_i hValid
      cases h
      refine ⟨'u' :: digits, rfl, .unit ?_⟩
      rwa [toNat_ofNat_of_isValidChar hValid]
    · simp only [Option.bind_eq_some_iff, Prod.exists] at h
      obtain ⟨number, _, hPair, h⟩ := h
      cases h
      obtain ⟨_, rfl, others, low, rfl, hOthers, hNumber⟩ := sound_readPair unit _ _ _ hPair
      refine ⟨'u' :: digits ++ '\\' :: 'u' :: others, by simp, .pair hDigits hOthers ?_⟩
      rw [hNumber, toNat_ofNat_of_isValidChar (isValidChar_of_pair? hNumber)]
  · simp only [Option.map_eq_some_iff, Prod.mk.injEq] at h
    obtain ⟨_, hShort, rfl, rfl⟩ := h
    exact ⟨[_], rfl, .short hShort⟩
  · cases h

theorem sound_readChar : Sound readChar WritesChar := by
  intro text c rest h
  unfold readChar at h
  split at h
  · obtain ⟨escape, rfl, hEscape⟩ := sound_readEscape _ _ _ h
    exact ⟨_, rfl, hEscape⟩
  · split at h
    · rename_i hPlain
      cases h
      exact ⟨[_], rfl, .plain hPlain⟩
    · cases h
  · cases h

theorem shortEscape?_u : shortEscape? 'u' = none := by decide

theorem isPlain_backslash : isPlain '\\' = false := by decide

theorem isPlain_quotation : isPlain '"' = false := by decide

theorem WritesChar.readChar_eq {text : List Char} {c : Char} (h : WritesChar text c)
    (rest : List Char) : readChar (text ++ rest) = some (c, rest) := by
  cases h with
  | plain hPlain =>
      have hOther : c ≠ '\\' := by
        rintro rfl
        cases isPlain_backslash.symm.trans hPlain
      simp [readChar, hPlain]
  | @short mark _ hShort =>
      have hOther : mark ≠ 'u' := by
        rintro rfl
        cases shortEscape?_u.symm.trans hShort
      simp [readChar, readEscape, hShort]
  | unit hUnit =>
      have hValid : c.toNat.isValidChar := c.valid
      simp [readChar, readEscape, hUnit.readUnit_eq, hValid, Char.ofNat_toNat]
  | @pair _ _ high _ _ hHigh hLow hPair =>
      obtain ⟨hRange, _, _⟩ := pair?_eq_some_iff.1 hPair
      have hAlone : ¬high.isValidChar := by
        rintro (hBefore | ⟨hAfter, _⟩) <;> omega
      simp [readChar, readEscape, readPair, hHigh.readUnit_eq, hLow.readUnit_eq, hPair, hAlone,
        Char.ofNat_toNat]

theorem WritesChar.ne_nil {text : List Char} {c : Char} (h : WritesChar text c) : text ≠ [] := by
  cases h <;> simp

theorem length_lt_of_readChar {text rest : List Char} {c : Char}
    (h : readChar text = some (c, rest)) : rest.length < text.length := by
  obtain ⟨front, rfl, hFront⟩ := sound_readChar _ _ _ h
  have hPositive := List.length_pos_iff.2 hFront.ne_nil
  rw [List.length_append]
  omega

/-- Reads as many characters as there are. -/
def readChars (text : List Char) : List Char × List Char :=
  match _h : readChar text with
  | none => ([], text)
  | some (c, rest) =>
    let (chars, rest) := readChars rest
    (c :: chars, rest)
termination_by text.length
decreasing_by exact length_lt_of_readChar _h

theorem writes_of_readChars (text : List Char) :
    ∃ front, text = front ++ (readChars text).2 ∧ WritesChars front (readChars text).1 := by
  fun_induction readChars text with
  | case1 text h => exact ⟨[], rfl, .nil⟩
  | case2 text c rest hChar chars left hRest ih =>
      obtain ⟨front, rfl, hFront⟩ := sound_readChar _ _ _ hChar
      obtain ⟨others, hOthers, hChars⟩ := ih
      rw [hRest] at hOthers hChars
      refine ⟨front ++ others, ?_, .cons hFront hChars⟩
      rw [List.append_assoc, ← hOthers]

theorem WritesChars.readChars_eq {text chars : List Char} (h : WritesChars text chars)
    (rest : List Char) : readChars (text ++ '"' :: rest) = (chars, '"' :: rest) := by
  induction h with
  | nil =>
      have hNone : readChar ('"' :: rest) = none := by simp [readChar, isPlain_quotation]
      rw [List.nil_append, readChars, hNone]
  | cons hChar _ ih =>
      rw [List.append_assoc, readChars, hChar.readChar_eq]
      simp only
      rw [ih]

/-- Reads a string behind its opening quotation mark. -/
def readString (text : List Char) : Option (String × List Char) :=
  match readChars text with
  | (chars, '"' :: rest) => some (String.ofList chars, rest)
  | _ => none

theorem sound_readString : Sound readString fun text string =>
    ∃ front, text = front ++ ['"'] ∧ WritesChars front string.toList := by
  intro text string rest h
  obtain ⟨front, hText, hFront⟩ := writes_of_readChars text
  unfold readString at h
  split at h
  · rename_i chars rest hChars
    cases h
    rw [hChars] at hText hFront
    refine ⟨front ++ ['"'], ?_, front, rfl, ?_⟩
    · rwa [List.append_assoc]
    · rwa [String.toList_ofList]
  · cases h

theorem WritesChars.readString_eq {text : List Char} {string : String}
    (h : WritesChars text string.toList) (rest : List Char) :
    readString (text ++ '"' :: rest) = some (string, rest) := by
  rw [readString, h.readChars_eq]
  simp only [String.ofList_toList]

/-! Numbers -/

/-- Reads as many decimal digits as there are, at least one. -/
def readDigits (text : List Char) : Option (List Char × List Char) :=
  if text.takeWhile Char.isDigit = [] then none
  else some (text.takeWhile Char.isDigit, text.dropWhile Char.isDigit)

def readWhole (text : List Char) : Option (List Char × List Char) := do
  let (digits, rest) ← readDigits text
  if digits.head? = some '0' ∧ digits ≠ ['0'] then none else return (digits, rest)

def readFraction : List Char → Option (List Char × List Char)
  | c :: text => if c = '.' then readDigits text else some ([], c :: text)
  | [] => some ([], [])

/-- Reads what stands behind the mark of an exponent. -/
def readPower : List Char → Option (Int × List Char)
  | c :: text =>
    if c = '+' then readAs (fun digits => (decimal digits : Int)) readDigits text
    else if c = '-' then readAs (fun digits => -(decimal digits : Int)) readDigits text
    else readAs (fun digits => (decimal digits : Int)) readDigits (c :: text)
  | [] => none

def readExponent : List Char → Option (Int × List Char)
  | c :: text => if c = 'e' ∨ c = 'E' then readPower text else some (0, c :: text)
  | [] => some (0, [])

def readUnsigned (text : List Char) : Option (ℚ × List Char) := do
  let (whole, text) ← readWhole text
  let (digits, text) ← readFraction text
  let (power, text) ← readExponent text
  return (decimal (whole ++ digits) * (10 : ℚ) ^ (power - digits.length), text)

def readNumber : List Char → Option (ℚ × List Char)
  | c :: text =>
    if c = '-' then readAs (fun value => -value) readUnsigned text
    else readUnsigned (c :: text)
  | [] => none

theorem sound_readDigits : Sound readDigits fun text digits => text = digits ∧ IsDigits digits := by
  intro text digits rest h
  unfold readDigits at h
  split at h
  · cases h
  · rename_i hSome
    cases h
    exact ⟨_, List.takeWhile_append_dropWhile.symm, rfl, hSome, fun _ => List.mem_takeWhile_imp⟩

theorem sound_readWhole : Sound readWhole fun text whole => text = whole ∧ IsWhole whole := by
  intro text whole rest h
  simp only [readWhole, Option.bind_eq_bind, Option.bind_eq_some_iff, Prod.exists] at h
  obtain ⟨digits, left, hDigits, h⟩ := h
  split at h
  · cases h
  · rename_i hZero
    cases h
    obtain ⟨_, rfl, rfl, hIs⟩ := sound_readDigits _ _ _ hDigits
    exact ⟨_, rfl, rfl, hIs, fun hHead => not_not.1 fun hMore => hZero ⟨hHead, hMore⟩⟩

theorem sound_readFraction : Sound readFraction WritesFraction := by
  intro text digits rest h
  unfold readFraction at h
  split at h
  · split_ifs at h with hPoint
    · subst hPoint
      obtain ⟨_, rfl, rfl, hIs⟩ := sound_readDigits _ _ _ h
      exact ⟨_ :: _, rfl, .digits hIs⟩
    · cases h
      exact ⟨[], rfl, .none⟩
  · cases h
    exact ⟨[], rfl, .none⟩

theorem sound_readPower {mark : Char} (hMark : mark = 'e' ∨ mark = 'E') :
    Sound readPower fun text power => WritesExponent (mark :: text) power := by
  intro text power rest h
  unfold readPower at h
  split at h
  · split_ifs at h with hPlus hMinus
    · subst hPlus
      obtain ⟨digits, rfl, _, ⟨rfl, hIs⟩, rfl⟩ := sound_readDigits.readAs _ _ _ _ h
      exact ⟨'+' :: digits, rfl, .positive hMark hIs⟩
    · subst hMinus
      obtain ⟨digits, rfl, _, ⟨rfl, hIs⟩, rfl⟩ := sound_readDigits.readAs _ _ _ _ h
      exact ⟨'-' :: digits, rfl, .negative hMark hIs⟩
    · obtain ⟨digits, hText, _, ⟨rfl, hIs⟩, rfl⟩ := sound_readDigits.readAs _ _ _ _ h
      exact ⟨digits, hText, .unsigned hMark hIs⟩
  · cases h

theorem sound_readExponent : Sound readExponent WritesExponent := by
  intro text power rest h
  unfold readExponent at h
  split at h
  · split at h
    · rename_i hMark
      obtain ⟨front, rfl, hFront⟩ := sound_readPower hMark _ _ _ h
      exact ⟨_, rfl, hFront⟩
    · cases h
      exact ⟨[], rfl, .none⟩
  · cases h
    exact ⟨[], rfl, .none⟩

theorem sound_readUnsigned : Sound readUnsigned WritesUnsigned := by
  intro text value rest h
  simp only [readUnsigned, Option.bind_eq_bind, Option.bind_eq_some_iff, Prod.exists] at h
  obtain ⟨whole, _, hWhole, digits, _, hFraction, power, _, hExponent, hSame⟩ := h
  cases hSame
  obtain ⟨_, rfl, rfl, hIs⟩ := sound_readWhole _ _ _ hWhole
  obtain ⟨fraction, rfl, hDigits⟩ := sound_readFraction _ _ _ hFraction
  obtain ⟨exponent, rfl, hPower⟩ := sound_readExponent _ _ _ hExponent
  exact ⟨_, by simp, .of_parts hIs hDigits hPower⟩

theorem sound_readNumber : Sound readNumber WritesNumber := by
  intro text value rest h
  unfold readNumber at h
  split at h
  · split_ifs at h with hMinus
    · subst hMinus
      obtain ⟨front, rfl, _, hFront, rfl⟩ := sound_readUnsigned.readAs _ _ _ _ h
      exact ⟨'-' :: front, rfl, .negative hFront⟩
    · obtain ⟨front, hText, hFront⟩ := sound_readUnsigned _ _ _ h
      exact ⟨front, hText, .positive hFront⟩
  · cases h

/-- Whether a number could go on with a character. -/
def goesOn (c : Char) : Bool := c.isDigit || c = '.' || c = 'e' || c = 'E'

/-- No number in front of `rest` goes on with it. -/
def Ends (rest : List Char) : Prop := ∀ c, rest.head? = some c → goesOn c = false

theorem Ends.not_isDigit {rest : List Char} (h : Ends rest) {c : Char}
    (hHead : rest.head? = some c) : c.isDigit = false := by
  have hNot := h c hHead
  simp only [goesOn, Bool.or_eq_false_iff] at hNot
  exact hNot.1.1.1

theorem IsDigits.readDigits_eq {digits rest : List Char} (h : IsDigits digits)
    (hRest : ∀ c, rest.head? = some c → c.isDigit = false) :
    readDigits (digits ++ rest) = some (digits, rest) := by
  have hTake : rest.takeWhile Char.isDigit = [] := by
    cases rest with
    | nil => rfl
    | cons c rest => simp [hRest c rfl]
  have hDrop : rest.dropWhile Char.isDigit = rest := by
    cases rest with
    | nil => rfl
    | cons c rest => simp [hRest c rfl]
  rw [readDigits, List.takeWhile_append_of_pos h.2, List.dropWhile_append_of_pos h.2, hTake, hDrop,
    List.append_nil, if_neg h.1]

theorem IsWhole.readWhole_eq {whole rest : List Char} (h : IsWhole whole)
    (hRest : ∀ c, rest.head? = some c → c.isDigit = false) :
    readWhole (whole ++ rest) = some (whole, rest) := by
  have hZero : ¬(whole.head? = some '0' ∧ whole ≠ ['0']) := fun ⟨hHead, hMore⟩ => hMore (h.2 hHead)
  simp [readWhole, h.1.readDigits_eq hRest, hZero]

/-- Behind the digits in front of the point, no digit comes. -/
theorem WritesFraction.not_isDigit_of_head {fraction digits rest : List Char}
    (h : WritesFraction fraction digits) (hRest : ∀ c, rest.head? = some c → c.isDigit = false)
    (c : Char) (hHead : (fraction ++ rest).head? = some c) : c.isDigit = false := by
  cases h with
  | none => exact hRest c hHead
  | digits =>
      cases hHead
      decide

theorem WritesExponent.not_isDigit_of_head {exponent rest : List Char} {power : Int}
    (h : WritesExponent exponent power) (hRest : Ends rest) (c : Char)
    (hHead : (exponent ++ rest).head? = some c) : c.isDigit = false ∧ c ≠ '.' := by
  cases h with
  | none =>
      have hNot := hRest c hHead
      simp only [goesOn, Bool.or_eq_false_iff, decide_eq_false_iff_not] at hNot
      exact ⟨hNot.1.1.1, hNot.1.1.2⟩
  | unsigned hMark | positive hMark | negative hMark =>
      cases hHead
      obtain rfl | rfl := hMark <;> decide

theorem WritesFraction.readFraction_eq {fraction digits rest : List Char}
    (h : WritesFraction fraction digits)
    (hRest : ∀ c, rest.head? = some c → c.isDigit = false ∧ c ≠ '.') :
    readFraction (fraction ++ rest) = some (digits, rest) := by
  cases h with
  | none =>
      cases rest with
      | nil => rfl
      | cons c rest =>
          simp [readFraction, (hRest c rfl).2]
  | digits hDigits => exact hDigits.readDigits_eq fun c hHead => (hRest c hHead).1

theorem WritesExponent.readExponent_eq {exponent rest : List Char} {power : Int}
    (h : WritesExponent exponent power) (hRest : Ends rest) :
    readExponent (exponent ++ rest) = some (power, rest) := by
  cases h with
  | none =>
      cases rest with
      | nil => rfl
      | cons c rest =>
          have hNot := hRest c rfl
          simp only [goesOn, Bool.or_eq_false_iff, decide_eq_false_iff_not] at hNot
          simp [readExponent, hNot.1.2, hNot.2]
  | @unsigned _ digits hMark hDigits =>
      have hRead : readPower (digits ++ rest) = some ((decimal digits : Int), rest) := by
        have hDigit := hDigits.readDigits_eq fun _ => hRest.not_isDigit
        obtain ⟨hSome, hAll⟩ := hDigits
        cases digits with
        | nil => exact absurd rfl hSome
        | cons c digits =>
            have hPlus : c ≠ '+' := by
              rintro rfl
              cases hAll '+' (by simp)
            have hMinus : c ≠ '-' := by
              rintro rfl
              cases hAll '-' (by simp)
            rw [List.cons_append] at hDigit
            simp [readPower, readAs, hPlus, hMinus, hDigit]
      simp [readExponent, hMark, hRead]
  | positive hMark hDigits | negative hMark hDigits =>
      have hDigit := hDigits.readDigits_eq fun _ => hRest.not_isDigit
      simp [readExponent, readPower, readAs, hMark, hDigit]

theorem WritesUnsigned.readUnsigned_eq {text rest : List Char} {value : ℚ}
    (h : WritesUnsigned text value) (hRest : Ends rest) :
    readUnsigned (text ++ rest) = some (value, rest) := by
  cases h with
  | of_parts hWhole hFraction hExponent =>
      have hBehind := hExponent.not_isDigit_of_head hRest
      have hPoint := hFraction.not_isDigit_of_head fun c hHead => (hBehind c hHead).1
      rw [List.append_assoc, List.append_assoc]
      simp [readUnsigned, hWhole.readWhole_eq hPoint, hFraction.readFraction_eq hBehind,
        hExponent.readExponent_eq hRest]

/-- A number without a sign starts with a digit. -/
theorem WritesUnsigned.head {text : List Char} {value : ℚ} (h : WritesUnsigned text value) :
    ∃ c rest, text = c :: rest ∧ c.isDigit = true := by
  cases h with
  | @of_parts whole fraction _ exponent _ hWhole =>
      obtain ⟨⟨hSome, hAll⟩, -⟩ := hWhole
      cases whole with
      | nil => exact absurd rfl hSome
      | cons c whole => exact ⟨c, _, rfl, hAll c (by simp)⟩

theorem WritesNumber.readNumber_eq {text rest : List Char} {value : ℚ}
    (h : WritesNumber text value) (hRest : Ends rest) :
    readNumber (text ++ rest) = some (value, rest) := by
  cases h with
  | positive h =>
      have hUnsigned := h.readUnsigned_eq hRest
      obtain ⟨c, others, rfl, hDigit⟩ := h.head
      have hMinus : c ≠ '-' := by
        rintro rfl
        cases hDigit
      rw [List.cons_append] at hUnsigned ⊢
      simp [readNumber, hMinus, hUnsigned]
  | negative h => simp [readNumber, readAs, h.readUnsigned_eq hRest]

end Ancestry.Json
