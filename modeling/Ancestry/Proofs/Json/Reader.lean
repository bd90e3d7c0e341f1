import Ancestry.Proofs.Json.Scanner

/-! Texts read as JSON. A text is read as a value exactly if the grammar lets it mean that value, so
no text means two values. -/
namespace Ancestry.Json

variable {α : Type}

def skipSpace (text : List Char) : List Char := text.dropWhile isSpace

/-- Takes a given character off the front of a text. -/
def expect (mark : Char) : List Char → Option (List Char)
  | c :: rest => if c = mark then some rest else none
  | [] => none

def readElement (readValue : List Char → Option (Value × List Char)) (text : List Char) :
    Option (Value × List Char) := do
  let (value, rest) ← readValue (skipSpace text)
  return (value, skipSpace rest)

def readMember (readValue : List Char → Option (Value × List Char)) (text : List Char) :
    Option ((String × Value) × List Char) := do
  let text ← expect '"' (skipSpace text)
  let (name, text) ← readString text
  let text ← expect ':' (skipSpace text)
  let (value, rest) ← readElement readValue text
  return ((name, value), rest)

/-- Reads items with commas between them, at least one and at most `count`. -/
def readItems (readItem : List Char → Option (α × List Char)) :
    Nat → List Char → Option (List α × List Char)
  | 0, _ => none
  | count + 1, text => do
    let (item, rest) ← readItem text
    match expect ',' rest with
    | some rest => do
      let (items, rest) ← readItems readItem count rest
      return (item :: items, rest)
    | none => return ([item], rest)

/-- Reads items up to a closing bracket, perhaps none. -/
def readClosed (readItem : List Char → Option (α × List Char)) (close : Char) (count : Nat)
    (text : List Char) : Option (List α × List Char) :=
  match expect close (skipSpace text) with
  | some rest => some ([], rest)
  | none => do
    let (items, rest) ← readItems readItem count text
    let rest ← expect close rest
    return (items, rest)

def readLiteral : List Char → Option (Value × List Char)
  | 'n' :: 'u' :: 'l' :: 'l' :: rest => some (.null, rest)
  | 't' :: 'r' :: 'u' :: 'e' :: rest => some (.bool true, rest)
  | 'f' :: 'a' :: 'l' :: 's' :: 'e' :: rest => some (.bool false, rest)
  | _ => none

/-- Reads a value in which brackets are nested less than `depth` deep and that has less than `depth`
items in any of them. -/
def readValue : Nat → List Char → Option (Value × List Char)
  | 0, _ => none
  | _, [] => none
  | depth + 1, c :: text =>
    if c = '"' then readAs .string readString text
    else if c = '[' then
      readAs .array (readClosed (readElement (readValue depth)) ']' depth) text
    else if c = '\x7b' then
      readAs .object (readClosed (readMember (readValue depth)) '\x7d' depth) text
    else (readLiteral (c :: text)).or (readAs .number readNumber (c :: text))

/-- The value that a text means, if it is JSON. A text is longer than its values are deep. -/
def read (text : String) : Option Value :=
  match readElement (readValue (text.toList.length + 1)) text.toList with
  | some (value, []) => some value
  | _ => none

/-! What is read is written -/

theorem exists_skipped (text : List Char) :
    ∃ space, text = space ++ skipSpace text ∧ IsSpace space :=
  ⟨text.takeWhile isSpace, List.takeWhile_append_dropWhile.symm, fun _ => List.mem_takeWhile_imp⟩

@[simp] theorem expect_eq_some_iff {mark : Char} {text rest : List Char} :
    expect mark text = some rest ↔ text = mark :: rest := by
  cases text with
  | nil => simp [expect]
  | cons c text =>
      simp only [expect, Option.ite_none_right_eq_some, Option.some.injEq, List.cons.injEq]

@[simp] theorem expect_cons_self (mark : Char) (rest : List Char) :
    expect mark (mark :: rest) = some rest := expect_eq_some_iff.2 rfl

theorem sound_readElement {readValue : List Char → Option (Value × List Char)}
    (h : Sound readValue fun text value => Writes text (.value value)) :
    Sound (readElement readValue) fun text value => Writes text (.element value) := by
  intro text value rest hRead
  simp only [readElement, Option.bind_eq_bind, Option.bind_eq_some_iff, Prod.exists] at hRead
  obtain ⟨_, left, hValue, hSame⟩ := hRead
  cases hSame
  obtain ⟨before, hText, hBefore⟩ := exists_skipped text
  obtain ⟨after, hLeft, hAfter⟩ := exists_skipped left
  obtain ⟨front, hFront, hWrites⟩ := h _ _ _ hValue
  refine ⟨before ++ front ++ after, ?_, .element hBefore hAfter hWrites⟩
  rw [List.append_assoc, ← hLeft, List.append_assoc, ← hFront, ← hText]

theorem sound_readMember {readValue : List Char → Option (Value × List Char)}
    (h : Sound readValue fun text value => Writes text (.value value)) :
    Sound (readMember readValue) fun text member => Writes text (.member member.1 member.2) := by
  intro text ⟨name, value⟩ rest hRead
  simp only [readMember, Option.bind_eq_bind, Option.bind_eq_some_iff, Prod.exists,
    expect_eq_some_iff] at hRead
  obtain ⟨_, hOpen, _, behind, hName, _, hColon, _, _, hValue, hSame⟩ := hRead
  cases hSame
  obtain ⟨before, hText, hBefore⟩ := exists_skipped text
  obtain ⟨between, hBehind, hBetween⟩ := exists_skipped behind
  obtain ⟨_, hString, string, rfl, hChars⟩ := sound_readString _ _ _ hName
  obtain ⟨front, hFront, hWrites⟩ := sound_readElement h _ _ _ hValue
  refine ⟨before ++ '"' :: string ++ '"' :: between ++ ':' :: front, ?_,
    .member hBefore hChars hBetween hWrites⟩
  rw [hText, hOpen, hString, hBehind, hColon, hFront]
  simp

theorem sound_readItems {readItem : List Char → Option (α × List Char)}
    {Item : List Char → α → Prop} (Items : List Char → List α → Prop) (h : Sound readItem Item)
    (hLast : ∀ text item, Item text item → Items text [item])
    (hMore : ∀ text others item items, Item text item → Items others items →
      Items (text ++ ',' :: others) (item :: items))
    (count : Nat) : Sound (readItems readItem count) Items := by
  induction count with
  | zero => exact fun _ _ _ hRead => nomatch hRead
  | succ count ih =>
      intro text items rest hRead
      simp only [readItems, Option.bind_eq_bind, Option.bind_eq_some_iff, Prod.exists] at hRead
      obtain ⟨item, left, hItem, hRead⟩ := hRead
      obtain ⟨front, rfl, hFront⟩ := h _ _ _ hItem
      split at hRead
      · rename_i behind hComma
        obtain rfl := expect_eq_some_iff.1 hComma
        simp only [Option.bind_eq_some_iff, Prod.exists] at hRead
        obtain ⟨others, _, hOthers, hSame⟩ := hRead
        cases hSame
        obtain ⟨text, rfl, hText⟩ := ih _ _ _ hOthers
        exact ⟨front ++ ',' :: text, by simp, hMore _ _ _ _ hFront hText⟩
      · cases hRead
        exact ⟨front, rfl, hLast _ _ hFront⟩

theorem sound_readClosed {readItem : List Char → Option (α × List Char)}
    {Items : List Char → List α → Prop} {close : Char} {count : Nat}
    (h : Sound (readItems readItem count) Items) :
    Sound (readClosed readItem close count) fun text items =>
      ∃ front, text = front ++ [close] ∧ (IsSpace front ∧ items = [] ∨ Items front items) := by
  intro text items rest hRead
  unfold readClosed at hRead
  split at hRead
  · rename_i hClose
    cases hRead
    rw [expect_eq_some_iff] at hClose
    obtain ⟨space, hText, hSpace⟩ := exists_skipped text
    refine ⟨space ++ [close], ?_, space, rfl, .inl ⟨hSpace, rfl⟩⟩
    rw [hText, hClose]
    simp
  · simp only [Option.bind_eq_bind, Option.bind_eq_some_iff, Prod.exists,
      expect_eq_some_iff] at hRead
    obtain ⟨_, _, hItems, _, rfl, hSame⟩ := hRead
    cases hSame
    obtain ⟨front, rfl, hFront⟩ := h _ _ _ hItems
    exact ⟨front ++ [close], by simp, front, rfl, .inr hFront⟩

theorem sound_readLiteral : Sound readLiteral fun text value => Writes text (.value value) := by
  intro text value rest hRead
  unfold readLiteral at hRead
  split at hRead
  · cases hRead
    exact ⟨_, rfl, .nullWord⟩
  · cases hRead
    exact ⟨_, rfl, .trueWord⟩
  · cases hRead
    exact ⟨_, rfl, .falseWord⟩
  · cases hRead

theorem sound_readValue (depth : Nat) :
    Sound (readValue depth) fun text value => Writes text (.value value) := by
  induction depth with
  | zero => exact fun _ _ _ hRead => nomatch hRead
  | succ depth ih =>
      have hElements := sound_readItems (fun text values => Writes text (.elements values))
        (sound_readElement ih) (fun _ _ => .lastElement) (fun _ _ _ _ => .elements) depth
      have hMembers := sound_readItems (fun text members => Writes text (.members members))
        (sound_readMember ih) (fun _ _ => .lastMember) (fun _ _ _ _ => .members) depth
      intro text value rest hRead
      cases text with
      | nil => cases hRead
      | cons c text =>
          simp only [readValue] at hRead
          split_ifs at hRead with hString hArray hObject
          · subst hString
            obtain ⟨_, rfl, _, ⟨front, rfl, hFront⟩, rfl⟩ := sound_readString.readAs _ _ _ _ hRead
            exact ⟨'"' :: front ++ ['"'], rfl, .string hFront⟩
          · subst hArray
            obtain ⟨_, rfl, _, ⟨front, rfl, ⟨hSpace, rfl⟩ | hFront⟩, rfl⟩ :=
              (sound_readClosed hElements).readAs _ _ _ _ hRead
            · exact ⟨'[' :: front ++ [']'], rfl, .emptyArray hSpace⟩
            · exact ⟨'[' :: front ++ [']'], rfl, .array hFront⟩
          · subst hObject
            obtain ⟨_, rfl, _, ⟨front, rfl, ⟨hSpace, rfl⟩ | hFront⟩, rfl⟩ :=
              (sound_readClosed hMembers).readAs _ _ _ _ hRead
            · exact ⟨'\x7b' :: front ++ ['\x7d'], rfl, .emptyObject hSpace⟩
            · exact ⟨'\x7b' :: front ++ ['\x7d'], rfl, .object hFront⟩
          · obtain hLiteral | ⟨-, hNumber⟩ := Option.or_eq_some_iff.1 hRead
            · exact sound_readLiteral _ _ _ hLiteral
            · obtain ⟨front, hText, _, hFront, rfl⟩ := sound_readNumber.readAs _ _ _ _ hNumber
              exact ⟨front, hText, .number hFront⟩

/-! What is written is read -/

/-- `rest` is empty or starts with what may stand behind a value and white space. -/
def Stops (rest : List Char) : Prop := ∀ c, rest.head? = some c → c = ',' ∨ c = ']' ∨ c = '\x7d'

/-- Whether a character may be the first one of a value or a member. -/
def isOpening (c : Char) : Bool := !isSpace c && c ≠ ']' && c ≠ '\x7d'

theorem Stops.ends {rest : List Char} (h : Stops rest) : Ends rest := by
  intro c hHead
  obtain rfl | rfl | rfl := h c hHead <;> decide

theorem Ends.append {space rest : List Char} (hSpace : IsSpace space) (h : Ends rest) :
    Ends (space ++ rest) := by
  cases space with
  | nil => exact h
  | cons c space =>
      intro _ hHead
      cases hHead
      have hFirst := hSpace c (by simp)
      simp only [isSpace, Bool.or_eq_true, decide_eq_true_eq] at hFirst
      obtain ((rfl | rfl) | rfl) | rfl := hFirst <;> decide

theorem skipSpace_append {space rest : List Char} (h : IsSpace space) :
    skipSpace (space ++ rest) = skipSpace rest := List.dropWhile_append_of_pos h

theorem skipSpace_cons {c : Char} {rest : List Char} (h : isSpace c = false) :
    skipSpace (c :: rest) = c :: rest := by
  simp [skipSpace, h]

theorem Stops.skipSpace_eq {rest : List Char} (h : Stops rest) : skipSpace rest = rest := by
  cases rest with
  | nil => rfl
  | cons c rest =>
      refine skipSpace_cons ?_
      obtain rfl | rfl | rfl := h c rfl <;> decide

theorem isSpace_of_isOpening {c : Char} (h : isOpening c = true) : isSpace c = false := by
  simp only [isOpening, Bool.and_eq_true, Bool.not_eq_true'] at h
  exact h.1.1

theorem WritesNumber.head {text : List Char} {value : ℚ} (h : WritesNumber text value) :
    ∃ c rest, text = c :: rest ∧ (c = '-' ∨ c.isDigit = true) := by
  cases h with
  | positive h =>
      obtain ⟨c, rest, rfl, hDigit⟩ := h.head
      exact ⟨c, rest, rfl, .inr hDigit⟩
  | negative => exact ⟨_, _, rfl, .inl rfl⟩

/-- The first character of a number is none that another value, a space or a bracket starts with. -/
theorem ne_of_number_head {c d : Char} (h : c = '-' ∨ c.isDigit = true) (hMinus : d ≠ '-')
    (hDigit : d.isDigit = false) : c ≠ d := by
  rintro rfl
  obtain rfl | hIs := h
  · exact hMinus rfl
  · cases hDigit.symm.trans hIs

theorem isOpening_of_number_head {c : Char} (h : c = '-' ∨ c.isDigit = true) :
    isOpening c = true := by
  have hOther (d : Char) := ne_of_number_head (d := d) h
  simp [isOpening, isSpace, hOther]

/-- Only white space may come in front of the first character of a part, and a value has none. -/
theorem Writes.opens {text : List Char} {part : Part} (h : Writes text part) :
    ∃ space c rest, text = space ++ c :: rest ∧ IsSpace space ∧ isOpening c = true ∧
      ∀ value, part = .value value → space = [] := by
  induction h with
  | number h =>
      obtain ⟨c, rest, rfl, hHead⟩ := h.head
      exact ⟨[], c, rest, rfl, nofun, isOpening_of_number_head hHead, fun _ _ => rfl⟩
  | nullWord | trueWord | falseWord | string | emptyArray | array | emptyObject | object =>
      exact ⟨[], _, _, rfl, nofun, by decide, fun _ _ => rfl⟩
  | @element before _ after _ hBefore _ _ ih =>
      obtain ⟨space, c, rest, rfl, -, hHead, hNone⟩ := ih
      obtain rfl := hNone _ rfl
      exact ⟨before, c, rest ++ after, by simp, hBefore, hHead, nofun⟩
  | @member before name between text _ _ hBefore =>
      exact ⟨before, '"', name ++ '"' :: between ++ ':' :: text, by simp, hBefore, by decide, nofun⟩
  | lastElement _ ih | lastMember _ ih =>
      obtain ⟨space, c, rest, hText, hSpace, hHead, -⟩ := ih
      exact ⟨space, c, rest, hText, hSpace, hHead, nofun⟩
  | @elements _ others _ _ _ _ ih | @members _ others _ _ _ _ _ ih =>
      obtain ⟨space, c, rest, rfl, hSpace, hHead, -⟩ := ih
      exact ⟨space, c, rest ++ ',' :: others, by simp, hSpace, hHead, nofun⟩

/-- White space in front of a value is skipped, and no more. -/
theorem Writes.skipSpace_eq {text : List Char} {value : Value} (h : Writes text (.value value))
    (rest : List Char) : skipSpace (text ++ rest) = text ++ rest := by
  obtain ⟨space, c, others, rfl, -, hHead, hNone⟩ := h.opens
  obtain rfl := hNone _ rfl
  exact skipSpace_cons (isSpace_of_isOpening hHead)

theorem readItems_last {readItem : List Char → Option (α × List Char)} {text rest : List Char}
    {item : α} {close : Char} (h : readItem (text ++ close :: rest) = some (item, close :: rest))
    (hClose : close ≠ ',') (count : Nat) :
    readItems readItem (count + 1) (text ++ close :: rest) = some ([item], close :: rest) := by
  simp [readItems, h, expect, hClose]

theorem readItems_more {readItem : List Char → Option (α × List Char)}
    {text others rest : List Char} {item : α} {items : List α} {count : Nat}
    (h : readItem (text ++ ',' :: others) = some (item, ',' :: others))
    (hOthers : readItems readItem count others = some (items, rest)) :
    readItems readItem (count + 1) (text ++ ',' :: others) = some (item :: items, rest) := by
  simp [readItems, h, expect, hOthers]

theorem readClosed_nil (readItem : List Char → Option (α × List Char)) {space : List Char}
    {close : Char} (hSpace : IsSpace space) (hClose : isSpace close = false) (count : Nat)
    (rest : List Char) :
    readClosed readItem close count (space ++ close :: rest) = some ([], rest) := by
  simp [readClosed, skipSpace_append hSpace, skipSpace_cons hClose]

theorem readClosed_eq {readItem : List Char → Option (α × List Char)} {text rest : List Char}
    {items : List α} {close : Char} {count : Nat} {part : Part} (hText : Writes text part)
    (hClose : isOpening close = false)
    (h : readItems readItem count (text ++ close :: rest) = some (items, close :: rest)) :
    readClosed readItem close count (text ++ close :: rest) = some (items, rest) := by
  have hNone : expect close (skipSpace (text ++ close :: rest)) = none := by
    obtain ⟨space, c, others, rfl, hSpace, hHead, -⟩ := hText.opens
    have hOther : c ≠ close := by
      rintro rfl
      cases hClose.symm.trans hHead
    rw [List.append_assoc, List.cons_append, skipSpace_append hSpace,
      skipSpace_cons (isSpace_of_isOpening hHead)]
    simp [expect, hOther]
  simp [readClosed, hNone, h]

/-- What stands for a part of a text is read as it, in front of anything that may stand behind it.
The bounds of the reader do not matter if they exceed the length of the text. -/
def IsRead (text : List Char) : Part → Prop
  | .value value => ∀ depth rest, text.length < depth → Ends rest →
      readValue depth (text ++ rest) = some (value, rest)
  | .element value => ∀ depth rest, text.length < depth → Stops rest →
      readElement (readValue depth) (text ++ rest) = some (value, rest)
  | .elements values => ∀ depth count rest, text.length < depth → text.length < count →
      readItems (readElement (readValue depth)) count (text ++ ']' :: rest) =
        some (values, ']' :: rest)
  | .member name value => ∀ depth rest, text.length < depth → Stops rest →
      readMember (readValue depth) (text ++ rest) = some ((name, value), rest)
  | .members members => ∀ depth count rest, text.length < depth → text.length < count →
      readItems (readMember (readValue depth)) count (text ++ '\x7d' :: rest) =
        some (members, '\x7d' :: rest)

theorem stops_cons {c : Char} (h : c = ',' ∨ c = ']' ∨ c = '\x7d') (rest : List Char) :
    Stops (c :: rest) := by
  intro _ hHead
  cases hHead
  exact h

theorem WritesNumber.readValue_eq {text rest : List Char} {value : ℚ} (h : WritesNumber text value)
    (hRest : Ends rest) (depth : Nat) :
    readValue (depth + 1) (text ++ rest) = some (.number value, rest) := by
  have hNumber := h.readNumber_eq hRest
  obtain ⟨c, others, rfl, hHead⟩ := h.head
  have hOther (d : Char) := ne_of_number_head (d := d) hHead
  have hLiteral : readLiteral (c :: (others ++ rest)) = none := by
    unfold readLiteral
    split
    all_goals
      rename_i hText
      first
        | rfl
        | exact absurd (List.cons.inj hText).1 (hOther _ (by decide) (by decide))
  rw [List.cons_append] at hNumber ⊢
  simp [readValue, readAs, hOther, hLiteral, hNumber]

theorem Writes.isRead {text : List Char} {part : Part} (h : Writes text part) :
    IsRead text part := by
  induction h with
  | nullWord | trueWord | falseWord =>
      intro depth rest hDepth _
      obtain ⟨depth, rfl⟩ := Nat.exists_eq_succ_of_ne_zero (Nat.ne_zero_of_lt hDepth)
      simp [readValue, readLiteral]
  | number h =>
      intro depth rest hDepth hRest
      obtain ⟨depth, rfl⟩ := Nat.exists_eq_succ_of_ne_zero (Nat.ne_zero_of_lt hDepth)
      exact h.readValue_eq hRest depth
  | string h =>
      intro depth rest hDepth _
      obtain ⟨depth, rfl⟩ := Nat.exists_eq_succ_of_ne_zero (Nat.ne_zero_of_lt hDepth)
      simp [readValue, readAs, h.readString_eq]
  | emptyArray hSpace | emptyObject hSpace =>
      intro depth rest hDepth _
      obtain ⟨depth, rfl⟩ := Nat.exists_eq_succ_of_ne_zero (Nat.ne_zero_of_lt hDepth)
      simp [readValue, readAs, readClosed_nil, hSpace, isSpace]
  | array h ih | object h ih =>
      intro depth rest hDepth _
      obtain ⟨depth, rfl⟩ := Nat.exists_eq_succ_of_ne_zero (Nat.ne_zero_of_lt hDepth)
      simp only [List.length_append, List.length_cons] at hDepth
      -- What is left of the bound still exceeds the length of the text without its brackets.
      have hItems := ih depth depth rest (by omega) (by omega)
      have hClosed := readClosed_eq h (by decide) hItems
      simp [readValue, readAs, hClosed]
  | @element before text after value hBefore hAfter h ih =>
      intro depth rest hDepth hRest
      simp only [List.length_append] at hDepth
      have hValue := ih depth (after ++ rest) (by omega) (hRest.ends.append hAfter)
      rw [List.append_assoc, List.append_assoc, readElement, skipSpace_append hBefore,
        h.skipSpace_eq, hValue]
      simp only [Option.bind_eq_bind, Option.bind_some, Option.pure_def, skipSpace_append hAfter,
        hRest.skipSpace_eq]
  | lastElement _ ih | lastMember _ ih =>
      intro depth count rest hDepth hCount
      obtain ⟨count, rfl⟩ := Nat.exists_eq_succ_of_ne_zero (Nat.ne_zero_of_lt hCount)
      exact readItems_last (ih depth _ hDepth (stops_cons (by decide) _)) (by decide) count
  | elements _ _ ih ihOthers | members _ _ ih ihOthers =>
      intro depth count rest hDepth hCount
      obtain ⟨count, rfl⟩ := Nat.exists_eq_succ_of_ne_zero (Nat.ne_zero_of_lt hCount)
      simp only [List.length_append, List.length_cons] at hDepth hCount
      rw [List.append_assoc, List.cons_append]
      exact readItems_more (ih depth _ (by omega) (stops_cons (by decide) _))
        (ihOthers depth count rest (by omega) (by omega))
  | @member before name between text string value hBefore hName hBetween _ ih =>
      intro depth rest hDepth hRest
      simp only [List.length_append, List.length_cons] at hDepth
      have hValue := ih depth rest (by omega) hRest
      have hText : before ++ '"' :: name ++ '"' :: between ++ ':' :: text ++ rest =
          before ++ '"' :: (name ++ '"' :: (between ++ ':' :: (text ++ rest))) := by simp
      rw [hText]
      simp [readMember, skipSpace_append hBefore, skipSpace_cons (by decide : isSpace '"' = false),
        hName.readString_eq, skipSpace_append hBetween,
        skipSpace_cons (by decide : isSpace ':' = false), hValue]

/-- The reader decides the grammar: a text is read as a value if and only if it can mean it. -/
theorem read_eq_some_iff {text : String} {value : Value} :
    read text = some value ↔ Writes text.toList (.element value) := by
  constructor
  · intro h
    unfold read at h
    split at h
    · rename_i hRead
      cases h
      obtain ⟨front, hText, hFront⟩ := sound_readElement (sound_readValue _) _ _ _ hRead
      rwa [hText, List.append_nil]
    · cases h
  · intro h
    have hRead := h.isRead (text.toList.length + 1) [] (Nat.lt_succ_self _) nofun
    rw [List.append_nil] at hRead
    rw [read, hRead]

/-- Texts are not ambiguous. -/
theorem Writes.unique {text : List Char} {value other : Value} (h : Writes text (.element value))
    (hOther : Writes text (.element other)) : value = other := by
  have hRead := read_eq_some_iff.2 (String.toList_ofList (l := text) ▸ h)
  have hReadOther := read_eq_some_iff.2 (String.toList_ofList (l := text) ▸ hOther)
  exact Option.some.inj (hRead.symm.trans hReadOther)

end Ancestry.Json
