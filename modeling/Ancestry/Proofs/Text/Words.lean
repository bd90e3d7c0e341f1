import Ancestry.Text.Split
import Mathlib.Data.List.TakeWhile

/-! What the lines and the words of a text are, apart from how they are split off. Main statements:
the lines are what stands in front of the line breaks and behind the last one (`hasLines_iff`), and
the words are the commas and the longest runs of characters that are neither blanks nor commas
(`hasWords_iff`). -/
namespace Ancestry.Text

/-- The text has the given lines. There is no line break inside a line. A line ends with one, or
with a carriage return and one, and the last line may go on to the end of the text instead. -/
inductive HasLines : List Char → List (List Char) → Prop where
  | nil : HasLines [] []
  | last {line : List Char} (hNonempty : line ≠ []) (hLine : '\n' ∉ line) : HasLines line [line]
  | lineFeed {line text : List Char} {found : List (List Char)} (hLine : '\n' ∉ line)
      (hEnd : line.getLast? ≠ some '\r') (hRest : HasLines text found) :
      HasLines (line ++ '\n' :: text) (line :: found)
  | carriageReturn {line text : List Char} {found : List (List Char)} (hLine : '\n' ∉ line)
      (hRest : HasLines text found) : HasLines (line ++ '\r' :: '\n' :: text) (line :: found)

/-- What stands in front of a text belongs to its first line, but for a carriage return in front of
a line break. -/
theorem foldr_addChar_line {line first : List Char} {beforeBreak : Bool}
    {rest : List (List Char)} (hLine : '\n' ∉ line)
    (hEnd : beforeBreak = true → line.getLast? ≠ some '\r') :
    line.foldr lines.addChar (beforeBreak, first :: rest) =
      (beforeBreak && line.isEmpty, (line ++ first) :: rest) := by
  induction line with
  | nil => simp
  | cons c line ih =>
      obtain ⟨hHere, hRest⟩ : '\n' ≠ c ∧ '\n' ∉ line := by simpa using hLine
      have hReturn : ¬(c = '\r' ∧ beforeBreak = true ∧ line = []) := by
        rintro ⟨rfl, hBreak, rfl⟩
        exact hEnd hBreak rfl
      have hRestEnd : beforeBreak = true → line.getLast? ≠ some '\r' := by
        intro hBreak hLast
        exact hEnd hBreak (by simp [List.getLast?_cons, hLast])
      rw [List.foldr_cons, ih hRest hRestEnd]
      simp [lines.addChar, hHere.symm, hReturn]

theorem lines_line {line : List Char} (hNonempty : line ≠ []) (hLine : '\n' ∉ line) :
    lines line = [line] := by
  obtain ⟨front, c, rfl⟩ : ∃ front c, line = front ++ [c] :=
    ⟨_, _, (List.dropLast_concat_getLast hNonempty).symm⟩
  obtain ⟨hFront, hLast⟩ : '\n' ∉ front ∧ '\n' ≠ c := by simpa using hLine
  have hStart : [c].foldr lines.addChar (false, []) = (false, [[c]]) := by
    simp [lines.addChar, hLast.symm]
  rw [lines, List.foldr_append, hStart, foldr_addChar_line hFront (by simp)]

theorem lines_append_lineFeed {line : List Char} (hLine : '\n' ∉ line)
    (hEnd : line.getLast? ≠ some '\r') (text : List Char) :
    lines (line ++ '\n' :: text) = line :: lines text := by
  have hBreak : ('\n' :: text).foldr lines.addChar (false, []) = (true, [] :: lines text) := rfl
  rw [lines, List.foldr_append, hBreak, foldr_addChar_line hLine fun _ => hEnd, List.append_nil]

theorem lines_append_carriageReturn {line : List Char} (hLine : '\n' ∉ line)
    (text : List Char) : lines (line ++ '\r' :: '\n' :: text) = line :: lines text := by
  have hBreak : ('\r' :: '\n' :: text).foldr lines.addChar (false, []) =
      (false, [] :: lines text) := rfl
  rw [lines, List.foldr_append, hBreak, foldr_addChar_line hLine (by simp),
    List.append_nil]

/-- Every text has the lines that are split off. -/
theorem hasLines_lines (text : List Char) : HasLines text (lines text) := by
  induction hLength : text.length using Nat.strongRecOn generalizing text with
  | ind length ih =>
      subst hLength
      by_cases hBreak : '\n' ∈ text
      · obtain ⟨line, rest, rfl, hLine⟩ := List.eq_append_cons_of_mem hBreak
        have hRest := ih rest.length (by simp; omega) rest rfl
        by_cases hEnd : line.getLast? = some '\r'
        · obtain ⟨line, rfl⟩ := List.getLast?_eq_some_iff.1 hEnd
          have hShorter : '\n' ∉ line := fun h => hLine (List.mem_append_left _ h)
          rw [List.append_assoc, List.singleton_append, lines_append_carriageReturn hShorter]
          exact .carriageReturn hShorter hRest
        · rw [lines_append_lineFeed hLine hEnd]
          exact .lineFeed hLine hEnd hRest
      · by_cases hNonempty : text = []
        · subst hNonempty
          exact .nil
        · rw [lines_line hNonempty hBreak]
          exact .last hNonempty hBreak

theorem hasLines_iff {text : List Char} {found : List (List Char)} :
    HasLines text found ↔ lines text = found := by
  constructor
  · intro h
    induction h with
    | nil => rfl
    | last hNonempty hLine => exact lines_line hNonempty hLine
    | lineFeed hLine hEnd _ ih => rw [lines_append_lineFeed hLine hEnd, ih]
    | carriageReturn hLine _ ih => rw [lines_append_carriageReturn hLine, ih]
  · rintro rfl
    exact hasLines_lines text

/-- A line break behind the last line is its end and begins no other line. -/
example : lines ['a', '\r', '\n', '\n', 'b', '\n'] = [['a'], [], ['b']] := rfl

/-- Whether a character may stand in a word beside others. -/
def isWordChar (c : Char) : Bool := !isBlank c && c != ','

/-- The text has the given words. Blanks stand between words and around them. Each comma is a word
of its own, and any other word goes on up to a blank, a comma or the end. -/
inductive HasWords : List Char → List (List Char) → Prop where
  | nil : HasWords [] []
  | blank {c : Char} {text : List Char} {found : List (List Char)} (hBlank : isBlank c = true)
      (hRest : HasWords text found) : HasWords (c :: text) found
  | comma {text : List Char} {found : List (List Char)} (hRest : HasWords text found) :
      HasWords (',' :: text) ([','] :: found)
  | word {word text : List Char} {found : List (List Char)} (hNonempty : word ≠ [])
      (hWord : ∀ c ∈ word, isWordChar c = true) (hEnd : ∀ c ∈ text.head?, isWordChar c = false)
      (hRest : HasWords text found) : HasWords (word ++ text) (word :: found)

@[simp] theorem isBlank_comma : isBlank ',' = false := by decide

theorem words_eq (text : List Char) :
    words text =
      consWord (text.foldr words.addChar ([], [])).1 (text.foldr words.addChar ([], [])).2 := rfl

theorem words_blank {c : Char} (hBlank : isBlank c = true) (text : List Char) :
    words (c :: text) = words text := by
  simp [words_eq, words.addChar, hBlank, consWord]

theorem words_comma (text : List Char) : words (',' :: text) = [','] :: words text := by
  simp [words_eq, words.addChar, consWord]

/-- No word is open at the beginning of a text that does not begin with one. -/
theorem foldr_addChar_of_end {text : List Char} (hEnd : ∀ c ∈ text.head?, isWordChar c = false) :
    text.foldr words.addChar ([], []) = ([], words text) := by
  cases text with
  | nil => rfl
  | cons c text =>
      have hStart : isBlank c = true ∨ c = ',' := by
        simpa [isWordChar, or_iff_not_imp_left] using hEnd
      rcases hStart with hBlank | rfl
      · simp [words_eq, words.addChar, hBlank, consWord]
      · simp [words_eq, words.addChar, consWord]

theorem foldr_addChar_append {word text : List Char} (hWord : ∀ c ∈ word, isWordChar c = true)
    (hEnd : ∀ c ∈ text.head?, isWordChar c = false) :
    (word ++ text).foldr words.addChar ([], []) = (word, words text) := by
  induction word with
  | nil => exact foldr_addChar_of_end hEnd
  | cons c word ih =>
      have hRest := ih fun other hOther => hWord other (List.mem_cons_of_mem c hOther)
      have hHere : isBlank c = false ∧ c ≠ ',' := by
        simpa [isWordChar] using hWord c List.mem_cons_self
      simp [hRest, words.addChar, hHere]

theorem words_word {word text : List Char} (hNonempty : word ≠ [])
    (hWord : ∀ c ∈ word, isWordChar c = true) (hEnd : ∀ c ∈ text.head?, isWordChar c = false) :
    words (word ++ text) = word :: words text := by
  rw [words_eq, foldr_addChar_append hWord hEnd]
  simp [consWord, hNonempty]

/-- Every text has the words that are split off. -/
theorem hasWords_words (text : List Char) : HasWords text (words text) := by
  induction hLength : text.length using Nat.strongRecOn generalizing text with
  | ind length ih =>
      subst hLength
      cases text with
      | nil => exact .nil
      | cons c text =>
          by_cases hBlank : isBlank c = true
          · rw [words_blank hBlank]
            exact .blank hBlank (ih _ (by simp) text rfl)
          · by_cases hComma : c = ','
            · subst hComma
              rw [words_comma]
              exact .comma (ih _ (by simp) text rfl)
            · -- A word begins here and takes all characters that it can.
              have hStart : isWordChar c = true := by simp [isWordChar, hBlank, hComma]
              have hSplit := @List.takeWhile_append_dropWhile _ isWordChar (c :: text)
              have hNonempty : (c :: text).takeWhile isWordChar ≠ [] := by simp [hStart]
              have hWord : ∀ other ∈ (c :: text).takeWhile isWordChar, isWordChar other = true :=
                fun other hOther => List.mem_takeWhile_imp hOther
              have hEnd : ∀ other ∈ ((c :: text).dropWhile isWordChar).head?,
                  isWordChar other = false := by
                intro other hOther
                have hStop := List.head?_dropWhile_not isWordChar (c :: text)
                rwa [Option.mem_def.1 hOther] at hStop
              have hShorter : ((c :: text).dropWhile isWordChar).length < (c :: text).length := by
                have hLength := congrArg List.length hSplit
                have hTaken := List.length_pos_iff.2 hNonempty
                rw [List.length_append] at hLength
                omega
              rw [← hSplit, words_word hNonempty hWord hEnd]
              exact .word hNonempty hWord hEnd (ih _ hShorter _ rfl)

theorem hasWords_iff {text : List Char} {found : List (List Char)} :
    HasWords text found ↔ words text = found := by
  constructor
  · intro h
    induction h with
    | nil => rfl
    | blank hBlank _ ih => rw [words_blank hBlank, ih]
    | comma _ ih => rw [words_comma, ih]
    | word hNonempty hWord hEnd _ ih => rw [words_word hNonempty hWord hEnd, ih]
  · rintro rfl
    exact hasWords_words text

/-- A text of blanks has no words, and every other text has some. -/
theorem words_eq_nil_iff {text : List Char} :
    words text = [] ↔ ∀ c ∈ text, isBlank c = true := by
  induction text with
  | nil => simp [words_eq, consWord]
  | cons c text ih =>
      by_cases hBlank : isBlank c = true
      · simp [words_blank hBlank, ih, hBlank]
      · have hSome : words (c :: text) ≠ [] := by
          by_cases hComma : c = ','
          · simp [hComma, words_comma]
          · simp [words_eq, words.addChar, hBlank, hComma, consWord]
        simp [hSome, hBlank]

end Ancestry.Text
