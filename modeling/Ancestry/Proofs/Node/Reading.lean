import Ancestry.Node.Written
import Ancestry.Proofs.Text.Blanks
import Mathlib.Data.List.Induction

/-! The texts that are read as nodes. Main statement: they are the names of elements with pairs of
brackets behind them, with blanks around the whole and before each pair (`Node.read_eq_ok_iff`). -/
namespace Ancestry.Node

variable {catalog : Catalog} {node : Node}

/-- The parts of a text from which a node is read: a name, and behind it pairs of brackets. -/
structure Layout where
  before : List Char
  name : List Char
  /-- What stands before each of the pairs of brackets. -/
  gaps : List (List Char)
  after : List Char
  isBlank_before : ∀ c ∈ before, Text.isBlank c = true
  name_ne_nil : name ≠ []
  isNameChar : ∀ c ∈ name, Text.isNameChar c = true
  isBlank_gaps : ∀ gap ∈ gaps, ∀ c ∈ gap, Text.isBlank c = true
  isBlank_after : ∀ c ∈ after, Text.isBlank c = true

/-- Pairs of brackets, each behind its gap. -/
def brackets (gaps : List (List Char)) : List Char := gaps.flatMap (· ++ ['[', ']'])

def Layout.text (layout : Layout) : List Char :=
  layout.before ++ (layout.name ++ brackets layout.gaps ++ layout.after)

theorem brackets_append (gaps : List (List Char)) (gap : List Char) :
    brackets (gaps ++ [gap]) = brackets gaps ++ gap ++ ['[', ']'] := by
  simp [brackets]

theorem isBlank_of_isNameChar {c : Char} (h : Text.isNameChar c = true) :
    Text.isBlank c = false := by
  simp only [Text.isNameChar, Bool.not_eq_true', Bool.or_eq_false_iff] at h
  exact h.2

/-- A name with brackets behind it does not end with a blank. -/
theorem isBlank_last {name : List Char} (hName : ∀ c ∈ name, Text.isNameChar c = true)
    (gaps : List (List Char)) :
    ∀ c ∈ (name ++ brackets gaps).reverse.head?, Text.isBlank c = false := by
  rcases List.eq_nil_or_concat gaps with rfl | ⟨gaps, gap, rfl⟩
  · intro c hLast
    have hMem : c ∈ name := by simpa [brackets] using List.mem_of_mem_head? hLast
    exact isBlank_of_isNameChar (hName c hMem)
  · intro c hLast
    obtain rfl : ']' = c := by simpa [brackets_append] using hLast
    decide

/-- The brackets that are peeled off are those behind the rest. -/
theorem exists_eq_append_brackets (text : List Char) :
    ∃ gaps, text.reverse = (peel text).1.reverse ++ brackets gaps ∧
      gaps.length = (peel text).2 ∧ ∀ gap ∈ gaps, ∀ c ∈ gap, Text.isBlank c = true := by
  fun_induction peel text with
  | case1 rest name dims hPeel ih =>
      rw [hPeel] at ih
      obtain ⟨gaps, hRest, hLength, hGaps⟩ := ih
      refine ⟨gaps ++ [(rest.takeWhile Text.isBlank).reverse], ?_, by simp [hLength], ?_⟩
      · have hSplit : rest.reverse =
            (rest.dropWhile Text.isBlank).reverse ++ (rest.takeWhile Text.isBlank).reverse := by
          rw [← List.reverse_append, List.takeWhile_append_dropWhile]
        rw [List.reverse_cons, List.reverse_cons, hSplit, hRest, brackets_append]
        simp
      · intro gap hGap
        rcases List.mem_append.1 hGap with hOld | hNew
        · exact hGaps gap hOld
        · rw [List.mem_singleton.1 hNew]
          exact fun c hMem => List.mem_takeWhile_imp (List.mem_reverse.1 hMem)
  | case2 text => exact ⟨[], by simp [brackets], rfl, by simp⟩

/-- All brackets behind a name are peeled off. -/
theorem peel_reverse {name : List Char} {gaps : List (List Char)}
    (hName : ∀ c ∈ name, Text.isNameChar c = true)
    (hGaps : ∀ gap ∈ gaps, ∀ c ∈ gap, Text.isBlank c = true) :
    peel (name ++ brackets gaps).reverse = (name.reverse, gaps.length) := by
  -- The text is read from its end, so the last pair of brackets comes first.
  induction gaps using List.reverseRecOn with
  | nil =>
      have hNone : ∀ rest, name.reverse ≠ ']' :: '[' :: rest := by
        intro rest hSame
        have hMem : ']' ∈ name.reverse := by simp [hSame]
        exact absurd (hName ']' (List.mem_reverse.1 hMem)) (by decide)
      rw [brackets, List.flatMap_nil, List.append_nil, peel.eq_2 _ hNone]
      rfl
  | append_singleton gaps gap ih =>
      have hReversed : (name ++ brackets (gaps ++ [gap])).reverse =
          ']' :: '[' :: (gap.reverse ++ (name ++ brackets gaps).reverse) := by
        simp [brackets_append]
      have hGap : ∀ c ∈ gap.reverse, Text.isBlank c = true := by
        simpa using hGaps gap (by simp)
      rw [hReversed, peel, Text.dropWhile_isBlank_append hGap (isBlank_last hName gaps),
        ih fun other hOther => hGaps other (List.mem_append_left _ hOther), List.length_append]
      rfl

/-- Nothing is trimmed inside of a layout. -/
theorem Layout.trim_text (layout : Layout) :
    Text.trim layout.text = layout.name ++ brackets layout.gaps := by
  have hHead : ∀ c ∈ (layout.name ++ brackets layout.gaps ++ layout.after).head?,
      Text.isBlank c = false := by
    obtain ⟨first, rest, hName⟩ := List.exists_cons_of_ne_nil layout.name_ne_nil
    intro c hFirst
    obtain rfl : first = c := by simpa [hName] using hFirst
    exact isBlank_of_isNameChar (layout.isNameChar first (by simp [hName]))
  exact Text.trim_append layout.isBlank_before layout.isBlank_after hHead
    (isBlank_last layout.isNameChar layout.gaps)

theorem lift?_eq_some_iff {element : Element} {dims : Nat} :
    lift? element dims = some node ↔ element = node.element ∧ dims = node.dims := by
  rw [lift?]
  split
  · rw [Option.some.injEq, Node.mk.injEq, Fin.ext_iff]
  · constructor
    · intro h
      cases h
    · rintro ⟨_, rfl⟩
      exact absurd node.dims.isLt ‹_›

theorem read_eq_ok_iff_of_peel {text : String} {reversedName : List Char} {dims : Nat}
    (hPeel : peel (Text.trim text.toList).reverse = (reversedName, dims)) :
    read catalog text = .ok node ↔
      (reversedName ≠ [] ∧ ∀ c ∈ reversedName, Text.isNameChar c = true) ∧
        elementNamed? catalog (String.ofList reversedName.reverse) = some node.element ∧
        dims = node.dims := by
  have hPlain : (reversedName.isEmpty ||
      reversedName.any fun c => c == '[' || c == ']' || Text.isBlank c) = false ↔
        reversedName ≠ [] ∧ ∀ c ∈ reversedName, Text.isNameChar c = true := by
    simp [Text.isNameChar]
  simp only [read, hPeel, ← hPlain]
  cases reversedName.isEmpty ||
      reversedName.any fun c => c == '[' || c == ']' || Text.isBlank c with
  | true => simp
  | false =>
      cases elementNamed? catalog (String.ofList reversedName.reverse) with
      | none => simp
      | some element =>
          rw [Option.some.injEq, ← lift?_eq_some_iff]
          cases hLift : lift? element dims <;> simp [hLift]

/-- A text that has no layout is no node, and any other is read as its name and brackets say. -/
theorem read_eq_ok_iff {text : String} : read catalog text = .ok node ↔
    ∃ layout : Layout, text.toList = layout.text ∧
      elementNamed? catalog (String.ofList layout.name) = some node.element ∧
      layout.gaps.length = node.dims := by
  constructor
  · intro hRead
    obtain ⟨before, after, hText, hBefore, hAfter⟩ := Text.exists_eq_append_trim text.toList
    obtain ⟨gaps, hTrim, hLength, hGaps⟩ :=
      exists_eq_append_brackets (Text.trim text.toList).reverse
    obtain ⟨reversedName, dims, hPeel⟩ : ∃ reversedName dims,
        peel (Text.trim text.toList).reverse = (reversedName, dims) := ⟨_, _, rfl⟩
    obtain ⟨⟨hNonempty, hName⟩, hElement, hDims⟩ := (read_eq_ok_iff_of_peel hPeel).1 hRead
    rw [List.reverse_reverse, hPeel] at hTrim
    rw [hPeel] at hLength
    rw [hTrim] at hText
    let layout : Layout :=
      ⟨before, reversedName.reverse, gaps, after, hBefore, by simpa using hNonempty,
        by simpa using hName, hGaps, hAfter⟩
    exact ⟨layout, hText, hElement, hLength.trans hDims⟩
  · rintro ⟨layout, hText, hElement, hDims⟩
    have hPeel : peel (Text.trim text.toList).reverse =
        (layout.name.reverse, layout.gaps.length) := by
      rw [hText, layout.trim_text]
      exact peel_reverse layout.isNameChar layout.isBlank_gaps
    refine (read_eq_ok_iff_of_peel hPeel).2 ⟨⟨?_, ?_⟩, ?_, hDims⟩
    · simpa using layout.name_ne_nil
    · simpa using layout.isNameChar
    · rwa [List.reverse_reverse]

end Ancestry.Node
