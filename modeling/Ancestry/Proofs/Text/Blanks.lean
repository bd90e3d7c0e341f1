import Ancestry.Text.Split
import Mathlib.Data.List.TakeWhile

/-! Blanks around texts. Main statements: what is left of a text without the blanks at its ends
(`Text.exists_eq_append_trim`, `Text.trim_append`). -/
namespace Ancestry

namespace Text

variable {before core after rest : List Char}

theorem dropWhile_isBlank_append (hBefore : ∀ c ∈ before, isBlank c = true)
    (hRest : ∀ c ∈ rest.head?, isBlank c = false) :
    (before ++ rest).dropWhile isBlank = rest := by
  rw [List.dropWhile_append_of_pos hBefore]
  cases rest with
  | nil => rfl
  | cons c rest => exact List.dropWhile_cons_of_neg (by simpa using hRest)

/-- Blanks at the ends of a text are taken away. -/
theorem trim_append (hBefore : ∀ c ∈ before, isBlank c = true)
    (hAfter : ∀ c ∈ after, isBlank c = true)
    (hHead : ∀ c ∈ (core ++ after).head?, isBlank c = false)
    (hLast : ∀ c ∈ core.reverse.head?, isBlank c = false) :
    trim (before ++ (core ++ after)) = core := by
  have hReversed : ∀ c ∈ after.reverse, isBlank c = true := by simpa using hAfter
  rw [trim, dropWhile_isBlank_append hBefore hHead, trimEnd, List.reverse_append,
    dropWhile_isBlank_append hReversed hLast, List.reverse_reverse]

/-- Nothing but blanks is taken away. -/
theorem exists_eq_append_trim (text : List Char) :
    ∃ before after, text = before ++ (trim text ++ after) ∧ (∀ c ∈ before, isBlank c = true) ∧
      ∀ c ∈ after, isBlank c = true := by
  have hEnd : ∀ text : List Char,
      text = trimEnd text ++ (text.reverse.takeWhile isBlank).reverse := by
    intro text
    rw [trimEnd, ← List.reverse_append, List.takeWhile_append_dropWhile, List.reverse_reverse]
  refine ⟨text.takeWhile isBlank, ((text.dropWhile isBlank).reverse.takeWhile isBlank).reverse,
    ?_, fun c hMem => List.mem_takeWhile_imp hMem, fun c hMem => ?_⟩
  · rw [trim, ← hEnd, List.takeWhile_append_dropWhile]
  · exact List.mem_takeWhile_imp (List.mem_reverse.1 hMem)

/-- Whether a character may stand in the name of a type. -/
def isNameChar (c : Char) : Bool := !(c == '[' || c == ']' || isBlank c)

end Text

end Ancestry
