import Ancestry.Text.Character

/-!
Texts without the blanks around them, split into lines, and lines split into words.
-/
namespace Ancestry.Text

/-- The text without blanks at its end. -/
def trimEnd (text : List Char) : List Char := (text.reverse.dropWhile isBlank).reverse

/-- The text without blanks at either end. -/
def trim (text : List Char) : List Char := trimEnd (text.dropWhile isBlank)

/-- The lines of a text, without their ends. A line ends with a line break, which a carriage return
may precede; the last line may go on to the end of the text instead. -/
def lines (text : List Char) : List (List Char) := (text.foldr addChar (false, [])).2
where
  /-- Puts a character in front of a text. It is given whether that text begins with a line break,
  and what its lines are. -/
  addChar (c : Char) : Bool × List (List Char) → Bool × List (List Char)
    | (beforeBreak, lines) =>
      if c = '\n' then (true, [] :: lines)
      else if c = '\r' && beforeBreak then (false, lines)
      else match lines with
        | [] => (false, [[c]])
        | first :: rest => (false, (c :: first) :: rest)

/-- A word in front of others, unless it is empty. -/
def consWord (word : List Char) (words : List (List Char)) : List (List Char) :=
  if word.isEmpty then words else word :: words

/-- The words of a text. Blanks separate them, and each comma is a word of its own. -/
def words (text : List Char) : List (List Char) :=
  match text.foldr addChar ([], []) with
  | (first, rest) => consWord first rest
where
  /-- Puts a character in front of a text. Of that text, the word at its very start is given, which
  may be empty, and the words behind it. -/
  addChar (c : Char) : List Char × List (List Char) → List Char × List (List Char)
    | (first, rest) =>
      if isBlank c then ([], consWord first rest)
      else if c = ',' then ([], [','] :: consWord first rest)
      else (c :: first, rest)

end Ancestry.Text
