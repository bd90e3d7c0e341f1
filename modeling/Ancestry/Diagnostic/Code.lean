/-!
The codes of diagnostics. The third character of a code says what it is about: `0` linearizations,
`1` hierarchy files.
-/
namespace Ancestry.Diagnostic

inductive Code where
  /-- No order satisfies every declaration. -/
  | inconsistent
  /-- A chain of ancestors is too long. -/
  | tooDeep
  /-- A line is no declaration, or a text is no type. -/
  | badSyntax
  /-- A name belongs to no type. -/
  | unknownType
  /-- A type is declared twice. -/
  | duplicate
  /-- A parent is a class where an interface is required, or the reverse. -/
  | wrongKind
  /-- A parent is listed twice. -/
  | repeatedParent
deriving DecidableEq

namespace Code

def all : List Code :=
  [inconsistent, tooDeep, badSyntax, unknownType, duplicate, wrongKind, repeatedParent]

/-- The text of a code: `E` for an error or `W` for a warning, and four digits. -/
def text : Code → String
  | inconsistent => "E0001"
  | tooDeep => "E0002"
  | badSyntax => "E0101"
  | unknownType => "E0102"
  | duplicate => "E0103"
  | wrongKind => "E0104"
  | repeatedParent => "W0101"

/-- The code that a text denotes, in letters of either case. Only the letters of ASCII have `E` or
`W` as their capital forms, so no others matter. -/
def ofText? (word : String) : Option Code := all.find? fun code => code.text == word.toUpper

/-- Whether the code is about the linearization of a type. -/
def isAboutOrder : Code → Bool
  | inconsistent | tooDeep => true
  | _ => false

/-- Whether the code is about an error in a hierarchy file. -/
def isAboutFile : Code → Bool
  | badSyntax | unknownType | duplicate | wrongKind => true
  | _ => false

def isWarning : Code → Bool
  | repeatedParent => true
  | _ => false

end Code

end Ancestry.Diagnostic
