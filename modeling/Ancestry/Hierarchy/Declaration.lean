import Ancestry.Catalog
import Ancestry.Text.Split

/-!
The lines of a hierarchy file. A line declares an interface or a class,

    interface NAME [extends NAME (, NAME)*]
    class NAME [extends NAME] [implements NAME (, NAME)*]

or nothing at all. A comment reaches from `#` to the end of the line.
-/
namespace Ancestry

/-- A declaration, whose parents are known by their names only. -/
structure Declaration where
  line : Nat
  kind : Kind
  name : String
  /-- The class that a class extends, if the line says so. -/
  superclass : Option String
  /-- The interfaces that a class implements or an interface extends. -/
  interfaces : List String
deriving DecidableEq

/-- Why a line is neither a declaration nor empty. -/
inductive LineError where
  /-- It starts with another word than a declaration. -/
  | noDeclaration (found : String)
  /-- It ends where a name should be. -/
  | nameMissing
  /-- It has the keyword of a primitive kind where a name should be. -/
  | primitiveName (found : String)
  /-- It has something else where a name should be. -/
  | noName (found : String)
  /-- It declares an interface with the clause of a class. -/
  | interfaceImplements
  /-- It has a class extend more than one class. -/
  | severalSuperclasses
  /-- It has the clauses of a class in the wrong order or one of them twice. -/
  | misplacedExtends
  /-- It goes on behind the declaration. -/
  | unexpected (found : String)
deriving DecidableEq

def LineError.message : LineError → String
  | noDeclaration found => "expected `class` or `interface`, found `" ++ found ++ "`"
  | nameMissing => "expected a type name at end of line"
  | primitiveName found => "`" ++ found ++ "` is a primitive type, not a class or interface"
  | noName found => "expected a type name, found `" ++ found ++ "`"
  | interfaceImplements => "interfaces use `extends` for their parents, not `implements`"
  | severalSuperclasses => "a class extends at most one class"
  | misplacedExtends => "`extends` must come before `implements`"
  | unexpected found => "unexpected `" ++ found ++ "`"

namespace Declaration

/-- The words that cannot be names because they structure declarations. -/
def keywords : List String := ["class", "interface", "extends", "implements"]

def startsName (c : Char) : Bool := Text.isLetter c || c == '_' || c == '$'

def continuesName (c : Char) : Bool :=
  Text.isLetter c || Text.isNumeral c || c == '_' || c == '$' || c == '.'

def isIdentifier (word : String) : Bool :=
  match word.toList with
  | [] => false
  | first :: rest => startsName first && rest.all continuesName

/-- The word as the name of a type. -/
def checkName (word : String) : Except LineError String :=
  if (Primitive.ofKeyword? word).isSome then .error (.primitiveName word)
  else if keywords.contains word || !isIdentifier word then .error (.noName word)
  else .ok word

/-- The name at the start of the words, and the words behind it. -/
def readName : List String → Except LineError (String × List String)
  | [] => .error .nameMissing
  | word :: rest => do
    let name ← checkName word
    return (name, rest)

/-- The names at the start of the words, with commas between them, and the words behind them. -/
def readNames : List String → Except LineError (List String × List String)
  | [] => .error .nameMissing
  | word :: "," :: rest => do
    let name ← checkName word
    let (names, rest) ← readNames rest
    return (name :: names, rest)
  | word :: rest => do
    let name ← checkName word
    return ([name], rest)

/-- The names behind the given keyword if the words start with it, and the words behind them. -/
def readClause (keyword : String) (words : List String) :
    Except LineError (List String × List String) :=
  match words with
  | [] => .ok ([], [])
  | word :: rest => if word = keyword then readNames rest else .ok ([], word :: rest)

/-- The name behind `extends` in the declaration of a class, if the words start with it, and the
words behind it. -/
def readSuperclass (words : List String) : Except LineError (Option String × List String) :=
  match words with
  | "extends" :: rest => do
    let (name, rest) ← readName rest
    if rest.head? = some "," then .error .severalSuperclasses
    else return (some name, rest)
  | words => .ok (none, words)

/-- The declaration of an interface, from the words behind `interface`. -/
def readInterface (line : Nat) (words : List String) : Except LineError Declaration := do
  let (name, rest) ← readName words
  let (interfaces, rest) ← readClause "extends" rest
  match rest with
  | [] => return ⟨line, .interfaceType, name, none, interfaces⟩
  | "implements" :: _ => .error .interfaceImplements
  | word :: _ => .error (.unexpected word)

/-- The declaration of a class, from the words behind `class`. -/
def readClass (line : Nat) (words : List String) : Except LineError Declaration := do
  let (name, rest) ← readName words
  let (superclass, rest) ← readSuperclass rest
  let (interfaces, rest) ← readClause "implements" rest
  match rest with
  | [] => return ⟨line, .classType, name, superclass, interfaces⟩
  | "extends" :: _ => .error .misplacedExtends
  | word :: _ => .error (.unexpected word)

/-- The declaration that a line of words makes, if it makes any. -/
def readWords (line : Nat) : List String → Except LineError (Option Declaration)
  | [] => .ok none
  | "interface" :: rest => some <$> readInterface line rest
  | "class" :: rest => some <$> readClass line rest
  | word :: _ => .error (.noDeclaration word)

/-- The words of a line up to its comment. -/
def wordsOfLine (text : List Char) : List String :=
  (Text.words (text.takeWhile (· != '#'))).map String.ofList

/-- The declaration that a line makes, if it makes any. -/
def readLine (line : Nat) (text : List Char) : Except LineError (Option Declaration) :=
  readWords line (wordsOfLine text)

end Declaration

end Ancestry
