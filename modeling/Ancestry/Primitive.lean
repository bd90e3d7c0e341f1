/-!
The primitive kinds, their keywords, and the widening lattice between them.
-/
namespace Ancestry

/-- A primitive kind of value. `void` counts as one, although nothing widens to or from it. -/
inductive Primitive where
  | boolean
  | byte
  | char
  | short
  | int
  | long
  | float
  | double
  | void
deriving DecidableEq, Hashable

namespace Primitive

/-- Every kind, in the order in which kinds are compared. -/
def all : List Primitive :=
  [boolean, byte, char, short, int, long, float, double, void]

def index : Primitive → Nat
  | boolean => 0
  | byte => 1
  | char => 2
  | short => 3
  | int => 4
  | long => 5
  | float => 6
  | double => 7
  | void => 8

def keyword : Primitive → String
  | boolean => "boolean"
  | byte => "byte"
  | char => "char"
  | short => "short"
  | int => "int"
  | long => "long"
  | float => "float"
  | double => "double"
  | void => "void"

def ofKeyword? (word : String) : Option Primitive :=
  all.find? fun kind => kind.keyword == word

/-- The kinds that widen directly to this one, in order of precedence. They are its direct
parents, so that a walk towards the ancestors goes from wide kinds to narrow ones. -/
def narrower : Primitive → List Primitive
  | double => [float]
  | float => [long]
  | long => [int]
  | int => [short, char]
  | short => [byte]
  | char => [byte]
  | byte => []
  | boolean => []
  | void => []

theorem mem_all (kind : Primitive) : kind ∈ all := by
  cases kind <;> decide

theorem all_getElem?_index (kind : Primitive) : all[kind.index]? = some kind := by
  cases kind <;> rfl

theorem ofKeyword?_keyword (kind : Primitive) : ofKeyword? kind.keyword = some kind := by
  cases kind <;> decide

end Primitive

end Ancestry
