import Ancestry.Catalog
import Ancestry.Text.Split

/-!
The written form of a node: the name of its element, then a pair of brackets for each dimension.
It is written with the names of declared types and read back with a catalog.
-/
namespace Ancestry

namespace Element

/-- The name of an element, given the names of declared types. -/
def written (names : ClassId → String) : Element → String
  | declared id => names id
  | primitive kind => kind.keyword

end Element

namespace Node

/-- The written form of a node, given the names of declared types. -/
def written (names : ClassId → String) (node : Node) : String :=
  node.element.written names ++ String.join (List.replicate node.dims "[]")

/-- The written forms of several nodes, each in backticks. -/
def writtenList (names : ClassId → String) (nodes : List Node) : String :=
  ", ".intercalate (nodes.map fun node => "`" ++ node.written names ++ "`")

/-- Why a text is not the written form of a node. -/
inductive ReadError where
  /-- It is not a name with pairs of brackets behind it. -/
  | malformed (text : String)
  /-- It names no type. -/
  | unknown (name : String)
  /-- It has more dimensions than a node can have. -/
  | tooManyDims (text : String)
deriving DecidableEq

/-- The text without the pairs of brackets at its end and the blanks before each of them, beside
the number of these pairs. The text is given from right to left. -/
def peel : List Char → List Char × Nat
  | ']' :: '[' :: rest =>
    let (name, dims) := peel (rest.dropWhile Text.isBlank)
    (name, dims + 1)
  | text => (text, 0)
termination_by text => text.length
decreasing_by
  have h := (List.dropWhile_suffix Text.isBlank (l := rest)).length_le
  simp only [List.length_cons]
  omega

/-- The element that a name denotes. The keywords of primitive kinds come before declared names. -/
def elementNamed? (catalog : Catalog) (name : String) : Option Element :=
  match Primitive.ofKeyword? name with
  | some kind => some (.primitive kind)
  | none => (catalog.lookup? name).map .declared

/-- The node that a text denotes. Blanks around the text and before each pair of brackets do not
count. -/
def read (catalog : Catalog) (text : String) : Except ReadError Node :=
  let trimmed := Text.trim text.toList
  let (reversedName, dims) := peel trimmed.reverse
  let name := String.ofList reversedName.reverse
  if reversedName.isEmpty || reversedName.any (fun c => c == '[' || c == ']' || Text.isBlank c) then
    .error (.malformed (String.ofList trimmed))
  else match elementNamed? catalog name with
    | none => .error (.unknown name)
    | some element => match lift? element dims with
      | none => .error (.tooManyDims (String.ofList trimmed))
      | some node => .ok node

end Node

end Ancestry
