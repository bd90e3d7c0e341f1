import Ancestry.Primitive

/-!
The types whose ancestors are ordered. A type is a *node* of the parent graph: a declared class
or interface, a primitive kind, or an array of either. Arrays are flat, an element under a number
of dimensions, so an array never has an array as its element.
-/
namespace Ancestry

/-- The identity of a declared class or interface: its place in the catalog that declares it.
Two declarations of one name have different identities. -/
structure ClassId where
  index : Nat
deriving DecidableEq, Hashable

namespace ClassId

/-- The class at which every ancestry ends. -/
def object : ClassId := ⟨0⟩

/-- A marker interface of every array. -/
def serializable : ClassId := ⟨1⟩

/-- A marker interface of every array. -/
def cloneable : ClassId := ⟨2⟩

/-- The number of classes and interfaces that every catalog starts with. -/
def predeclaredCount : Nat := 3

/-- Whether the identity belongs to a type that every catalog starts with. -/
def isPredeclared (id : ClassId) : Bool := id.index < predeclaredCount

end ClassId

/-- A type that is not an array, hence a possible element of one. -/
inductive Element where
  | declared (id : ClassId)
  | primitive (kind : Primitive)
deriving DecidableEq, Hashable

namespace Element

/-- Classes and interfaces come before primitive kinds, those in the order of their identities,
these in the order of `Primitive.all`. -/
def compare : Element → Element → Ordering
  | declared first, declared second => Ord.compare first.index second.index
  | declared _, primitive _ => .lt
  | primitive _, declared _ => .gt
  | primitive first, primitive second => Ord.compare first.index second.index

end Element

/-- A type: an element under some array dimensions, at most 255 of them. Under none it is the
element itself. -/
structure Node where
  element : Element
  dims : Fin 256
deriving DecidableEq, Hashable

namespace Node

def ofClass (id : ClassId) : Node := ⟨.declared id, 0⟩

/-- The class at which every ancestry ends, as a node. -/
def object : Node := ofClass .object

def isArray (node : Node) : Bool := node.dims != 0

/-- The node as an element, unless it is an array. -/
def asElement? (node : Node) : Option Element :=
  if node.isArray then none else some node.element

/-- The class or interface that the node is, if it is one. -/
def asClass? (node : Node) : Option ClassId :=
  match node.asElement? with
  | some (.declared id) => some id
  | _ => none

/-- The element under exactly `dims` dimensions, if they are not too many. -/
def lift? (element : Element) (dims : Nat) : Option Node :=
  if h : dims < 256 then some ⟨element, ⟨dims, h⟩⟩ else none

/-- The array of the element with exactly `dims` dimensions; no array has none. -/
def array? (element : Element) (dims : Nat) : Option Node :=
  if dims = 0 then none else lift? element dims

/-- The node under `dims` more dimensions, if the sum is not too large. -/
def arrayOf? (node : Node) (dims : Nat) : Option Node :=
  lift? node.element (node.dims + dims)

/-- The node without its outer `dims` dimensions, or the element when it has no more than that. -/
def lowered (node : Node) (dims : Nat) : Node :=
  ⟨node.element, ⟨node.dims - dims, by omega⟩⟩

/-- Nodes that are no arrays come first, in the order of elements; arrays follow in the order of
elements and, for one element, of dimensions. -/
def compare (first second : Node) : Ordering :=
  (Ord.compare first.isArray second.isArray).then <|
    (first.element.compare second.element).then <|
      Ord.compare first.dims.val second.dims.val

def le (first second : Node) : Bool := (compare first second).isLE

def sort (nodes : List Node) : List Node := nodes.mergeSort le

/-- The nodes without those that occurred before. -/
def distinct (nodes : List Node) : List Node := nodes.eraseDups

end Node

end Ancestry
