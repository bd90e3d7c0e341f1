import Ancestry.Catalog

/-!
The policies that turn the declared relations of a type into its ordered list of direct parents.
Some types have a role of their own: one ends every ancestry, and two mark arrays.
-/
namespace Ancestry

/-- The declared relations, and the types with a role of their own. -/
structure Relations where
  superclass? : ClassId → Option ClassId
  interfaces : ClassId → List ClassId
  isInterface : ClassId → Bool
  /-- The class at which an ancestry ends. -/
  root : ClassId := .object
  /-- The first marker interface of arrays. -/
  serializable : ClassId := .serializable
  /-- The second marker interface of arrays. -/
  cloneable : ClassId := .cloneable

/-- The relations of a catalog, whose predeclared types have the three roles. -/
def Catalog.relations (catalog : Catalog) : Relations where
  superclass? := catalog.superclass?
  interfaces := catalog.interfaces
  isInterface := catalog.isInterface

/-- How superclass and interfaces are ordered among the direct parents of a declared type. -/
inductive Policy where
  /-- The superclass, then the interfaces, but a superclass that is the root goes last. -/
  | superclassFirst
  /-- The interfaces, then the superclass. -/
  | interfacesFirst
  /-- The interfaces alone. The root stands in for them where a class has none. -/
  | interfacesOnly
deriving DecidableEq, Hashable

namespace Policy

def all : List Policy := [superclassFirst, interfacesFirst, interfacesOnly]

def name : Policy → String
  | superclassFirst => "superclass-first"
  | interfacesFirst => "interfaces-first"
  | interfacesOnly => "interfaces-only"

def ofName? (word : String) : Option Policy := all.find? fun policy => policy.name == word

theorem ofName?_name (policy : Policy) : ofName? policy.name = some policy := by
  cases policy <;> decide

/-- The parents of a type without a superclass: its interfaces, or the root if it has none. -/
def interfacesOrRoot (interfaces : List ClassId) (root : ClassId) : List ClassId :=
  if interfaces.isEmpty then [root] else interfaces

/-- The direct parents of a declared type. The root has none. -/
def classParents (policy : Policy) (relations : Relations) (id : ClassId) : List ClassId :=
  let root := relations.root
  let interfaces := relations.interfaces id
  if id = root then []
  else match policy with
    | superclassFirst => match relations.superclass? id with
      | some superclass =>
        if superclass = root then interfaces ++ [root] else superclass :: interfaces
      | none => interfacesOrRoot interfaces root
    | interfacesFirst => match relations.superclass? id with
      | some superclass => interfaces ++ [superclass]
      | none => interfacesOrRoot interfaces root
    | interfacesOnly =>
      if relations.isInterface id then interfaces else interfacesOrRoot interfaces root

/-- The direct parents of a type that is not an array. Primitive kinds follow the widening
lattice under every policy. -/
def elementParents (policy : Policy) (relations : Relations) : Element → List Element
  | .declared id => (policy.classParents relations id).map .declared
  | .primitive kind => kind.narrower.map .primitive

def isInterfaceElement (relations : Relations) : Element → Bool
  | .declared id => relations.isInterface id
  | .primitive _ => false

/-- The parents of an array whose element has no parents of its own: the two marker interfaces
and the root, under one dimension less. -/
def arrayLeaves (relations : Relations) (dims : Fin 256) : List Node :=
  [relations.serializable, relations.cloneable, relations.root].map fun id =>
    ⟨.declared id, ⟨dims - 1, by omega⟩⟩

/-- The direct parents of a node. Those of an array are the parents of its element under the same
dimensions; an element without parents leads to `arrayLeaves` unless it is an interface. -/
def parents (policy : Policy) (relations : Relations) (node : Node) : List Node :=
  let lifted := (policy.elementParents relations node.element).map fun parent =>
    (⟨parent, node.dims⟩ : Node)
  if node.isArray && lifted.isEmpty && !isInterfaceElement relations node.element then
    arrayLeaves relations node.dims
  else lifted

end Policy

end Ancestry
