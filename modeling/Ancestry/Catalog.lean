import Std.Data.HashMap
import Ancestry.Node

/-!
The catalog of declared classes and interfaces. It is built in two phases, first the declarations
and then the relations between them, so that a relation may name a type declared later.
-/
namespace Ancestry

inductive Kind where
  | classType
  | interfaceType
deriving DecidableEq, Hashable

/-- A declaration with its relations. -/
structure Entry where
  name : String
  kind : Kind
  superclass : Option ClassId
  interfaces : List ClassId
deriving DecidableEq

/-- The declarations, each at the place that its identity names, beside an index from each name
to the identities declared under it, oldest first. -/
structure Catalog where
  entries : Array Entry
  byName : Std.HashMap String (List ClassId)

namespace Catalog

/-- The name that is shown for an identity without a declaration. -/
def unknownName : String := "<unknown>"

def size (catalog : Catalog) : Nat := catalog.entries.size

def entry? (catalog : Catalog) (id : ClassId) : Option Entry := catalog.entries[id.index]?

/-- Every declaration of a name, oldest first. -/
def lookupAll (catalog : Catalog) (name : String) : List ClassId :=
  catalog.byName.getD name []

def lookup? (catalog : Catalog) (name : String) : Option ClassId :=
  (catalog.lookupAll name).head?

def kind? (catalog : Catalog) (id : ClassId) : Option Kind :=
  (catalog.entry? id).map (·.kind)

def contains (catalog : Catalog) (id : ClassId) : Bool := id.index < catalog.size

/-- The declared superclass; the root and the interfaces have none. -/
def superclass? (catalog : Catalog) (id : ClassId) : Option ClassId :=
  (catalog.entry? id).bind (·.superclass)

/-- The interfaces declared for a type, in their order. -/
def interfaces (catalog : Catalog) (id : ClassId) : List ClassId :=
  match catalog.entry? id with
  | some entry => entry.interfaces
  | none => []

def isInterface (catalog : Catalog) (id : ClassId) : Bool :=
  catalog.kind? id == some .interfaceType

def className (catalog : Catalog) (id : ClassId) : String :=
  match catalog.entry? id with
  | some entry => entry.name
  | none => unknownName

/-- The identities of all declarations, in the order in which they were made. -/
def ids (catalog : Catalog) : List ClassId := (List.range catalog.size).map ClassId.mk

/-- The identities of the declarations after the predeclared ones. -/
def userIds (catalog : Catalog) : List ClassId :=
  catalog.ids.filter fun id => !id.isPredeclared

/-- Adds a declaration. Its identity is the next free one, whatever its name. -/
def add (catalog : Catalog) (entry : Entry) : Catalog × ClassId :=
  let id : ClassId := ⟨catalog.size⟩
  (⟨catalog.entries.push entry,
    catalog.byName.insert entry.name (catalog.lookupAll entry.name ++ [id])⟩, id)

/-- Declares a class. It extends `ClassId.object` until another superclass is set. -/
def declareClass (catalog : Catalog) (name : String) : Catalog × ClassId :=
  catalog.add ⟨name, .classType, some .object, []⟩

def declareInterface (catalog : Catalog) (name : String) : Catalog × ClassId :=
  catalog.add ⟨name, .interfaceType, none, []⟩

def declare (catalog : Catalog) (kind : Kind) (name : String) : Catalog × ClassId :=
  match kind with
  | .classType => catalog.declareClass name
  | .interfaceType => catalog.declareInterface name

/-- Sets or clears the superclass of a class. An interface has none and keeps none; an identity
without a declaration is left alone. -/
def setSuperclass (catalog : Catalog) (id : ClassId) (superclass : Option ClassId) : Catalog :=
  ⟨catalog.entries.modify id.index fun entry =>
    match entry.kind with
    | .classType => { entry with superclass }
    | .interfaceType => entry, catalog.byName⟩

def setInterfaces (catalog : Catalog) (id : ClassId) (interfaces : List ClassId) : Catalog :=
  ⟨catalog.entries.modify id.index fun entry => { entry with interfaces }, catalog.byName⟩

/-- The catalog that holds the predeclared types only. -/
def initial : Catalog :=
  let empty : Catalog := ⟨#[], ∅⟩
  let (withObject, _) := empty.add ⟨"Object", .classType, none, []⟩
  let (withSerializable, _) := withObject.declareInterface "Serializable"
  (withSerializable.declareInterface "Cloneable").1

end Catalog

end Ancestry
