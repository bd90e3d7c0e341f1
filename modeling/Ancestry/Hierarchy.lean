import Ancestry.Hierarchy.Error

/-!
Hierarchy files. Each line declares at most one type, and a declaration may name types declared
later. A file is loaded in two passes, the first for the names and the second for the parents, and
every problem found on the way is reported.
-/
namespace Ancestry

section

variable {ε α : Type}

/-- The errors of the computations that failed. -/
def failures (results : List (Except ε α)) : List ε :=
  results.filterMap fun
    | .error error => some error
    | .ok _ => none

/-- The values of the computations that did not fail. -/
def successes (results : List (Except ε α)) : List α :=
  results.filterMap fun
    | .error _ => none
    | .ok value => some value

end

structure Hierarchy where
  catalog : Catalog
  /-- The lines of the declared types, in the order of their identities. -/
  lines : Array Nat
  warnings : List Hierarchy.Warning

namespace Hierarchy

/-- The types declared in the file, in its order. -/
def declared (hierarchy : Hierarchy) : List ClassId := hierarchy.catalog.userIds

/-- The line of the type with the given identity, where the lines of the declared types are given.
The predeclared types have none. -/
def lineIn? (lines : Array Nat) (id : ClassId) : Option Nat :=
  if id.isPredeclared then none else lines[id.index - ClassId.predeclaredCount]?

def lineOf? (hierarchy : Hierarchy) (id : ClassId) : Option Nat := lineIn? hierarchy.lines id

/-- The names that the declarations have given so far, and the declarations refused because their
names were given before. -/
structure Names where
  catalog : Catalog
  lines : Array Nat
  /-- The declarations with a name of their own, in the order of the file. -/
  accepted : Array (ClassId × Declaration)
  errors : Array Error

namespace Names

def initial : Names := ⟨Catalog.initial, #[], #[], #[]⟩

/-- Gives one more declaration its name. -/
def add (names : Names) (declaration : Declaration) : Names :=
  match names.catalog.lookup? declaration.name with
  | some earlier =>
    let error : Error :=
      .duplicate declaration.line declaration.name (lineIn? names.lines earlier)
    { names with errors := names.errors.push error }
  | none =>
    let (catalog, id) := names.catalog.declare declaration.kind declaration.name
    ⟨catalog, names.lines.push declaration.line, names.accepted.push (id, declaration),
      names.errors⟩

end Names

/-- The type that a name denotes where a parent of the given kind is expected. -/
def resolveName (catalog : Catalog) (line : Nat) (expected : Kind) (name : String) :
    Except Error ClassId :=
  match catalog.lookup? name with
  | none => .error (.unknownType line name)
  | some id =>
    if catalog.kind? id = some expected then .ok id
    else .error (.wrongKind line name expected)

/-- The parents of a declared type, and the repetitions among them. -/
structure Parents where
  superclass : Option ClassId
  interfaces : List ClassId
  warnings : List Warning

/-- The interfaces that the names of a declaration denote, without those `seen` before, and a
warning for each name that is left out. -/
def resolveInterfaces (catalog : Catalog) (declaration : Declaration) (seen : List ClassId) :
    List String → Except Error (List ClassId × List Warning)
  | [] => .ok ([], [])
  | name :: rest => do
    let id ← resolveName catalog declaration.line .interfaceType name
    if id ∈ seen then
      let (interfaces, warnings) ← resolveInterfaces catalog declaration seen rest
      return (interfaces, ⟨declaration.line, declaration.name, name⟩ :: warnings)
    else
      let (interfaces, warnings) ← resolveInterfaces catalog declaration (id :: seen) rest
      return (id :: interfaces, warnings)

/-- The superclass that a declaration names, if it names one. -/
def resolveSuperclass (catalog : Catalog) (declaration : Declaration) :
    Except Error (Option ClassId) :=
  match declaration.superclass with
  | none => .ok none
  | some name => some <$> resolveName catalog declaration.line .classType name

/-- The parents that a declaration names: first the superclass, then the interfaces. -/
def resolveParents (catalog : Catalog) (declaration : Declaration) : Except Error Parents := do
  let superclass ← resolveSuperclass catalog declaration
  let (interfaces, warnings) ← resolveInterfaces catalog declaration [] declaration.interfaces
  return ⟨superclass, interfaces, warnings⟩

/-- Gives a declared type its parents. A class that names no superclass keeps the one it has. -/
def setParents (catalog : Catalog) (id : ClassId) (parents : Parents) : Catalog :=
  let catalog := match parents.superclass with
    | none => catalog
    | some superclass => catalog.setSuperclass id (some superclass)
  catalog.setInterfaces id parents.interfaces

/-- The number of the line at a position. Numbers stop at the largest of 32 bits. -/
def lineNumber (position : Nat) : Nat := min (position + 1) 4294967295

/-- What each line of a source declares. -/
def readSource (source : String) : List (Except Error (Option Declaration)) :=
  (Text.lines source.toList).zipIdx.map fun (text, position) =>
    (Declaration.readLine (lineNumber position) text).mapError
      (Error.badLine (lineNumber position))

/-- The hierarchy that a source describes, or all that is wrong with it, in the order of lines. -/
def load (source : String) : Except (List Error) Hierarchy :=
  let results := readSource source
  let declarations := (successes results).filterMap id
  let names := declarations.foldl Names.add Names.initial
  let accepted := names.accepted.toList
  let resolved := accepted.map fun (_, declaration) => resolveParents names.catalog declaration
  let errors := failures results ++ names.errors.toList ++ failures resolved
  if errors.isEmpty then
    let parents := successes resolved
    let catalog := ((accepted.map (·.1)).zip parents).foldl
      (fun catalog (id, parents) => setParents catalog id parents) names.catalog
    .ok ⟨catalog, names.lines, parents.flatMap (·.warnings)⟩
  else .error (errors.mergeSort fun first second => first.line ≤ second.line)

end Hierarchy

end Ancestry
