import Ancestry.Diagnostic.Basic
import Ancestry.Linearization
import Ancestry.Node.Spelled
import Ancestry.Node.Written

/-!
What is said about a text that denotes no node, and about a node that has no linearization: a
message without names, and a diagnostic in which nodes have the names of a catalog.
-/
namespace Ancestry

namespace Node.ReadError

def message : ReadError → String
  | malformed text => "malformed type expression `" ++ text ++ "`"
  | unknown name => "unknown type `" ++ name ++ "`"
  | tooManyDims text => "`" ++ text ++ "` has more than 255 array dimensions"

def code : ReadError → Diagnostic.Code
  | malformed _ => .badSyntax
  | unknown _ => .unknownType
  | tooManyDims _ => .badSyntax

def notes : ReadError → List String
  | malformed text =>
    ["`" ++ text ++ "` should be a type name followed by zero or more `[]`"]
  | unknown _ =>
    ["name a type declared in the hierarchy file, a predeclared type, or a primitive keyword"]
  | tooManyDims _ => []

def diagnostic (error : ReadError) : Diagnostic where
  code := error.code
  severity := .error
  message := error.message
  notes := error.notes

end Node.ReadError

/-- The failure in one sentence, with its nodes spelled out. -/
def Failure.message : Failure Node → String
  | inconsistent conflict =>
    "inconsistent precedence while linearizing " ++ conflict.node.spelled ++
      ": no valid successor after " ++ Node.spelledList conflict.placed
  | tooDeep requested node limit _ =>
    "ancestor chain of " ++ requested.spelled ++ " exceeds " ++ toString limit ++
      " levels at " ++ node.spelled ++ "; the parent relation may be cyclic"

namespace Conflict

/-- What is left of the order of each parent, where anything is left. -/
def parentNotes (names : ClassId → String) (conflict : Conflict Node) : List String :=
  (conflict.parents.zip conflict.remaining.dropLast).filterMap fun (parent, input) =>
    if input.isEmpty then none
    else some ("still to place from `" ++ parent.written names ++ "`: [" ++
      Node.writtenList names input ++ "]")

/-- What is left of the order in which the parents are declared, if anything is left. -/
def declaredNotes (names : ClassId → String) (conflict : Conflict Node) : List String :=
  match conflict.remaining.getLast? with
  | none => []
  | some declared =>
    if declared.isEmpty then []
    else ["still to place from the declared parents: [" ++ Node.writtenList names declared ++ "]"]

/-- The nodes that keep each other from coming next, if there are two or more. -/
def conflictNotes (names : ClassId → String) (conflict : Conflict Node) : List String :=
  if conflict.conflicting.length ≤ 1 then []
  else ["no order satisfies every declaration among " ++
    Node.writtenList names conflict.conflicting]

/-- The notes on a conflict met while the linearization of `requested` was asked for. -/
def notes (names : ClassId → String) (requested : Node) (conflict : Conflict Node) :
    List String :=
  (if conflict.node = requested then []
    else ["`" ++ conflict.node.written names ++ "` is an ancestor of `" ++
      requested.written names ++ "`"]) ++
  ["order so far: [" ++ Node.writtenList names conflict.placed ++ "]"] ++
  conflict.parentNotes names ++ conflict.declaredNotes names ++ conflict.conflictNotes names

/-- The diagnostic of a conflict met while the linearization of `requested` was asked for. -/
def diagnostic (names : ClassId → String) (requested : Node) (conflict : Conflict Node) :
    Diagnostic where
  code := .inconsistent
  severity := .error
  message := "inconsistent precedence while linearizing `" ++ conflict.node.written names ++ "`"
  notes := conflict.notes names requested
  suggestions := ["reorder the direct parents of `" ++ conflict.node.written names ++
    "` to agree with its ancestors, or drop a redundant parent"]

end Conflict

def longestChainShown : Nat := 8

/-- A chain of ancestors. A long one is shown by its ends, half of what may be shown at each. -/
def writtenChain (names : ClassId → String) (chain : List Node) : String :=
  if chain.length ≤ longestChainShown then Node.writtenList names chain
  else
    let half := longestChainShown / 2
    Node.writtenList names (chain.take half) ++ ", ..., " ++
      Node.writtenList names (chain.drop (chain.length - half))

namespace Failure

def tooDeepDiagnostic (names : ClassId → String) (requested node : Node) (limit : Nat)
    (chain : List Node) : Diagnostic where
  code := .tooDeep
  severity := .error
  message := "ancestor chain of `" ++ requested.written names ++ "` exceeds " ++
    toString limit ++ " levels"
  notes := ["reached `" ++ node.written names ++ "` through [" ++ writtenChain names chain ++ "]"]
  suggestions := ["check the parents of `" ++ node.written names ++
    "` for a cycle, or raise the depth limit"]

/-- The diagnostic of a failure to linearize `requested`. -/
def diagnostic (names : ClassId → String) (requested : Node) : Failure Node → Diagnostic
  | inconsistent conflict => conflict.diagnostic names requested
  | tooDeep first node limit chain => tooDeepDiagnostic names first node limit chain

/-- The node to which a failure points. -/
def culprit {α : Type} : Failure α → α
  | inconsistent conflict => conflict.node
  | tooDeep _ node _ _ => node

end Failure

end Ancestry
