import Ancestry.Command.Transcript

/-!
The command `linearize`: prints the linearization of each requested type.
-/
namespace Ancestry.Command

/-- The answer to a request for the type that a text denotes, where `memo` holds what earlier
requests found out. -/
def answer (hierarchy : Hierarchy) (setting : Walk.Setting Unit Node) (memo : Memo Node)
    (text : String) : Except Diagnostic (Node × Linearization Node) × Memo Node :=
  match Node.read hierarchy.catalog text with
  | .error error => (.error error.diagnostic, memo)
  | .ok node =>
    let outcome := setting.linearize node memo ()
    match outcome.result with
    | .ok order => (.ok (node, order), outcome.memo)
    | .error failure => (.error (hierarchy.failureDiagnostic node failure), outcome.memo)

/-- The answers to several requests, one after the other. -/
def answers (hierarchy : Hierarchy) (setting : Walk.Setting Unit Node) :
    Memo Node → List String → List (Except Diagnostic (Node × Linearization Node))
  | _, [] => []
  | memo, text :: rest =>
    let (first, memo) := answer hierarchy setting memo text
    first :: answers hierarchy setting memo rest

def orderNames (catalog : Catalog) (order : Linearization Node) : List String :=
  order.toList.map (Node.written catalog.className)

/-- A line with the name of a node and its order. -/
def textLine (catalog : Catalog) (node : Node) (order : Linearization Node) : String :=
  node.written catalog.className ++ ": " ++ ", ".intercalate (orderNames catalog order) ++ "\n"

/-- An object with the name of a node and its order. The names of loaded types need no escapes. -/
def jsonObject (catalog : Catalog) (node : Node) (order : Linearization Node) : String :=
  "  \x7b\"type\": \"" ++ node.written catalog.className ++ "\", \"linearization\": [" ++
    ", ".intercalate ((orderNames catalog order).map fun name => "\"" ++ name ++ "\"") ++ "]\x7d"

def ordersText (catalog : Catalog) (orders : List (Node × Linearization Node)) :
    Format → String
  | .text => String.join (orders.map fun (node, order) => textLine catalog node order)
  | .json => "[\n" ++
    Diagnostic.jsonLines (orders.map fun (node, order) => jsonObject catalog node order) ++ "]\n"

/-- The parents and the limit that the options choose for a hierarchy. -/
def Options.setting (options : Options) (hierarchy : Hierarchy) : Walk.Setting Unit Node :=
  ⟨options.policy.parents hierarchy.catalog.relations, options.maxDepth, Store.absent Node⟩

/-- Linearizes each of the requested types. A failure does not stop the others. -/
def linearize (isTerminal : Bool) (path source : String) (requests : List String)
    (options : Options) : Transcript :=
  onHierarchy (options.reportStyle isTerminal path) source fun hierarchy =>
    let answers := answers hierarchy (options.setting hierarchy) ∅ requests
    (failures answers,
      fun _ => ordersText hierarchy.catalog (successes answers) options.format)

end Ancestry.Command
