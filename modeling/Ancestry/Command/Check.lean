import Ancestry.Cache
import Ancestry.Command.Transcript

/-!
The command `check`: linearizes every declared type and reports those that have no linearization.
All types share one cache, which spreads its keys over the shards as `shardOf` says.
-/
namespace Ancestry.Command

/-- The results for several nodes, one after the other, through one cache. -/
def resultsThroughCache (parents : Node → List Node) (limit : Nat) :
    OrderCache Node → List Node → List (Node × Except (Failure Node) (Linearization Node))
  | _, [] => []
  | cache, node :: rest =>
    let (result, cache) := OrderCache.getOrLinearize parents 0 limit node cache
    (node, result) :: resultsThroughCache parents limit cache rest

/-- The results when the types are linearized in the given order. -/
def resultsInOrder (shardOf : Nat × Node → Fin 16) (hierarchy : Hierarchy) (policy : Policy)
    (limit : Nat) (order : List ClassId) :
    List (Node × Except (Failure Node) (Linearization Node)) :=
  resultsThroughCache (policy.parents hierarchy.catalog.relations) limit
    (Cache.empty Cache.defaultCapacity shardOf) (order.map Node.ofClass)

/-- The result for each declared type, in the order of the file. -/
abbrev checkResults (shardOf : Nat × Node → Fin 16) (hierarchy : Hierarchy) (policy : Policy)
    (limit : Nat) : List (Node × Except (Failure Node) (Linearization Node)) :=
  resultsInOrder shardOf hierarchy policy limit hierarchy.declared

/-- Whether the failure of a node is a conflict of one of its ancestors. Such a failure is not
reported for the node, since it is for the ancestor. -/
def isInherited (node : Node) : Failure Node → Bool
  | .inconsistent conflict => conflict.node != node
  | .tooDeep _ _ _ _ => false

/-- The diagnostic of a result, if there is anything to report. -/
def resultDiagnostic? (hierarchy : Hierarchy) (node : Node) :
    Except (Failure Node) (Linearization Node) → Option Diagnostic
  | .ok _ => none
  | .error failure =>
    if isInherited node failure then none else some (hierarchy.failureDiagnostic node failure)

def isFailure (result : Except (Failure Node) (Linearization Node)) : Bool :=
  match result with
  | .ok _ => false
  | .error _ => true

/-- The verdict on the file at `path`. -/
def verdict (path : String) (failed total : Nat) (ok : Bool) : String :=
  if ok then "OK: " ++ path ++ " (" ++ toString total ++ " types linearized)\n"
  else path ++ ": " ++ toString failed ++ " of " ++ toString total ++ " types failed to linearize\n"

/-- Linearizes every type that the source declares. -/
def check (shardOf : Nat × Node → Fin 16) (isTerminal : Bool) (path source : String)
    (options : Options) : Transcript :=
  onHierarchy (options.reportStyle isTerminal path) source fun hierarchy =>
    let results := checkResults shardOf hierarchy options.policy options.maxDepth
    (results.filterMap fun (node, result) => resultDiagnostic? hierarchy node result,
      verdict path (results.countP fun (_, result) => isFailure result) results.length)

end Ancestry.Command
