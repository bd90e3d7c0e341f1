import Ancestry.Diagnostic.Failure
import Ancestry.Hierarchy

/-!
What is said about a type of a hierarchy file that has no linearization: the diagnostic of the
failure, pointing to the declarations involved.
-/
namespace Ancestry.Hierarchy

/-- The line that declares a node. Only classes and interfaces of the file have one. -/
def lineOfNode? (hierarchy : Hierarchy) (node : Node) : Option Nat :=
  node.asClass?.bind hierarchy.lineOf?

def writtenNode (hierarchy : Hierarchy) (node : Node) : String :=
  "`" ++ node.written hierarchy.catalog.className ++ "`"

/-- The labels for a failure to linearize `requested`: the declaration at fault first, then that
of the requested type if it is another. -/
def failureLabels (hierarchy : Hierarchy) (requested : Node) (failure : Failure Node) :
    List Label :=
  let culprit := failure.culprit
  let primary := (hierarchy.lineOfNode? culprit).map fun line =>
    (⟨line, hierarchy.writtenNode culprit ++ " declared here", true⟩ : Label)
  let secondary := if requested = culprit then none
    else (hierarchy.lineOfNode? requested).map fun line =>
      (⟨line, hierarchy.writtenNode requested ++ " requested here", false⟩ : Label)
  primary.toList ++ secondary.toList

def failureDiagnostic (hierarchy : Hierarchy) (requested : Node) (failure : Failure Node) :
    Diagnostic :=
  { failure.diagnostic hierarchy.catalog.className requested with
    labels := hierarchy.failureLabels requested failure }

end Ancestry.Hierarchy
