import Ancestry.Diagnostic.Code

/-!
Diagnostics: what is reported to the user, before it is written in some format.
-/
namespace Ancestry

inductive Severity where
  | error
  | warning
deriving DecidableEq

def Severity.text : Severity → String
  | error => "error"
  | warning => "warning"

/-- A remark about a line of the hierarchy file. -/
structure Label where
  /-- The number of the line; the first one is 1. -/
  line : Nat
  message : String
  /-- Whether the line is the one at fault; otherwise it gives context. -/
  isPrimary : Bool
deriving DecidableEq

/-- A problem with everything that is said about it. -/
structure Diagnostic where
  code : Diagnostic.Code
  severity : Severity
  message : String
  labels : List Label := []
  notes : List String := []
  suggestions : List String := []
deriving DecidableEq

namespace Diagnostic

def isError (diagnostic : Diagnostic) : Bool := diagnostic.severity == .error

/-- The first label of a line at fault. -/
def primaryLabel? (diagnostic : Diagnostic) : Option Label :=
  diagnostic.labels.find? (·.isPrimary)

def headline (diagnostic : Diagnostic) : String :=
  diagnostic.severity.text ++ "[" ++ diagnostic.code.text ++ "]: " ++ diagnostic.message

end Diagnostic

end Ancestry
