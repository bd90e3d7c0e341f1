import Ancestry.Diagnostic.Basic
import Ancestry.Hierarchy.Declaration

/-!
What can be wrong with a hierarchy file, and what is said about it.
-/
namespace Ancestry.Hierarchy

/-- A problem because of which a file is refused. Every one belongs to a line. -/
inductive Error where
  /-- The line is not a declaration. -/
  | badLine (line : Nat) (cause : LineError)
  /-- A parent is not declared. -/
  | unknownType (line : Nat) (name : String)
  /-- The name is declared in an earlier line, or else predeclared. -/
  | duplicate (line : Nat) (name : String) (earlier : Option Nat)
  /-- A parent is not of the kind that its place requires. -/
  | wrongKind (line : Nat) (name : String) (expected : Kind)
deriving DecidableEq

/-- A parent that is listed again in one declaration. The repetition is dropped. -/
structure Warning where
  line : Nat
  owner : String
  parent : String
deriving DecidableEq

def kindPhrase : Kind → String
  | .classType => "a class"
  | .interfaceType => "an interface"

/-- The keyword behind which a class names parents of a kind. -/
def clauseKeyword : Kind → String
  | .classType => "extends"
  | .interfaceType => "implements"

namespace Error

def line : Error → Nat
  | badLine line _ => line
  | unknownType line _ => line
  | duplicate line _ _ => line
  | wrongKind line _ _ => line

def code : Error → Diagnostic.Code
  | badLine _ _ => .badSyntax
  | unknownType _ _ => .unknownType
  | duplicate _ _ _ => .duplicate
  | wrongKind _ _ _ => .wrongKind

def summary : Error → String
  | badLine _ cause => cause.message
  | unknownType _ name => "unknown type `" ++ name ++ "`"
  | duplicate _ name _ => "`" ++ name ++ "` is already declared"
  | wrongKind _ name expected => "`" ++ name ++ "` is not " ++ kindPhrase expected

/-- The problem in a few words behind the number of its line. -/
def message (error : Error) : String :=
  "line " ++ toString error.line ++ ": " ++ error.summary

def diagnostic (error : Error) : Diagnostic :=
  match error with
  | badLine line cause =>
    { code := error.code, severity := .error, message := cause.message
      labels := [⟨line, "in this declaration", true⟩] }
  | unknownType line name =>
    { code := error.code, severity := .error, message := "unknown type `" ++ name ++ "`"
      labels := [⟨line, "`" ++ name ++ "` is not declared in this file", true⟩] }
  | duplicate line name earlier =>
    { code := error.code, severity := .error
      message := "`" ++ name ++ "` is declared more than once"
      labels := ⟨line, "declared again here", true⟩ ::
        earlier.toList.map fun earlierLine => ⟨earlierLine, "first declared here", false⟩
      notes := if earlier.isNone then ["`" ++ name ++ "` is predeclared"] else [] }
  | wrongKind line name expected =>
    { code := error.code, severity := .error
      message := "`" ++ name ++ "` is not " ++ kindPhrase expected
      labels := [⟨line, "used as a parent here", true⟩]
      suggestions := ["a class `extends` one class and `implements` interfaces; check the `" ++
        clauseKeyword expected ++ "` clause"] }

end Error

def Warning.diagnostic (warning : Warning) : Diagnostic where
  code := .repeatedParent
  severity := .warning
  message := "`" ++ warning.parent ++ "` is listed more than once as a parent of `" ++
    warning.owner ++ "`"
  labels := [⟨warning.line, "repeated here", true⟩]
  suggestions := ["remove the repeated `" ++ warning.parent ++ "`"]

end Ancestry.Hierarchy
