import Ancestry.Diagnostic.Json
import Ancestry.Diagnostic.Styled

/-!
A report: a sequence of diagnostics written in one format, from its opening to its closing.
-/
namespace Ancestry

inductive Format where
  | text
  | json
deriving DecidableEq

def Format.ofName? (word : String) : Option Format :=
  if word = "text" then some text else if word = "json" then some json else none

structure ReportStyle where
  format : Format
  /-- Whether text has colours; JSON has none. -/
  colored : Bool
  /-- The name shown before line numbers, usually that of the hierarchy file. -/
  source : Option String

namespace ReportStyle

def opening (style : ReportStyle) : String :=
  match style.format with
  | .text => ""
  | .json => Diagnostic.jsonOpening

/-- A diagnostic that is or is not the first of the report. -/
def item (style : ReportStyle) (isFirst : Bool) (diagnostic : Diagnostic) : String :=
  match style.format with
  | .text => Span.renderAll style.colored (diagnostic.styled style.source)
  | .json => Diagnostic.jsonSeparator isFirst ++ diagnostic.json style.source

/-- The numbers of errors and warnings in one line. JSON does without them. -/
def summary (style : ReportStyle) (errors warnings : Nat) : String :=
  match style.format with
  | .text => Span.renderAll style.colored (Diagnostic.styledSummary errors warnings)
  | .json => ""

def closing (style : ReportStyle) (diagnostics : List Diagnostic) : String :=
  match style.format with
  | .text => style.summary (diagnostics.countP (·.isError)) (diagnostics.countP (!·.isError))
  | .json => Diagnostic.jsonClosing diagnostics.isEmpty

/-- The diagnostics of a report, one after the other. -/
def items (style : ReportStyle) : List Diagnostic → String
  | [] => ""
  | first :: rest => style.item true first ++ String.join (rest.map (style.item false))

def report (style : ReportStyle) (diagnostics : List Diagnostic) : String :=
  style.opening ++ style.items diagnostics ++ style.closing diagnostics

end ReportStyle

end Ancestry
