import Ancestry.Diagnostic.Basic

/-!
Diagnostics as text for people. The text is made of spans, each with a style of its own or with
none; only the step from spans to text knows about colours.
-/
namespace Ancestry

inductive Style where
  | error
  | warning
  | help
  | bold
  | secondary
deriving DecidableEq

/-- The terminal sequence that turns the style on. -/
def Style.sequence : Style → String
  | error => "\x1b[1;31m"
  | warning => "\x1b[1;33m"
  | help => "\x1b[1;32m"
  | bold => "\x1b[1m"
  | secondary => "\x1b[1;34m"

/-- The terminal sequence that turns every style off. -/
def Style.resetSequence : String := "\x1b[0m"

/-- A piece of text with at most one style. -/
structure Span where
  style : Option Style
  text : String
deriving DecidableEq

namespace Span

def plain (text : String) : Span := ⟨none, text⟩

def styled (style : Style) (text : String) : Span := ⟨some style, text⟩

/-- The text of a span, between terminal sequences if it has a style and colours are in use. -/
def render (colored : Bool) (span : Span) : String :=
  match span.style, colored with
  | some style, true => style.sequence ++ span.text ++ Style.resetSequence
  | _, _ => span.text

def renderAll (colored : Bool) (spans : List Span) : String :=
  String.join (spans.map (render colored))

end Span

inductive ColorMode where
  /-- When the text goes to a terminal. -/
  | auto
  | always
  | never
deriving DecidableEq

/-- Whether colours are used for a text that goes to a terminal or elsewhere. -/
def ColorMode.isColored (mode : ColorMode) (isTerminal : Bool) : Bool :=
  match mode with
  | auto => isTerminal
  | always => true
  | never => false

def ColorMode.ofName? (word : String) : Option ColorMode :=
  if word = "auto" then some auto
  else if word = "always" then some always
  else if word = "never" then some never
  else none

def Severity.style : Severity → Style
  | error => .error
  | warning => .warning

namespace Diagnostic

/-- A label: where it points, then its message. `source` is the name of the hierarchy file, if it
is shown. -/
def styledLabel (source : Option String) (label : Label) : List Span :=
  let marker := if label.isPrimary then "-->" else "   "
  let location := match source with
    | some name => name ++ ":" ++ toString label.line
    | none => "line " ++ toString label.line
  [.plain ("  " ++ marker ++ " " ++ location ++ ": "),
    .styled (if label.isPrimary then .error else .secondary) label.message, .plain "\n"]

/-- A note or a suggestion behind its tag. -/
def styledRemark (tag : String) (style : Style) (text : String) : List Span :=
  [.plain "  = ", .styled style tag, .plain (": " ++ text ++ "\n")]

/-- A diagnostic: its headline, its labels, its notes and its suggestions, and an empty line. -/
def styled (source : Option String) (diagnostic : Diagnostic) : List Span :=
  [.styled diagnostic.severity.style diagnostic.severity.text,
    .styled .bold ("[" ++ diagnostic.code.text ++ "]"),
    .plain (": " ++ diagnostic.message ++ "\n")] ++
  diagnostic.labels.flatMap (styledLabel source) ++
  diagnostic.notes.flatMap (styledRemark "note" .bold) ++
  diagnostic.suggestions.flatMap (styledRemark "help" .help) ++
  [.plain "\n"]

/-- A number of things in words: the word takes an `s` unless there is exactly one. -/
def counted (count : Nat) (word : String) : String :=
  toString count ++ " " ++ word ++ (if count = 1 then "" else "s")

/-- The last line of a report with the given numbers of errors and warnings; without either it is
left out. -/
def styledSummary (errors warnings : Nat) : List Span :=
  if 0 < errors then
    let cause := if errors = 1 then "previous error" else counted errors "previous error"
    let others := if 0 < warnings then "; " ++ counted warnings "warning" ++ " emitted" else ""
    [.styled .error "error", .plain (": aborting due to " ++ cause ++ others ++ "\n")]
  else if 0 < warnings then
    [.styled .warning "warning", .plain (": " ++ counted warnings "warning" ++ " emitted\n")]
  else []

end Diagnostic

end Ancestry
