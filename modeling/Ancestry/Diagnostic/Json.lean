import Ancestry.Diagnostic.Basic

/-!
Diagnostics as JSON for programs: one array with an object for each diagnostic. In quoted text,
quotation marks, backslashes and control characters are escaped; all other characters stand for
themselves.
-/
namespace Ancestry.Text

/-- Whether a character is a control character: one of the Unicode category `Cc`. -/
def isControl (c : Char) : Bool := c.toNat < 0x20 || (0x7F ≤ c.toNat && c.toNat ≤ 0x9F)

/-- The last `count` hexadecimal digits of a number. -/
def hexDigits : Nat → Nat → List Char
  | 0, _ => []
  | count + 1, n => hexDigits count (n / 16) ++ [Nat.digitChar (n % 16)]

/-- A character inside quotation marks. -/
def escapeChar (c : Char) : List Char :=
  if c = '"' then ['\\', '"']
  else if c = '\\' then ['\\', '\\']
  else if c = '\n' then ['\\', 'n']
  else if c = '\r' then ['\\', 'r']
  else if c = '\t' then ['\\', 't']
  else if isControl c then '\\' :: 'u' :: hexDigits 4 c.toNat
  else [c]

/-- A text as it stands inside quotation marks. -/
def escape (text : String) : String := String.ofList (text.toList.flatMap escapeChar)

/-- A text in quotation marks. -/
def quote (text : String) : String := "\"" ++ escape text ++ "\""

end Ancestry.Text

namespace Ancestry.Diagnostic

open Text

/-- The members of an array, each on lines of its own, with commas between them. Each member is
given with its indentation and without the line break behind it. -/
def jsonLines : List String → String
  | [] => ""
  | [last] => last ++ "\n"
  | member :: rest => member ++ ",\n" ++ jsonLines rest

/-- A label as an object. The file is named if `source` is given. -/
def jsonLabel (source : Option String) (label : Label) : String :=
  let file := match source with
    | some name => "        \"file\": " ++ quote name ++ ",\n"
    | none => ""
  "      \x7b\n" ++ file ++
    "        \"line\": " ++ toString label.line ++ ",\n" ++
    "        \"message\": " ++ quote label.message ++ ",\n" ++
    "        \"primary\": " ++ (if label.isPrimary then "true" else "false") ++ "\n" ++
    "      \x7d"

/-- A diagnostic as an object, without the line break behind it. -/
def json (source : Option String) (diagnostic : Diagnostic) : String :=
  "  \x7b\n" ++
    "    \"code\": \"" ++ diagnostic.code.text ++ "\",\n" ++
    "    \"severity\": \"" ++ diagnostic.severity.text ++ "\",\n" ++
    "    \"message\": " ++ quote diagnostic.message ++ ",\n" ++
    "    \"labels\": [\n" ++ jsonLines (diagnostic.labels.map (jsonLabel source)) ++ "    ],\n" ++
    "    \"notes\": [\n" ++
      jsonLines (diagnostic.notes.map fun note => "      " ++ quote note) ++ "    ],\n" ++
    "    \"suggestions\": [\n" ++
      jsonLines (diagnostic.suggestions.map fun suggestion => "      " ++ quote suggestion) ++
      "    ]\n" ++
    "  \x7d"

def jsonOpening : String := "[\n"

/-- What stands between a member of the array and the member before it. -/
def jsonSeparator (isFirst : Bool) : String := if isFirst then "" else ",\n"

def jsonClosing (isEmpty : Bool) : String := if isEmpty then "]\n" else "\n]\n"

end Ancestry.Diagnostic
