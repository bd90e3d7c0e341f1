import Ancestry.Command.Check
import Ancestry.Command.Linearize
import Ancestry.Diagnostic.Explanation

/-!
Invocations of the program. The arguments decide whether a file has to be read; the rest of the
work is a function of the result of reading it.
-/
namespace Ancestry.Command

def unknownCode (word : String) : String :=
  "Unknown error code: " ++ word ++ "\n\n" ++
    "Codes have the format EXXXX (errors) or WXXXX (warnings) where X is a digit.\n" ++
    "Examples: E0001, E0102, W0101\n"

/-- Explains the code that a text denotes. -/
def explain (word : String) : Transcript :=
  match Diagnostic.Code.ofText? word with
  | some code => ⟨code.explanation ++ "\n", "", true⟩
  | none => ⟨"", unknownCode word, false⟩

def version : String := "0.1.0"

def usageLines : List String :=
  [
    "mroc: C3 method resolution order for class hierarchies",
    "",
    "Usage: mroc <command> [options]",
    "",
    "Commands:",
    "  linearize <file> <type>...  Print the linearization of each type",
    "  check <file>                Linearize every declared type",
    "  --explain <code>            Explain a diagnostic code (e.g., E0001)",
    "  help                        Show this help message",
    "  version                     Show version information",
    "",
    "Options:",
    "  --policy=<name>     superclass-first (default), interfaces-first, interfaces-only",
    "  --format=<name>     text (default), json",
    "  --color=<mode>      auto (default), always, never",
    "  --max-depth=<n>     Ancestor chain limit (default: 4096)",
    "",
    "Hierarchy file:",
    "  interface Collection extends Iterable",
    "  class AbstractSet extends AbstractCollection implements Set",
    "  # comments run to the end of the line",
    "",
    "Types may be class or interface names, primitives (int, boolean, ...),",
    "or arrays of either (String[], int[][]).",
    "",
    "Examples:",
    "  mroc linearize lib.txt HashSet",
    "  mroc linearize lib.txt 'Object[][]' --format=json",
    "  mroc check lib.txt --policy=interfaces-first",
    "  mroc --explain E0001",
    "  RUST_LOG=debug mroc check lib.txt   # trace linearization"
  ]

def unlines (lines : List String) : String := String.join (lines.map fun line => line ++ "\n")

def usage : String := unlines usageLines

inductive FileError where
  | missing
  | forbidden
  /-- Its bytes are not UTF-8. -/
  | notText
  /-- There is another reason, for which the system has a number. -/
  | system (number : Nat)
deriving DecidableEq

/-- What the system calls the errors that opening or reading a file can end in. -/
def systemReason : Nat → String
  | 5 => "Input/output error"
  | 6 => "No such device or address"
  | 11 => "Resource temporarily unavailable"
  | 12 => "Cannot allocate memory"
  | 16 => "Device or resource busy"
  | 19 => "No such device"
  | 20 => "Not a directory"
  | 21 => "Is a directory"
  | 22 => "Invalid argument"
  | 23 => "Too many open files in system"
  | 24 => "Too many open files"
  | 36 => "File name too long"
  | 40 => "Too many levels of symbolic links"
  | 75 => "Value too large for defined data type"
  | number => "Unknown error " ++ toString number

def FileError.message (path : String) : FileError → String
  | missing => "cannot find file '" ++ path ++ "'"
  | forbidden => "permission denied reading '" ++ path ++ "'"
  | notText => "'" ++ path ++ "' contains invalid UTF-8 data"
  | system number => "error reading '" ++ path ++ "': " ++ systemReason number ++
    " (os error " ++ toString number ++ ")"

/-- What an invocation amounts to. -/
inductive Invocation where
  /-- It needs no file. -/
  | finished (transcript : Transcript)
  /-- It needs the text of a file. -/
  | onFile (path : String) (run : String → Transcript)

/-- Refuses an invocation for the given reason. -/
def refuse (reason : String) : Transcript := ⟨"", reason, false⟩

def refuseWith (lines : List String) : Invocation := .finished (refuse (unlines lines))

/-- An invocation of a command that takes options. -/
def withOptions (arguments : List String)
    (invocation : Options → List String → Invocation) : Invocation :=
  match readArguments arguments with
  | .error error => .finished (refuse ("error: " ++ error.message ++ "\n"))
  | .ok (options, positional) => invocation options positional

def invokeLinearize (isTerminal : Bool) (options : Options) : List String → Invocation
  | path :: request :: requests =>
    .onFile path fun source => linearize isTerminal path source (request :: requests) options
  | _ => refuseWith
    ["Usage: mroc linearize <file> <type>... [options]",
      "Example: mroc linearize shapes.txt Circle 'Shape[]' int"]

def invokeCheck (shardOf : Nat × Node → Fin 16) (isTerminal : Bool) (options : Options) :
    List String → Invocation
  | [path] => .onFile path fun source => check shardOf isTerminal path source options
  | _ => refuseWith ["Usage: mroc check <file> [options]"]

def invokeExplain : List String → Invocation
  | word :: _ => .finished (explain word)
  | [] => refuseWith ["Usage: mroc --explain <ERROR_CODE>", "Example: mroc --explain E0001"]

/-- The invocation with the given arguments. `isTerminal` says whether reports go to a terminal, and
`shardOf` how the keys of a cache are spread over its shards. -/
def invoke (shardOf : Nat × Node → Fin 16) (isTerminal : Bool) : List String → Invocation
  | [] => .finished ⟨usage, "", true⟩
  | command :: arguments =>
    if command = "linearize" then withOptions arguments (invokeLinearize isTerminal)
    else if command = "check" then withOptions arguments (invokeCheck shardOf isTerminal)
    else if ["help", "--help", "-h"].contains command then .finished ⟨usage, "", true⟩
    else if ["version", "--version", "-V"].contains command then
      .finished ⟨"mroc " ++ version ++ "\n", "", true⟩
    else if ["--explain", "explain"].contains command then invokeExplain arguments
    else .finished ⟨usage, "Unknown command: " ++ command ++ "\n\n", false⟩

/-- The transcript of an invocation, given what reading a file results in. -/
def Invocation.transcript (read : String → Except FileError String) : Invocation → Transcript
  | finished transcript => transcript
  | onFile path run => match read path with
    | .ok source => run source
    | .error error => refuse (error.message path ++ "\n")

/-- The exit code of the program after a transcript. -/
def Transcript.exitCode (transcript : Transcript) : Nat := if transcript.ok then 0 else 1

end Ancestry.Command
