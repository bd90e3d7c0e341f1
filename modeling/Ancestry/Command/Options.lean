import Ancestry.Policy
import Ancestry.Report
import Ancestry.Walk

/-!
The options of the commands. An option is a flag, an equals sign and a value in one argument; all
other arguments are positional, unless they start with a hyphen.
-/
namespace Ancestry.Command

structure Options where
  policy : Policy := .superclassFirst
  format : Format := .text
  color : ColorMode := .auto
  maxDepth : Nat := defaultLimit
deriving DecidableEq

inductive OptionError where
  | unknownPolicy (value : String)
  | unknownFormat (value : String)
  | unknownColor (value : String)
  | badDepth (value : String)
  | unknownOption (argument : String)
deriving DecidableEq

def OptionError.message : OptionError → String
  | unknownPolicy value => "unknown policy '" ++ value ++
    "', options: superclass-first, interfaces-first, interfaces-only"
  | unknownFormat value => "unknown format '" ++ value ++ "', options: text, json"
  | unknownColor value => "unknown color mode '" ++ value ++ "', options: auto, always, never"
  | badDepth value => "invalid depth '" ++ value ++ "', expected a positive integer"
  | unknownOption argument => "unknown option '" ++ argument ++ "'"

/-- The rest of an argument that starts with the given flag. -/
def valueOf? (flag argument : String) : Option String :=
  if flag.toList.isPrefixOf argument.toList then
    some (String.ofList (argument.toList.drop flag.length))
  else none

/-- The value of decimal digits; there must be at least one, and nothing else. -/
def decimal? (digits : List Char) : Option Nat :=
  if digits.isEmpty || !digits.all Char.isDigit then none
  else some (digits.foldl (fun value digit => 10 * value + (digit.toNat - '0'.toNat)) 0)

/-- The depth that a value gives: decimal digits, perhaps behind a plus sign, for a positive
number of at most 64 bits. -/
def depth? (value : String) : Option Nat :=
  let digits := match value.toList with
    | '+' :: rest => rest
    | digits => digits
  match decimal? digits with
  | none => none
  | some depth => if 0 < depth ∧ depth < 18446744073709551616 then some depth else none

/-- What one argument adds to the options and the positional arguments before it. -/
def readArgument (options : Options) (positional : List String) (argument : String) :
    Except OptionError (Options × List String) :=
  if let some value := valueOf? "--policy=" argument then
    match Policy.ofName? value with
    | some policy => .ok ({ options with policy }, positional)
    | none => .error (.unknownPolicy value)
  else if let some value := valueOf? "--format=" argument then
    match Format.ofName? value with
    | some format => .ok ({ options with format }, positional)
    | none => .error (.unknownFormat value)
  else if let some value := valueOf? "--color=" argument then
    match ColorMode.ofName? value with
    | some color => .ok ({ options with color }, positional)
    | none => .error (.unknownColor value)
  else if let some value := valueOf? "--max-depth=" argument then
    match depth? value with
    | some maxDepth => .ok ({ options with maxDepth }, positional)
    | none => .error (.badDepth value)
  else if argument.toList.head? = some '-' then .error (.unknownOption argument)
  else .ok (options, positional ++ [argument])

/-- The options and the positional arguments among the arguments. Later options win. -/
def readArguments (arguments : List String) : Except OptionError (Options × List String) :=
  arguments.foldlM (fun (options, positional) argument =>
    readArgument options positional argument) ({}, [])

end Ancestry.Command
