import Ancestry.Command.Invocation

/-!
The command line.
-/
namespace Ancestry.Command

/-- The number that the system has for an error. It may be reported with its sign reversed, as a
word of 32 bits. -/
def errorNumber (code : UInt32) : Nat :=
  if code.toNat < 2147483648 then code.toNat else 4294967296 - code.toNat

/-- Spreads the keys of a cache over its shards by their hashes. -/
def shardByHash (key : Nat × Node) : Fin 16 := ⟨(hash key).toNat % 16, Nat.mod_lt _ (by decide)⟩

/-- Why the system could not open or read a file. -/
def FileError.ofSystem : IO.Error → FileError
  | .noFileOrDirectory _ _ _ => .missing
  | .permissionDenied _ _ _ => .forbidden
  | .alreadyExists _ code _ => .system (errorNumber code)
  | .inappropriateType _ code _ => .system (errorNumber code)
  | .interrupted _ code _ => .system (errorNumber code)
  | .invalidArgument _ code _ => .system (errorNumber code)
  | .noSuchThing _ code _ => .system (errorNumber code)
  | .resourceExhausted _ code _ => .system (errorNumber code)
  | .hardwareFault code _ => .system (errorNumber code)
  | .illegalOperation code _ => .system (errorNumber code)
  | .otherError code _ => .system (errorNumber code)
  | .protocolError code _ => .system (errorNumber code)
  | .resourceBusy code _ => .system (errorNumber code)
  | .resourceVanished code _ => .system (errorNumber code)
  | .timeExpired code _ => .system (errorNumber code)
  | .unsatisfiedConstraints code _ => .system (errorNumber code)
  | .unsupportedOperation code _ => .system (errorNumber code)
  | .unexpectedEof => .system 5
  | .userError _ => .system 5

def readFile (path : String) : IO (Except FileError String) := do
  try
    let bytes ← IO.FS.readBinFile path
    match String.fromUTF8? bytes with
    | some text => return .ok text
    | none => return .error .notText
  catch error => return .error (.ofSystem error)

end Ancestry.Command

open Ancestry.Command in
/-- Runs the program on its arguments. -/
def main (arguments : List String) : IO UInt32 := do
  let invocation := invoke shardByHash (← (← IO.getStderr).isTty) arguments
  let transcript ← match invocation with
    | .finished transcript => pure transcript
    | .onFile path _ => do
      let content ← readFile path
      pure (invocation.transcript fun _ => content)
  IO.print transcript.out
  IO.eprint transcript.err
  return transcript.exitCode.toUInt32
