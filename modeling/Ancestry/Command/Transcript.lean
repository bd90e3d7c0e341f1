import Ancestry.Command.Options
import Ancestry.Hierarchy.Failure

/-!
What a command on a hierarchy file writes, and how its report is written.
-/
namespace Ancestry.Command

/-- What a command writes to its two outputs, and whether it succeeded. -/
structure Transcript where
  out : String
  err : String
  ok : Bool
deriving DecidableEq

/-- How a command with the given options reports on the file at `path`. -/
def Options.reportStyle (options : Options) (isTerminal : Bool) (path : String) : ReportStyle :=
  ⟨options.format, options.color.isColored isTerminal, some path⟩

/-- The transcript of a command that reports the given diagnostics. It succeeds if none of them is
an error; `out` gives its output for either case. -/
def transcript (style : ReportStyle) (diagnostics : List Diagnostic) (out : Bool → String) :
    Transcript :=
  let ok := !diagnostics.any (·.isError)
  ⟨out ok, style.report diagnostics, ok⟩

/-- The transcript of a command on a source. A source that cannot be loaded is reported instead;
otherwise `run` gives the diagnostics after the warnings, and the output. -/
def onHierarchy (style : ReportStyle) (source : String)
    (run : Hierarchy → List Diagnostic × (Bool → String)) : Transcript :=
  match Hierarchy.load source with
  | .error errors => transcript style (errors.map (·.diagnostic)) fun _ => ""
  | .ok hierarchy =>
    let (diagnostics, out) := run hierarchy
    transcript style (hierarchy.warnings.map (·.diagnostic) ++ diagnostics) out

theorem onHierarchy_of_load {source : String} {hierarchy : Hierarchy}
    (hLoad : Hierarchy.load source = .ok hierarchy) (style : ReportStyle)
    (run : Hierarchy → List Diagnostic × (Bool → String)) :
    onHierarchy style source run =
      transcript style (hierarchy.warnings.map (·.diagnostic) ++ (run hierarchy).1)
        (run hierarchy).2 := by
  unfold onHierarchy
  rw [hLoad]

end Ancestry.Command
