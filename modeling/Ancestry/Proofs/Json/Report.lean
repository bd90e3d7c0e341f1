import Ancestry.Proofs.Json.Written
import Ancestry.Report

/-! Reports in JSON. A report is an array with an object for each diagnostic, which says everything
that was reported. -/
namespace Ancestry

open Json Text

/-- The object for a label. It names the file if `source` is given. -/
def Label.jsonValue (source : Option String) (label : Label) : Json.Value :=
  .object ((source.toList.map fun name => ("file", .string name)) ++
    [("line", .number label.line), ("message", .string label.message),
      ("primary", .bool label.isPrimary)])

theorem Label.jsonValue_injective (source : Option String) :
    Function.Injective (Label.jsonValue source) := by
  intro ⟨line, message, isPrimary⟩ other h
  simp only [Label.jsonValue, Json.Value.object.injEq, List.append_cancel_left_eq, List.cons.injEq,
    Prod.mk.injEq, Json.Value.number.injEq, Rat.natCast_inj, Json.Value.string.injEq,
    Json.Value.bool.injEq, true_and, and_true] at h
  obtain ⟨rfl, rfl, rfl⟩ := h
  rfl

theorem Severity.text_injective : Function.Injective text := by
  intro severity other
  cases severity <;> cases other <;> simp [text]

namespace Diagnostic

/-- The object for a diagnostic. -/
def jsonValue (source : Option String) (diagnostic : Diagnostic) : Json.Value :=
  .object [("code", .string diagnostic.code.text), ("severity", .string diagnostic.severity.text),
    ("message", .string diagnostic.message),
    ("labels", .array (diagnostic.labels.map (Label.jsonValue source))),
    ("notes", .array (diagnostic.notes.map .string)),
    ("suggestions", .array (diagnostic.suggestions.map .string))]

theorem Code.isPlain_text (code : Code) : IsPlain code.text := by
  cases code <;> decide

theorem isPlain_severityText (severity : Severity) : IsPlain severity.text := by
  cases severity <;> decide

theorem writes_bool (value : Bool) :
    Writes (if value then "true" else "false").toList (.value (.bool value)) := by
  cases value with
  | false => exact .falseWord
  | true => exact .trueWord

/-- The members of the object for a label. -/
def labelFields (source : Option String) (label : Label) : List Field :=
  (source.toList.map fun name => ⟨"file", quote name, _, by decide, writes_quote name⟩) ++
    [⟨"line", toString label.line, _, by decide, .number (writesNumber_toString label.line)⟩,
      ⟨"message", quote label.message, _, by decide, writes_quote label.message⟩,
      ⟨"primary", _, _, by decide, writes_bool label.isPrimary⟩]

theorem writes_jsonLabel (source : Option String) (label : Label) :
    Writes (jsonLabel source label).toList (.element (label.jsonValue source)) := by
  have hBefore : IsSpace "\n        ".toList := by decide
  have hAfter : IsSpace "\n      ".toList := by decide
  have hIndentation : IsSpace "      ".toList := by decide
  have hObject := Field.writes_object hBefore hBefore hAfter (labelFields source label)
  have hWrites := hObject.indented hIndentation
  unfold jsonLabel Label.jsonValue
  cases source <;> simpa [labelFields, Field.line, Field.member] using hWrites

theorem writes_labels (source : Option String) (labels : List Label) :
    Writes ("[\n" ++ jsonLines (labels.map (jsonLabel source)) ++ "    " ++ "]").toList
      (.value (.array (labels.map (Label.jsonValue source)))) :=
  writes_jsonLines labels (fun label _ => writes_jsonLabel source label) (by decide)

/-- A list of strings, each on a line of its own. -/
theorem writes_strings (texts : List String) :
    Writes
      ("[\n" ++ jsonLines (texts.map fun text => "      " ++ quote text) ++ "    " ++ "]").toList
      (.value (.array (texts.map .string))) := by
  have hIndentation : IsSpace "      ".toList := by decide
  refine writes_jsonLines texts (fun text _ => ?_) (by decide)
  rw [String.toList_append]
  exact (writes_quote text).indented hIndentation

/-- The members of the object for a diagnostic. -/
def fields (source : Option String) (diagnostic : Diagnostic) : List Field :=
  [⟨"code", _, _, by decide, diagnostic.code.isPlain_text.writes⟩,
    ⟨"severity", _, _, by decide, (isPlain_severityText diagnostic.severity).writes⟩,
    ⟨"message", quote diagnostic.message, _, by decide, writes_quote diagnostic.message⟩,
    ⟨"labels", _, _, by decide, writes_labels source diagnostic.labels⟩,
    ⟨"notes", _, _, by decide, writes_strings diagnostic.notes⟩,
    ⟨"suggestions", _, _, by decide, writes_strings diagnostic.suggestions⟩]

theorem writes_json (source : Option String) (diagnostic : Diagnostic) :
    Writes (diagnostic.json source).toList (.element (diagnostic.jsonValue source)) := by
  have hBefore : IsSpace "\n    ".toList := by decide
  have hAfter : IsSpace "\n  ".toList := by decide
  have hIndentation : IsSpace "  ".toList := by decide
  have hObject := Field.writes_object hBefore hBefore hAfter (diagnostic.fields source)
  have hWrites := hObject.indented hIndentation
  unfold json jsonValue
  simpa [fields, Field.line, Field.member] using hWrites

theorem Code.text_injective : Function.Injective text := by
  intro code other
  cases code <;> cases other <;> simp [text]

theorem jsonValue_injective (source : Option String) : Function.Injective (jsonValue source) := by
  intro ⟨code, severity, message, labels, notes, suggestions⟩ other h
  simp only [jsonValue, Json.Value.object.injEq, List.cons.injEq, Prod.mk.injEq,
    Json.Value.string.injEq, Json.Value.array.injEq, true_and, and_true] at h
  obtain ⟨hCode, hSeverity, hMessage, hLabels, hNotes, hSuggestions⟩ := h
  have hString : Function.Injective Json.Value.string := fun _ _ => Json.Value.string.inj
  obtain rfl := Code.text_injective hCode
  obtain rfl := Severity.text_injective hSeverity
  obtain rfl := hMessage
  obtain rfl := (Label.jsonValue_injective source).list_map hLabels
  obtain rfl := hString.list_map hNotes
  obtain rfl := hString.list_map hSuggestions
  rfl

end Diagnostic

namespace ReportStyle

theorem jsonLines_eq_join (first : String) (rest : List String) :
    Diagnostic.jsonLines (first :: rest) =
      first ++ String.join (rest.map (",\n" ++ ·)) ++ "\n" := by
  induction rest generalizing first with
  | nil => simp [Diagnostic.jsonLines]
  | cons second rest ih =>
      rw [Diagnostic.jsonLines, ih]
      · simp [String.append_assoc]
      · simp

/-- The diagnostics of a report stand on lines of their own. -/
theorem report_eq_jsonLines (colored : Bool) (source : Option String)
    (diagnostics : List Diagnostic) :
    report ⟨.json, colored, source⟩ diagnostics =
      "[\n" ++ Diagnostic.jsonLines (diagnostics.map (Diagnostic.json source)) ++ "]\n" := by
  cases diagnostics with
  | nil => rfl
  | cons first rest =>
      have hRest : rest.map (item ⟨.json, colored, source⟩ false) =
          (rest.map (Diagnostic.json source)).map (",\n" ++ ·) := by
        rw [List.map_map]
        rfl
      rw [List.map_cons, jsonLines_eq_join, report, items, hRest, ← String.toList_inj]
      simp [opening, Diagnostic.jsonOpening, item, Diagnostic.jsonSeparator, closing,
        Diagnostic.jsonClosing]

/-- A report is JSON, and reading it gives an object for each diagnostic, in order. The objects say
everything about the diagnostics, so a report tells which ones were reported. In particular any text
comes back from its escaped form. -/
theorem read_report (colored : Bool) (source : Option String) (diagnostics : List Diagnostic) :
    Writes (report ⟨.json, colored, source⟩ diagnostics).toList
        (.element (.array (diagnostics.map (Diagnostic.jsonValue source)))) ∧
      read (report ⟨.json, colored, source⟩ diagnostics) =
        some (.array (diagnostics.map (Diagnostic.jsonValue source))) ∧
      Function.Injective (Diagnostic.jsonValue source) ∧
      ∀ text, unescape (escape text) = some text := by
  have hWrites : Writes (report ⟨.json, colored, source⟩ diagnostics).toList
      (.element (.array (diagnostics.map (Diagnostic.jsonValue source)))) := by
    rw [report_eq_jsonLines]
    exact writes_lines diagnostics fun diagnostic _ => Diagnostic.writes_json source diagnostic
  exact ⟨hWrites, read_eq_some_iff.2 hWrites, Diagnostic.jsonValue_injective source,
    unescape_escape⟩

end ReportStyle

end Ancestry
