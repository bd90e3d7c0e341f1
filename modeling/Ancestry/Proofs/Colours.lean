import Ancestry.Proofs.Text.Colours
import Ancestry.Report

/-! What colours do to diagnostics that are written as text. Main statement: they only add colour
sequences (`ReportStyle.colours_only_decorate`). -/
namespace Ancestry

open Text

theorem Style.isSequence_sequence (style : Style) : IsSequence style.sequence := by
  cases style with
  | error => exact ⟨['1', ';', '3', '1'], List.all_eq_true.1 rfl, by decide⟩
  | warning => exact ⟨['1', ';', '3', '3'], List.all_eq_true.1 rfl, by decide⟩
  | help => exact ⟨['1', ';', '3', '2'], List.all_eq_true.1 rfl, by decide⟩
  | bold => exact ⟨['1'], List.all_eq_true.1 rfl, by decide⟩
  | secondary => exact ⟨['1', ';', '3', '4'], List.all_eq_true.1 rfl, by decide⟩

theorem Style.isSequence_reset : IsSequence Style.resetSequence :=
  ⟨['0'], List.all_eq_true.1 rfl, by decide⟩

namespace Span

variable {spans : List Span}

theorem removeSequences_render {span : Span} (h : Uncoloured span.text) (colored : Bool)
    (rest : List Char) :
    removeSequences ((span.render colored).toList ++ rest) =
      span.text.toList ++ removeSequences rest := by
  obtain ⟨style, text⟩ := span
  cases style with
  | none => exact removeSequences_append h
  | some style =>
      cases colored with
      | false => exact removeSequences_append h
      | true =>
          show removeSequences ((style.sequence ++ text ++ Style.resetSequence).toList ++ rest) = _
          rw [String.toList_append, String.toList_append, List.append_assoc, List.append_assoc,
            style.isSequence_sequence.removeSequences, removeSequences_append h,
            Style.isSequence_reset.removeSequences]

theorem renderAll_nil (colored : Bool) : renderAll colored [] = "" := rfl

theorem renderAll_cons (colored : Bool) (span : Span) (rest : List Span) :
    renderAll colored (span :: rest) = span.render colored ++ renderAll colored rest := by
  rw [renderAll, List.map_cons, String.join_cons, renderAll]

theorem renderAll_append (colored : Bool) (first second : List Span) :
    renderAll colored (first ++ second) = renderAll colored first ++ renderAll colored second := by
  rw [renderAll, List.map_append, String.join_append, renderAll, renderAll]

theorem renderAll_flatMap {β : Type} (colored : Bool) (spansOf : β → List Span) (items : List β) :
    renderAll colored (items.flatMap spansOf) =
      String.join (items.map fun item => renderAll colored (spansOf item)) := by
  induction items with
  | nil => rfl
  | cons item rest ih =>
      rw [List.flatMap_cons, renderAll_append, ih, List.map_cons, String.join_cons]

theorem render_false (span : Span) : span.render false = span.text := by
  obtain ⟨style, text⟩ := span
  cases style <;> rfl

theorem removeSequences_renderAll (h : ∀ span ∈ spans, Uncoloured span.text) (colored : Bool) :
    removeSequences (renderAll colored spans).toList = (renderAll false spans).toList := by
  induction spans with
  | nil => exact removeSequences_of_uncoloured (renderAll_nil colored ▸ by decide)
  | cons span rest ih =>
      obtain ⟨hSpan, hRest⟩ := List.forall_mem_cons.1 h
      rw [renderAll_cons, renderAll_cons, String.toList_append, String.toList_append,
        removeSequences_render hSpan, ih hRest, render_false]

theorem uncoloured_renderAll (h : ∀ span ∈ spans, Uncoloured span.text) :
    Uncoloured (renderAll false spans) := by
  induction spans with
  | nil => decide
  | cons span rest ih =>
      obtain ⟨hSpan, hRest⟩ := List.forall_mem_cons.1 h
      rw [renderAll_cons, render_false]
      exact uncoloured_append.2 ⟨hSpan, ih hRest⟩

/-- If anything is written, a text with a style comes first. -/
def BeginsStyled (spans : List Span) : Prop :=
  spans = [] ∨ ∃ style text rest, spans = styled style text :: rest ∧ text ≠ ""

theorem BeginsStyled.append {others : List Span} (h : BeginsStyled spans)
    (hOthers : BeginsStyled others) : BeginsStyled (spans ++ others) := by
  rcases h with rfl | ⟨style, text, rest, rfl, hText⟩
  · exact hOthers
  · exact .inr ⟨style, text, rest ++ others, rfl, hText⟩

theorem BeginsStyled.flatMap {β : Type} {spansOf : β → List Span} {items : List β}
    (h : ∀ item ∈ items, BeginsStyled (spansOf item)) : BeginsStyled (items.flatMap spansOf) := by
  induction items with
  | nil => exact .inl rfl
  | cons item rest ih =>
      obtain ⟨hItem, hRest⟩ := List.forall_mem_cons.1 h
      rw [List.flatMap_cons]
      exact hItem.append (ih hRest)

theorem BeginsStyled.uncoloured_iff (h : BeginsStyled spans) :
    Uncoloured (renderAll true spans) ↔ renderAll false spans = "" := by
  rcases h with rfl | ⟨style, text, rest, rfl, hText⟩
  · exact iff_of_true (by decide) rfl
  · refine iff_of_false (fun hNone => ?_) fun hEmpty => ?_
    · rw [renderAll_cons] at hNone
      have hFirst : Uncoloured (style.sequence ++ text ++ Style.resetSequence) :=
        (uncoloured_append.1 hNone).1
      exact style.isSequence_sequence.not_uncoloured
        (uncoloured_append.1 (uncoloured_append.1 hFirst).1).1
    · rw [renderAll_cons, render_false, String.append_eq_empty_iff] at hEmpty
      exact hText hEmpty.1

/-- What spans with plain texts look like in colours and without. -/
theorem colours_decorate (h : ∀ span ∈ spans, Uncoloured span.text) (hBegins : BeginsStyled spans) :
    withoutColours (renderAll true spans) = renderAll false spans ∧
      Uncoloured (renderAll false spans) ∧
      (Uncoloured (renderAll true spans) ↔ renderAll false spans = "") := by
  refine ⟨?_, uncoloured_renderAll h, hBegins.uncoloured_iff⟩
  rw [withoutColours, removeSequences_renderAll h, String.ofList_toList]

end Span

namespace Diagnostic

/-- The texts that a diagnostic is made of, its code and severity apart. -/
def texts (diagnostic : Diagnostic) : List String :=
  diagnostic.message :: diagnostic.labels.map (·.message) ++ diagnostic.notes ++
    diagnostic.suggestions

variable {source : Option String}

theorem uncoloured_styledLabel (hSource : ∀ name ∈ source, Uncoloured name) {label : Label}
    (h : Uncoloured label.message) : ∀ span ∈ styledLabel source label, Uncoloured span.text := by
  have hLine := uncoloured_toString label.line
  have hMarker : Uncoloured ("  " ++ (if label.isPrimary then "-->" else "   ") ++ " ") := by
    cases label.isPrimary <;> decide
  simp only [styledLabel, List.forall_mem_cons]
  refine ⟨uncoloured_append.2 ⟨uncoloured_append.2 ⟨hMarker, ?_⟩, by decide⟩, h, by decide, nofun⟩
  cases source with
  | none => exact uncoloured_append.2 ⟨by decide, hLine⟩
  | some name =>
      exact uncoloured_append.2 ⟨uncoloured_append.2 ⟨hSource name rfl, by decide⟩, hLine⟩

theorem uncoloured_styledRemark {tag text : String} (style : Style) (hTag : Uncoloured tag)
    (h : Uncoloured text) : ∀ span ∈ styledRemark tag style text, Uncoloured span.text := by
  simp only [styledRemark, List.forall_mem_cons]
  exact ⟨by decide, hTag,
    uncoloured_append.2 ⟨uncoloured_append.2 ⟨by decide, h⟩, by decide⟩, nofun⟩

theorem uncoloured_styled (hSource : ∀ name ∈ source, Uncoloured name) {diagnostic : Diagnostic}
    (h : ∀ text ∈ diagnostic.texts, Uncoloured text) :
    ∀ span ∈ diagnostic.styled source, Uncoloured span.text := by
  simp only [texts, List.cons_append, List.forall_mem_cons, List.forall_mem_append,
    List.forall_mem_map] at h
  obtain ⟨hMessage, ⟨hLabels, hNotes⟩, hSuggestions⟩ := h
  have hSeverity : Uncoloured diagnostic.severity.text := by
    cases diagnostic.severity <;> decide
  have hCode : Uncoloured ("[" ++ diagnostic.code.text ++ "]") := by
    cases diagnostic.code <;> decide
  have hHeadline : Uncoloured (": " ++ diagnostic.message ++ "\n") :=
    uncoloured_append.2 ⟨uncoloured_append.2 ⟨by decide, hMessage⟩, by decide⟩
  simp only [styled, List.forall_mem_append, List.forall_mem_cons, List.forall_mem_flatMap]
  exact ⟨⟨⟨⟨⟨hSeverity, hCode, hHeadline, nofun⟩,
    fun label hLabel => uncoloured_styledLabel hSource (hLabels label hLabel)⟩,
    fun note hNote => uncoloured_styledRemark .bold (by decide) (hNotes note hNote)⟩,
    fun suggestion hSuggestion =>
      uncoloured_styledRemark .help (by decide) (hSuggestions suggestion hSuggestion)⟩,
    by decide, nofun⟩

theorem uncoloured_counted {word : String} (h : Uncoloured word) (count : Nat) :
    Uncoloured (counted count word) := by
  have hPlural : Uncoloured (if count = 1 then "" else "s") := by split <;> decide
  exact uncoloured_append.2
    ⟨uncoloured_append.2 ⟨uncoloured_append.2 ⟨uncoloured_toString count, by decide⟩, h⟩, hPlural⟩

theorem uncoloured_styledSummary (errors warnings : Nat) :
    ∀ span ∈ styledSummary errors warnings, Uncoloured span.text := by
  have hWarnings : Uncoloured (counted warnings "warning") := uncoloured_counted (by decide) _
  have hCause : Uncoloured
      (if errors = 1 then "previous error" else counted errors "previous error") := by
    split
    · decide
    · exact uncoloured_counted (by decide) _
  have hOthers : Uncoloured
      (if 0 < warnings then "; " ++ counted warnings "warning" ++ " emitted" else "") := by
    split
    · exact uncoloured_append.2 ⟨uncoloured_append.2 ⟨by decide, hWarnings⟩, by decide⟩
    · decide
  unfold styledSummary
  split
  · simp only [List.forall_mem_cons]
    exact ⟨by decide, uncoloured_append.2 ⟨uncoloured_append.2
      ⟨uncoloured_append.2 ⟨by decide, hCause⟩, hOthers⟩, by decide⟩, nofun⟩
  · split
    · simp only [List.forall_mem_cons]
      exact ⟨by decide, uncoloured_append.2
        ⟨uncoloured_append.2 ⟨by decide, hWarnings⟩, by decide⟩, nofun⟩
    · nofun

end Diagnostic

theorem Severity.text_ne_empty (severity : Severity) : severity.text ≠ "" := by
  cases severity <;> decide

/-- What a writer of diagnostics can be asked to write. -/
inductive Call where
  | diagnostic (diagnostic : Diagnostic)
  | diagnostics (diagnostics : List Diagnostic)
  | summary (errors warnings : Nat)

namespace Call

/-- The texts that the caller gives. -/
def texts : Call → List String
  | diagnostic one => one.texts
  | diagnostics many => many.flatMap Diagnostic.texts
  | summary _ _ => []

/-- What is written for a call. Every diagnostic is the first one, which makes no difference in
text. -/
def written (style : ReportStyle) : Call → String
  | diagnostic one => style.item true one
  | diagnostics many => String.join (many.map (style.item true))
  | summary errors warnings => style.summary errors warnings

def spans (source : Option String) : Call → List Span
  | diagnostic one => one.styled source
  | diagnostics many => many.flatMap (Diagnostic.styled source)
  | summary errors warnings => Diagnostic.styledSummary errors warnings

variable {source : Option String}

theorem written_text (colored : Bool) (call : Call) :
    call.written ⟨.text, colored, source⟩ = Span.renderAll colored (call.spans source) := by
  cases call with
  | diagnostic one => rfl
  | diagnostics many => exact (Span.renderAll_flatMap colored _ many).symm
  | summary errors warnings => rfl

theorem uncoloured_spans (hSource : ∀ name ∈ source, Uncoloured name) {call : Call}
    (h : ∀ text ∈ call.texts, Uncoloured text) :
    ∀ span ∈ call.spans source, Uncoloured span.text := by
  cases call with
  | diagnostic one => exact Diagnostic.uncoloured_styled hSource h
  | diagnostics many =>
      have hMany : ∀ one ∈ many, ∀ text ∈ one.texts, Uncoloured text := List.forall_mem_flatMap.1 h
      exact List.forall_mem_flatMap.2 fun one hOne =>
        Diagnostic.uncoloured_styled hSource (hMany one hOne)
  | summary errors warnings => exact Diagnostic.uncoloured_styledSummary errors warnings

theorem beginsStyled_spans (source : Option String) (call : Call) :
    Span.BeginsStyled (call.spans source) := by
  have hDiagnostic (one : Diagnostic) : Span.BeginsStyled (one.styled source) :=
    .inr ⟨_, _, _, rfl, one.severity.text_ne_empty⟩
  cases call with
  | diagnostic one => exact hDiagnostic one
  | diagnostics many => exact .flatMap fun one _ => hDiagnostic one
  | summary errors warnings =>
      show Span.BeginsStyled (Diagnostic.styledSummary errors warnings)
      unfold Diagnostic.styledSummary
      split
      · exact .inr ⟨_, _, _, rfl, by decide⟩
      · split
        · exact .inr ⟨_, _, _, rfl, by decide⟩
        · exact .inl rfl

end Call

namespace ReportStyle

variable {source : Option String}

def writtenAll (style : ReportStyle) (calls : List Call) : String :=
  String.join (calls.map (Call.written style))

theorem writtenAll_text (colored : Bool) (calls : List Call) :
    writtenAll ⟨.text, colored, source⟩ calls =
      Span.renderAll colored (calls.flatMap (Call.spans source)) := by
  rw [Span.renderAll_flatMap, writtenAll]
  exact congrArg String.join (List.map_congr_left fun call _ => call.written_text colored)

/-- A report is written by one call after the other. -/
theorem report_text (colored : Bool) (diagnostics : List Diagnostic) :
    report ⟨.text, colored, source⟩ diagnostics =
      writtenAll ⟨.text, colored, source⟩ (diagnostics.map .diagnostic ++
        [.summary (diagnostics.countP (·.isError)) (diagnostics.countP (!·.isError))]) := by
  have hItems : items ⟨.text, colored, source⟩ diagnostics =
      String.join (diagnostics.map (item ⟨.text, colored, source⟩ true)) := by
    cases diagnostics with
    | nil => rfl
    | cons first rest => exact (String.join_cons).symm
  rw [writtenAll, List.map_append, String.join_append, List.map_map, List.map_singleton,
    String.join_cons, String.join_nil, String.append_empty, report, hItems]
  exact congrArg (· ++ _) String.empty_append

/-- Let neither the name of the file nor any text of a diagnostic have an escape character. Whatever
is written in colours, by calls in any order or as a whole report, is what is written without
colours as soon as the colour sequences are removed. Without colours there is no escape character in
it; in colours there is one, unless nothing is written at all. -/
theorem colours_only_decorate {source : Option String} {calls : List Call}
    {diagnostics : List Diagnostic} (hSource : ∀ name ∈ source, Uncoloured name)
    (hCalls : ∀ call ∈ calls, ∀ text ∈ call.texts, Uncoloured text)
    (hDiagnostics : ∀ diagnostic ∈ diagnostics, ∀ text ∈ diagnostic.texts, Uncoloured text) :
    let plain : ReportStyle := ⟨.text, false, source⟩
    let coloured : ReportStyle := ⟨.text, true, source⟩
    (withoutColours (coloured.writtenAll calls) = plain.writtenAll calls ∧
      Uncoloured (plain.writtenAll calls) ∧
      (Uncoloured (coloured.writtenAll calls) ↔ plain.writtenAll calls = "")) ∧
    withoutColours (coloured.report diagnostics) = plain.report diagnostics ∧
      Uncoloured (plain.report diagnostics) ∧
      (Uncoloured (coloured.report diagnostics) ↔ plain.report diagnostics = "") := by
  intro plain coloured
  have hWritten (made : List Call) (hMade : ∀ call ∈ made, ∀ text ∈ call.texts, Uncoloured text) :
      withoutColours (coloured.writtenAll made) = plain.writtenAll made ∧
        Uncoloured (plain.writtenAll made) ∧
        (Uncoloured (coloured.writtenAll made) ↔ plain.writtenAll made = "") := by
    rw [writtenAll_text, writtenAll_text]
    refine Span.colours_decorate (List.forall_mem_flatMap.2 fun call hCall => ?_)
      (.flatMap fun call _ => call.beginsStyled_spans source)
    exact Call.uncoloured_spans hSource (hMade call hCall)
  refine ⟨hWritten calls hCalls, ?_⟩
  rw [report_text, report_text]
  refine hWritten _ fun call hCall => ?_
  rcases List.mem_append.1 hCall with hCall | hCall
  · obtain ⟨diagnostic, hDiagnostic, rfl⟩ := List.mem_map.1 hCall
    exact hDiagnostics diagnostic hDiagnostic
  · obtain rfl := List.mem_singleton.1 hCall
    nofun

/-- A diagnostic with everything that a diagnostic can have. -/
def fullDiagnostic : Diagnostic where
  code := .wrongKind
  severity := .error
  message := "A is no interface"
  labels := [⟨12, "listed here", true⟩, ⟨3, "declared here", false⟩]
  notes := ["a class implements interfaces"]
  suggestions := ["extend A"]

def fullText : String :=
  "error[E0104]: A is no interface\n  --> lib.txt:12: listed here\n" ++
    "      lib.txt:3: declared here\n  = note: a class implements interfaces\n" ++
    "  = help: extend A\n\nerror: aborting due to previous error\n"

theorem colours_only_decorate_full :
    let calls : List Call := [.diagnostics [fullDiagnostic], .summary 1 2]
    let plain : ReportStyle := ⟨.text, false, some "lib.txt"⟩
    let coloured : ReportStyle := ⟨.text, true, some "lib.txt"⟩
    (∀ name ∈ plain.source, Uncoloured name) ∧ (∀ text ∈ fullDiagnostic.texts, Uncoloured text) ∧
      withoutColours (coloured.writtenAll calls) = plain.writtenAll calls ∧
      withoutColours (coloured.report [fullDiagnostic]) = fullText ∧
      ¬Uncoloured (coloured.report [fullDiagnostic]) := by
  intro calls plain coloured
  have hSource : ∀ name ∈ plain.source, Uncoloured name := by decide
  have hTexts : ∀ text ∈ fullDiagnostic.texts, Uncoloured text := by decide
  have hCalls : ∀ call ∈ calls, ∀ text ∈ call.texts, Uncoloured text := by decide
  have hDiagnostics : ∀ diagnostic ∈ [fullDiagnostic], ∀ text ∈ diagnostic.texts,
      Uncoloured text := by decide
  have hPlain : plain.report [fullDiagnostic] = fullText := by decide +kernel
  obtain ⟨⟨hWritten, _, _⟩, hReport, _, hColours⟩ :=
    colours_only_decorate hSource hCalls hDiagnostics
  refine ⟨hSource, hTexts, hWritten, hReport.trans hPlain, fun hNone => ?_⟩
  have hEmpty : fullText = "" := hPlain.symm.trans (hColours.1 hNone)
  exact absurd hEmpty (by decide)

end ReportStyle

end Ancestry
