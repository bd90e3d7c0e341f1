import Ancestry.Command.Linearize
import Ancestry.Proofs.Check
import Ancestry.Proofs.Hierarchy.Order
import Ancestry.Proofs.Walk.Remembered

/-! Several requests in one command. All their walks share a memo, which holds what the walks for
earlier requests have found out, whether these succeeded or not. Main statement: if no request meets
the limit when it is the only one, then each is answered as if it were the only one
(`Command.linearize_independent`). -/
namespace Ancestry

/-- A text is read as the type that its name denotes under its dimensions. -/
theorem Node.read_eq_ok {catalog : Catalog} {text : String} {reversedName : List Char} {dims : Nat}
    {element : Element} {node : Node}
    (hPeel : peel (Text.trim text.toList).reverse = (reversedName, dims))
    (hPlain : (reversedName.isEmpty ||
      reversedName.any fun c => c == '[' || c == ']' || Text.isBlank c) = false)
    (hElement : elementNamed? catalog (String.ofList reversedName.reverse) = some element)
    (hNode : lift? element dims = some node) : read catalog text = .ok node := by
  simp only [read, hPeel, hPlain, hElement, hNode]
  rfl

namespace Command

open Hierarchy (load)
open Walk (HitsLimit)

section

variable (hierarchy : Hierarchy) {parents : Node → List Node} {limit : Nat} {memo : Memo Node}

/-- The answer to a request for a node from the result of the node's walk. -/
def answerOf (node : Node) :
    Except (Failure Node) (Linearization Node) → Except Diagnostic (Node × Linearization Node)
  | .ok order => .ok (node, order)
  | .error failure => .error (hierarchy.failureDiagnostic node failure)

variable {hierarchy}

theorem answer_of_unread {text : String} {error : Node.ReadError}
    (hRead : Node.read hierarchy.catalog text = .error error)
    (setting : Walk.Setting Unit Node) (memo : Memo Node) :
    answer hierarchy setting memo text = (.error error.diagnostic, memo) := by
  unfold answer
  rw [hRead]

theorem answer_of_read {text : String} {node : Node}
    (hRead : Node.read hierarchy.catalog text = .ok node)
    (setting : Walk.Setting Unit Node) (memo : Memo Node) :
    answer hierarchy setting memo text =
      (answerOf hierarchy node (setting.linearize node memo ()).result,
        (setting.linearize node memo ()).memo) := by
  unfold answer
  rw [hRead]
  simp only
  cases (setting.linearize node memo ()).result <;> rfl

/-- Whatever is requested, the memo stays a closed memo of linearizations. -/
theorem answer_remembers (hierarchy : Hierarchy) (hMemo : memo.Sound parents)
    (hClosed : memo.Closed parents) (limit : Nat) (text : String) :
    let left := (answer hierarchy ⟨parents, limit, .absent Node⟩ memo text).2
    left.Sound parents ∧ left.Closed parents := by
  cases hRead : Node.read hierarchy.catalog text with
  | error error =>
      rw [answer_of_unread hRead]
      exact ⟨hMemo, hClosed⟩
  | ok node =>
      rw [answer_of_read hRead]
      exact ⟨(Walk.linearize_absent_sound limit hMemo node).memo,
        Walk.Setting.linearize_closed hMemo hClosed limit node⟩

/-- A request that does not meet the limit by itself is answered as if it were the only one. -/
theorem answer_eq_alone (hMemo : memo.Sound parents) (hClosed : memo.Closed parents) {text : String}
    (hDeep : ∀ diagnostic, (answer hierarchy ⟨parents, limit, .absent Node⟩ ∅ text).1 =
      .error diagnostic → diagnostic.code ≠ .tooDeep) :
    (answer hierarchy ⟨parents, limit, .absent Node⟩ memo text).1 =
      (answer hierarchy ⟨parents, limit, .absent Node⟩ ∅ text).1 := by
  cases hRead : Node.read hierarchy.catalog text with
  | error error => rw [answer_of_unread hRead, answer_of_unread hRead]
  | ok node =>
      rw [answer_of_read hRead] at hDeep ⊢
      rw [answer_of_read hRead]
      refine congrArg (answerOf hierarchy node)
        (Walk.Setting.linearize_eq_of_closed hMemo hClosed ?_)
      rintro ⟨requested, deep, bound, chain, hLimit⟩
      have hAlone : (Walk.Setting.linearize ⟨parents, limit, .absent Node⟩ node ∅ ()).result =
        .error (.tooDeep requested deep bound chain) := hLimit
      rw [hAlone] at hDeep
      exact hDeep _ rfl rfl

theorem answers_eq_map (hMemo : memo.Sound parents) (hClosed : memo.Closed parents)
    {texts : List String}
    (hDeep : ∀ text ∈ texts, ∀ diagnostic,
      (answer hierarchy ⟨parents, limit, .absent Node⟩ ∅ text).1 = .error diagnostic →
        diagnostic.code ≠ .tooDeep) :
    answers hierarchy ⟨parents, limit, .absent Node⟩ memo texts =
      texts.map fun text => (answer hierarchy ⟨parents, limit, .absent Node⟩ ∅ text).1 := by
  induction texts generalizing memo with
  | nil => rfl
  | cons text rest ih =>
      obtain ⟨hHere, hRest⟩ := List.forall_mem_cons.1 hDeep
      obtain ⟨hLeft, hLeftClosed⟩ := answer_remembers hierarchy hMemo hClosed limit text
      exact congrArg₂ List.cons (answer_eq_alone hMemo hClosed hHere) (ih hLeft hLeftClosed hRest)

end

section

variable {hierarchy : Hierarchy} {options : Options} {source : String}

/-- The diagnostics of the requests. -/
def requestDiagnostics (hierarchy : Hierarchy) (options : Options) (requests : List String) :
    List Diagnostic :=
  failures (answers hierarchy (options.setting hierarchy) ∅ requests)

/-- How a request is dealt with if it does not meet the limit: the diagnostics and the output that
it is answered with, and whether that is a success. -/
inductive Answered (hierarchy : Hierarchy) (options : Options) (request : String) :
    List Diagnostic → String → Bool → Prop where
  | found {node : Node} {order : Linearization Node}
      (hRead : Node.read hierarchy.catalog request = .ok node)
      (hOrder : Ancestry.linearize (options.policy.parents hierarchy.catalog.relations) node
        options.maxDepth = .ok order) :
      Answered hierarchy options request [] (textLine hierarchy.catalog node order) true
  | unread {error : Node.ReadError} (hRead : Node.read hierarchy.catalog request = .error error) :
      Answered hierarchy options request [error.diagnostic] "" false
  | inconsistent {node : Node} {conflict : Conflict Node}
      (hRead : Node.read hierarchy.catalog request = .ok node)
      (hConflict : Ancestry.linearize (options.policy.parents hierarchy.catalog.relations) node
        options.maxDepth = .error (.inconsistent conflict)) :
      Answered hierarchy options request
        [hierarchy.failureDiagnostic node (.inconsistent conflict)] "" false

section

variable {request out : String} {reported : List Diagnostic} {ok : Bool}

theorem Answered.of_unread (h : Answered hierarchy options request reported out ok)
    {error : Node.ReadError} (hRead : Node.read hierarchy.catalog request = .error error) :
    reported = [error.diagnostic] ∧ out = "" := by
  cases h with
  | found hOther => cases hRead.symm.trans hOther
  | unread hOther =>
      cases hRead.symm.trans hOther
      exact ⟨rfl, rfl⟩
  | inconsistent hOther => cases hRead.symm.trans hOther

theorem Answered.of_linearizes (h : Answered hierarchy options request reported out ok)
    {node : Node} (hRead : Node.read hierarchy.catalog request = .ok node)
    {order : Linearization Node}
    (hOrder : Linearizes (options.policy.parents hierarchy.catalog.relations) node order) :
    reported = [] ∧ out = textLine hierarchy.catalog node order := by
  cases h with
  | found hOther hFound =>
      cases hRead.symm.trans hOther
      exact ⟨rfl, by rw [hOrder.unique (.of_linearize hFound)]⟩
  | unread hOther => cases hRead.symm.trans hOther
  | inconsistent hOther hConflict =>
      cases hRead.symm.trans hOther
      exact absurd hOrder (MeetsClash.of_linearize hConflict).not_linearizes

theorem Answered.of_not_linearizes (h : Answered hierarchy options request reported out ok)
    {node : Node} (hRead : Node.read hierarchy.catalog request = .ok node)
    (hNone : ∀ order, ¬Linearizes (options.policy.parents hierarchy.catalog.relations) node order) :
    (∃ conflict, reported = [hierarchy.failureDiagnostic node (.inconsistent conflict)]) ∧
      out = "" ∧ ok = false := by
  cases h with
  | found hOther hFound =>
      cases hRead.symm.trans hOther
      exact absurd (.of_linearize hFound) (hNone _)
  | unread hOther => cases hRead.symm.trans hOther
  | @inconsistent _ conflict hOther =>
      cases hRead.symm.trans hOther
      exact ⟨⟨conflict, rfl⟩, rfl, rfl⟩

end

theorem linearize_eq (hLoad : load source = .ok hierarchy) (isTerminal : Bool) (path : String)
    (requests : List String) (options : Options) :
    linearize isTerminal path source requests options =
      transcript (options.reportStyle isTerminal path)
        (hierarchy.warnings.map (·.diagnostic) ++ requestDiagnostics hierarchy options requests)
        (fun _ => ordersText hierarchy.catalog
          (successes (answers hierarchy (options.setting hierarchy) ∅ requests))
          options.format) :=
  onHierarchy_of_load hLoad _ _

theorem isError_of_answer {setting : Walk.Setting Unit Node} {memo : Memo Node} {text : String}
    {diagnostic : Diagnostic} (h : (answer hierarchy setting memo text).1 = .error diagnostic) :
    diagnostic.isError = true := by
  cases hRead : Node.read hierarchy.catalog text with
  | error error =>
      rw [answer_of_unread hRead] at h
      cases h
      rfl
  | ok node =>
      rw [answer_of_read hRead] at h
      cases hResult : (setting.linearize node memo ()).result with
      | ok order =>
          rw [hResult] at h
          cases h
      | error failure =>
          rw [hResult] at h
          cases h
          exact isError_failureDiagnostic hierarchy node failure

theorem answers_single (hierarchy : Hierarchy) (setting : Walk.Setting Unit Node)
    (memo : Memo Node) (text : String) :
    answers hierarchy setting memo [text] = [(answer hierarchy setting memo text).1] :=
  rfl

/-- Each answer is given with a closed memo of linearizations. -/
theorem exists_of_mem_answers {parents : Node → List Node} {limit : Nat} {memo : Memo Node}
    (hMemo : memo.Sound parents) (hClosed : memo.Closed parents) {texts : List String}
    {found : Except Diagnostic (Node × Linearization Node)}
    (h : found ∈ answers hierarchy ⟨parents, limit, .absent Node⟩ memo texts) :
    ∃ text ∈ texts, ∃ known : Memo Node, known.Sound parents ∧
      found = (answer hierarchy ⟨parents, limit, .absent Node⟩ known text).1 := by
  induction texts generalizing memo with
  | nil => cases h
  | cons text rest ih =>
      rcases List.mem_cons.1 h with hHere | hRest
      · exact ⟨text, List.mem_cons_self, memo, hMemo, hHere⟩
      · obtain ⟨hLeft, hLeftClosed⟩ :=
          answer_remembers hierarchy hMemo hClosed limit text
        obtain ⟨other, hOther, hFound⟩ := ih hLeft hLeftClosed hRest
        exact ⟨other, List.mem_cons_of_mem _ hOther, hFound⟩

theorem exists_of_mem_requestDiagnostics {requests : List String} {diagnostic : Diagnostic}
    (h : diagnostic ∈ requestDiagnostics hierarchy options requests) :
    ∃ request ∈ requests, ∃ known : Memo Node,
      known.Sound (options.setting hierarchy).parents ∧
      (answer hierarchy (options.setting hierarchy) known request).1 = .error diagnostic := by
  obtain ⟨request, hRequest, known, hKnown, hAnswer⟩ := exists_of_mem_answers
    (Memo.sound_empty _) (Memo.closed_empty _) (mem_of_failures h)
  exact ⟨request, hRequest, known, hKnown, hAnswer.symm⟩

theorem isError_of_mem_requestDiagnostics {requests : List String} {diagnostic : Diagnostic}
    (h : diagnostic ∈ requestDiagnostics hierarchy options requests) :
    diagnostic.isError = true := by
  obtain ⟨_, _, _, _, hAnswer⟩ := exists_of_mem_requestDiagnostics h
  exact isError_of_answer hAnswer

theorem ok_linearize_iff (hLoad : load source = .ok hierarchy) (isTerminal : Bool) (path : String)
    (requests : List String) (options : Options) :
    (linearize isTerminal path source requests options).ok = true ↔
      requestDiagnostics hierarchy options requests = [] := by
  rw [linearize_eq hLoad]
  exact ok_transcript_iff (fun _ hDiagnostic => isError_of_mem_requestDiagnostics hDiagnostic) ..

theorem join_flatMap {β : Type} (items : List β) (f : β → List String) :
    String.join (items.flatMap f) = String.join (items.map fun item => String.join (f item)) := by
  induction items with
  | nil => rfl
  | cons item items ih =>
      rw [List.flatMap_cons, String.join_append, ih, List.map_cons, String.join_cons]

theorem out_linearize (hLoad : load source = .ok hierarchy) (isTerminal : Bool) (path : String)
    (requests : List String) (hFormat : options.format = .text) :
    (linearize isTerminal path source requests options).out =
      String.join ((successes (answers hierarchy (options.setting hierarchy) ∅ requests)).map
        fun (node, order) => textLine hierarchy.catalog node order) := by
  rw [linearize_eq hLoad, hFormat]
  rfl

/-- A request does not meet the limit if its node has no longer chains of parents. -/
theorem code_ne_tooDeep_of_chains {request : String}
    (hChains : ∀ node, Node.read hierarchy.catalog request = .ok node →
      ChainsWithin (options.policy.parents hierarchy.catalog.relations) options.maxDepth node) :
    ∀ diagnostic ∈ requestDiagnostics hierarchy options [request], diagnostic.code ≠ .tooDeep := by
  rw [requestDiagnostics, answers_single]
  cases hRead : Node.read hierarchy.catalog request with
  | error error =>
      rw [answer_of_unread hRead]
      refine List.forall_mem_singleton.2 ?_
      cases error <;> exact nofun
  | ok node =>
      have hAnswer := linearize_answer (options.policy.parents hierarchy.catalog.relations) node
        options.maxDepth
      have hLimit := hAnswer.not_hitsLimit_of_chains (hChains node hRead)
      rw [answer_of_read hRead]
      change ∀ diagnostic ∈ failures [answerOf hierarchy node (Ancestry.linearize _ node _)], _
      generalize Ancestry.linearize (options.policy.parents hierarchy.catalog.relations) node
        options.maxDepth = result at hLimit
      match result with
      | .ok order => exact nofun
      | .error (.inconsistent conflict) =>
          refine List.forall_mem_singleton.2 ?_
          exact nofun
      | .error (.tooDeep ..) => exact absurd ⟨_, _, _, _, rfl⟩ hLimit

/-- A request that is the only one and does not meet the limit. -/
theorem answered_alone (hLoad : load source = .ok hierarchy) (isTerminal : Bool) (path : String)
    (hFormat : options.format = .text) {request : String}
    (hDeep : ∀ diagnostic ∈ requestDiagnostics hierarchy options [request],
      diagnostic.code ≠ .tooDeep) :
    let alone := linearize isTerminal path source [request] options
    Answered hierarchy options request (requestDiagnostics hierarchy options [request])
      alone.out alone.ok := by
  intro alone
  have hOut : alone.out = _ := out_linearize hLoad isTerminal path [request] hFormat
  have hOk : alone.ok = decide (requestDiagnostics hierarchy options [request] = []) :=
    Bool.eq_iff_iff.2 ((ok_linearize_iff hLoad isTerminal path [request] options).trans
      decide_eq_true_iff.symm)
  rw [requestDiagnostics, answers_single] at hDeep hOk ⊢
  rw [answers_single] at hOut
  rw [hOut, hOk]
  cases hRead : Node.read hierarchy.catalog request with
  | error error =>
      rw [answer_of_unread hRead]
      exact .unread hRead
  | ok node =>
      rw [answer_of_read hRead] at hDeep ⊢
      have hFresh : ((options.setting hierarchy).linearize node ∅ ()).result =
        Ancestry.linearize (options.policy.parents hierarchy.catalog.relations) node
          options.maxDepth := rfl
      rw [hFresh] at hDeep ⊢
      cases hResult : Ancestry.linearize (options.policy.parents hierarchy.catalog.relations) node
          options.maxDepth with
      | ok order =>
          have hLine : String.join [textLine hierarchy.catalog node order] =
              textLine hierarchy.catalog node order := by
            rw [String.join_cons, String.join_nil, String.append_empty]
          have hFound := Answered.found hRead hResult
          rw [← hLine] at hFound
          exact hFound
      | error failure =>
          cases failure with
          | inconsistent conflict => exact .inconsistent hRead hResult
          | tooDeep =>
              rw [hResult] at hDeep
              exact absurd rfl (hDeep _ List.mem_cons_self)

/-- Let several types be requested of a file that is loaded, in text format, each of which does not
meet the limit when it is the only one. Then what the command writes for all of them is what it
writes for each alone, in their order, and it reports what it reports for each alone: nothing on a
success, and else one error, which says that the text is no type or which conflict the type has
met. It succeeds just if it does so for each alone. -/
theorem linearize_independent (hLoad : load source = .ok hierarchy) (isTerminal : Bool)
    (path : String) (hFormat : options.format = .text) {requests : List String}
    (hDeep : ∀ request ∈ requests,
      ∀ diagnostic ∈ requestDiagnostics hierarchy options [request],
        diagnostic.code ≠ .tooDeep) :
    let style := options.reportStyle isTerminal path
    let warnings := hierarchy.warnings.map (·.diagnostic)
    let reported := requestDiagnostics hierarchy options
    let outcome (requests : List String) := linearize isTerminal path source requests options
    (outcome requests).out = String.join (requests.map fun request => (outcome [request]).out) ∧
      reported requests = requests.flatMap (fun request => reported [request]) ∧
      (∀ diagnostic ∈ reported requests, diagnostic.isError = true) ∧
      ((outcome requests).ok = true ↔ ∀ request ∈ requests, (outcome [request]).ok = true) ∧
      (∀ request ∈ requests, Answered hierarchy options request (reported [request])
        (outcome [request]).out (outcome [request]).ok) ∧
      (outcome requests).err = style.report (warnings ++ reported requests) ∧
      ∀ request ∈ requests,
        (outcome [request]).err = style.report (warnings ++ reported [request]) := by
  intro style warnings reported outcome
  have hAnswers : answers hierarchy (options.setting hierarchy) ∅ requests = requests.map
      fun request => (answer hierarchy (options.setting hierarchy) ∅ request).1 := by
    refine answers_eq_map (Memo.sound_empty _) (Memo.closed_empty _) fun request hRequest =>
      fun diagnostic hAnswer => hDeep request hRequest diagnostic ?_
    have hAlone : answer hierarchy (options.setting hierarchy) ∅ request =
      (.error diagnostic, _) := Prod.ext hAnswer rfl
    rw [requestDiagnostics, answers_single, hAlone]
    exact List.mem_cons_self
  have hReported : reported requests = requests.flatMap fun request => reported [request] :=
    (congrArg failures hAnswers).trans (failures_map ..)
  have hErr (requests : List String) :
      (outcome requests).err = style.report (warnings ++ reported requests) :=
    congrArg Transcript.err (linearize_eq hLoad ..)
  refine ⟨?_, hReported, fun _ => isError_of_mem_requestDiagnostics, ?_, ?_, hErr requests,
    fun request _ => hErr [request]⟩
  · have hOut (requests : List String) : (outcome requests).out = _ :=
      out_linearize hLoad isTerminal path requests hFormat
    simp only [hOut, hAnswers, answers_single]
    rw [successes_map, List.map_flatMap, join_flatMap]
  · have hOk (requests : List String) : (outcome requests).ok = true ↔ reported requests = [] :=
      ok_linearize_iff hLoad isTerminal path requests options
    simp only [hOk]
    rw [hReported, List.flatMap_eq_nil_iff]
  · exact fun request hRequest =>
      answered_alone hLoad isTerminal path hFormat (hDeep request hRequest)

/-- Among the requests are a type that meets a conflict and a text that is no type. -/
theorem linearize_independent_tangled : ∃ hierarchy,
    load Hierarchy.tangledSource = .ok hierarchy ∧
    let requests := ["Mix", "B[", "B"]
    let outcome := linearize false "types" Hierarchy.tangledSource requests {}
    (∀ request ∈ requests, ∀ diagnostic ∈ requestDiagnostics hierarchy {} [request],
      diagnostic.code ≠ .tooDeep) ∧
    outcome.out = "B: B, A, Object\n" ∧ outcome.ok = false ∧
    (requestDiagnostics hierarchy {} requests).map (·.code) = [.inconsistent, .badSyntax] := by
  obtain ⟨hierarchy, hLoad, hMeans⟩ :=
    Hierarchy.declares_tangled.exists_means Hierarchy.coherent_tangled
  have hMix : Node.read hierarchy.catalog "Mix" = .ok (.ofClass ⟨6⟩) := by
    have hTrim : (Text.trim "Mix".toList).reverse = ['x', 'i', 'M'] := by decide
    have hPeel : Node.peel (Text.trim "Mix".toList).reverse = (['x', 'i', 'M'], 0) := by
      rw [hTrim]
      simp [Node.peel]
    refine Node.read_eq_ok hPeel rfl ?_ rfl
    exact congrArg (Option.map Element.declared) ((hMeans.lookup?_eq "Mix").trans rfl)
  have hOpen : Node.read hierarchy.catalog "B[" = .error (.malformed "B[") := by
    have hTrim : (Text.trim "B[".toList).reverse = ['[', 'B'] := by decide
    have hPeel : Node.peel (Text.trim "B[".toList).reverse = (['[', 'B'], 0) := by
      rw [hTrim]
      simp [Node.peel]
    simp only [Node.read, hPeel]
    rfl
  have hB := Hierarchy.read_tangled hMeans
  have hSecond := (Hierarchy.orders_tangled hMeans).2.2
  have hDeep : ∀ request ∈ ["Mix", "B[", "B"],
      ∀ diagnostic ∈ requestDiagnostics hierarchy {} [request], diagnostic.code ≠ .tooDeep := by
    simp only [List.forall_mem_cons]
    refine ⟨?_, ?_, ?_, List.forall_mem_nil _⟩ <;>
      refine code_ne_tooDeep_of_chains fun node hRead => ?_
    · rw [hMix] at hRead
      cases hRead
      exact (chainsWithin_tangled hMeans ⟨6⟩ (by decide)).mono (by decide)
    · rw [hOpen] at hRead
      cases hRead
    · rw [hB] at hRead
      cases hRead
      exact hSecond.chainsWithin (by decide)
  obtain ⟨hOut, hReported, _, hOk, hEach, _⟩ :=
    linearize_independent hLoad false "types" (show ({} : Options).format = .text from rfl) hDeep
  simp only [List.forall_mem_cons] at hEach hOk
  obtain ⟨hFails, hRefused, hFound, _⟩ := hEach
  obtain ⟨⟨conflict, hMixReport⟩, hMixOut, hMixOk⟩ :=
    hFails.of_not_linearizes hMix (not_linearizes_tangled hMeans)
  obtain ⟨hOpenReport, hOpenOut⟩ := hRefused.of_unread hOpen
  obtain ⟨hBReport, hBOut⟩ := hFound.of_linearizes hB hSecond
  refine ⟨hierarchy, hLoad, hDeep, ?_, ?_, ?_⟩
  · have hName : hierarchy.catalog.className ⟨5⟩ = "B" := (hMeans.reflects 2 _ rfl).name
    have hParentName : hierarchy.catalog.className ⟨4⟩ = "A" := (hMeans.reflects 1 _ rfl).name
    have hRootName : hierarchy.catalog.className .object = "Object" := by
      rw [Catalog.className, hMeans.entry?_predeclared .object rfl]
      rfl
    have hLine : textLine hierarchy.catalog (.ofClass ⟨5⟩)
        ⟨.ofClass ⟨5⟩, [.ofClass ⟨4⟩, .object]⟩ = "B: B, A, Object\n" := by
      simp [textLine, orderNames, Linearization.toList, Node.written, Element.written, Node.ofClass,
        Node.object, hName, hParentName, hRootName]
    rw [hOut, List.map_cons, List.map_cons, List.map_cons, hMixOut, hOpenOut, hBOut, hLine]
    rfl
  · rw [← Bool.not_eq_true, hOk, hMixOk]
    simp
  · rw [hReported, List.flatMap_cons, List.flatMap_cons, List.flatMap_cons, hMixReport,
      hOpenReport, hBReport]
    rfl

end

end Command

end Ancestry
