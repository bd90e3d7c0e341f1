import Ancestry.Command.Check
import Ancestry.Proofs.Cache.Holds
import Ancestry.Proofs.Hierarchy.Identities
import Ancestry.Proofs.Walk.Depth

/-! The check of a whole file. A type whose failure is that of an ancestor is passed over, which is
honest because the ancestor is a type of the file and fails by itself. Main statement:
`Command.check_honest`. -/
namespace Ancestry.Command

open Hierarchy (load Means)

variable {shardOf : Nat × Node → Fin 16} {hierarchy : Hierarchy} {policy : Policy} {limit : Nat}
  {node : Node} {result : Except (Failure Node) (Linearization Node)}

theorem map_fst_resultsThroughCache (parents : Node → List Node) (limit : Nat)
    (cache : OrderCache Node) (nodes : List Node) :
    (resultsThroughCache parents limit cache nodes).map Prod.fst = nodes := by
  induction nodes generalizing cache with
  | nil => rfl
  | cons node rest ih => exact congrArg (node :: ·) (ih _)

/-- Every result comes from the cache at its turn, which holds linearizations only. -/
theorem exists_cache_of_mem_resultsThroughCache {parents : Node → List Node}
    {cache : OrderCache Node} {nodes : List Node} (hCache : cache.Sound fun _ => parents)
    (h : (node, result) ∈ resultsThroughCache parents limit cache nodes) :
    ∃ turn : OrderCache Node, turn.Sound (fun _ => parents) ∧
      result = (OrderCache.getOrLinearize parents 0 limit node turn).1 := by
  induction nodes generalizing cache with
  | nil => cases h
  | cons first rest ih =>
      rcases List.mem_cons.1 h with hSame | hRest
      · cases hSame
        exact ⟨cache, hCache, rfl⟩
      · exact ih (OrderCache.getOrLinearize_sound hCache 0 limit first).2 hRest

theorem map_fst_resultsInOrder (shardOf : Nat × Node → Fin 16) (hierarchy : Hierarchy)
    (policy : Policy) (limit : Nat) (order : List ClassId) :
    (resultsInOrder shardOf hierarchy policy limit order).map Prod.fst =
      order.map Node.ofClass :=
  map_fst_resultsThroughCache ..

theorem exists_cache_of_mem_resultsInOrder {order : List ClassId}
    (h : (node, result) ∈ resultsInOrder shardOf hierarchy policy limit order) :
    ∃ turn : OrderCache Node,
      turn.Sound (fun _ => policy.parents hierarchy.catalog.relations) ∧
      result = (OrderCache.getOrLinearize (policy.parents hierarchy.catalog.relations) 0 limit
        node turn).1 :=
  exists_cache_of_mem_resultsThroughCache (OrderCache.sound_empty _ _ _) h

theorem answer_of_mem_resultsInOrder {order : List ClassId}
    (h : (node, result) ∈ resultsInOrder shardOf hierarchy policy limit order) :
    Walk.Answer (policy.parents hierarchy.catalog.relations) limit node result := by
  obtain ⟨turn, hTurn, rfl⟩ := exists_cache_of_mem_resultsInOrder h
  exact (OrderCache.getOrLinearize_sound hTurn 0 limit node).1

theorem isError_failureDiagnostic (hierarchy : Hierarchy) (node : Node) (failure : Failure Node) :
    (hierarchy.failureDiagnostic node failure).isError = true := by
  cases failure <;> rfl

/-- The conflict that a type of the file meets is that of a type of the file. -/
theorem exists_declared_of_meetsClash {declarations : List Declaration} {id : ClassId}
    {conflict : Conflict Node} (hMeans : Means declarations hierarchy)
    (hId : id ∈ hierarchy.declared)
    (hMeets : MeetsClash (policy.parents hierarchy.catalog.relations) (.ofClass id) conflict) :
    ∃ other ∈ hierarchy.declared, conflict.node = .ofClass other := by
  obtain ⟨hKnown, _⟩ := hMeans.mem_declared_iff.1 hId
  obtain ⟨other, hNode, hOther⟩ := hMeans.exists_of_reaches hKnown hMeets.reaches_node
  refine ⟨other, hMeans.mem_declared_iff.2 ⟨hOther, ?_⟩, hNode⟩
  by_contra hPredeclared
  obtain ⟨order, hOrder⟩ : ∃ order,
      Linearizes (policy.parents hierarchy.catalog.relations) (.ofClass other) order :=
    hMeans.exists_linearizes_predeclared (by simpa using hPredeclared)
  have hClashes := hMeets.clashes_node
  rw [hNode] at hClashes
  exact hClashes.not_linearizes hOrder

theorem resultDiagnostic?_eq_some_iff {diagnostic : Diagnostic} :
    resultDiagnostic? hierarchy node result = some diagnostic ↔
      ∃ failure, result = .error failure ∧ isInherited node failure = false ∧
        hierarchy.failureDiagnostic node failure = diagnostic := by
  cases result with
  | ok order => simp [resultDiagnostic?]
  | error failure =>
      cases hInherited : isInherited node failure <;> simp [resultDiagnostic?, hInherited]

/-- The diagnostics of the results in the given order. -/
def reportsInOrder (shardOf : Nat × Node → Fin 16) (hierarchy : Hierarchy) (policy : Policy)
    (limit : Nat) (order : List ClassId) : List Diagnostic :=
  (resultsInOrder shardOf hierarchy policy limit order).filterMap fun (node, result) =>
    resultDiagnostic? hierarchy node result

/-- The diagnostics of the results, in the order of the file. -/
abbrev checkDiagnostics (shardOf : Nat × Node → Fin 16) (hierarchy : Hierarchy)
    (policy : Policy) (limit : Nat) : List Diagnostic :=
  reportsInOrder shardOf hierarchy policy limit hierarchy.declared

section

variable {order : List ClassId}

theorem mem_reportsInOrder_iff {diagnostic : Diagnostic} :
    diagnostic ∈ reportsInOrder shardOf hierarchy policy limit order ↔ ∃ node failure,
      (node, .error failure) ∈ resultsInOrder shardOf hierarchy policy limit order ∧
        isInherited node failure = false ∧
          hierarchy.failureDiagnostic node failure = diagnostic := by
  simp only [reportsInOrder, List.mem_filterMap, Prod.exists, resultDiagnostic?_eq_some_iff]
  constructor
  · rintro ⟨node, result, hResult, failure, rfl, hRest⟩
    exact ⟨node, failure, hResult, hRest⟩
  · rintro ⟨node, failure, hResult, hRest⟩
    exact ⟨node, _, hResult, failure, rfl, hRest⟩

theorem isError_of_mem_reportsInOrder {diagnostic : Diagnostic}
    (h : diagnostic ∈ reportsInOrder shardOf hierarchy policy limit order) :
    diagnostic.isError = true := by
  obtain ⟨node, failure, _, _, rfl⟩ := mem_reportsInOrder_iff.1 h
  exact isError_failureDiagnostic hierarchy node failure

theorem exists_result_of_mem {id : ClassId} (hId : id ∈ order) :
    ∃ result, (.ofClass id, result) ∈ resultsInOrder shardOf hierarchy policy limit order := by
  have hMember : Node.ofClass id ∈
      (resultsInOrder shardOf hierarchy policy limit order).map Prod.fst := by
    rw [map_fst_resultsInOrder]
    exact List.mem_map_of_mem hId
  obtain ⟨⟨_, result⟩, hResult, rfl⟩ := List.mem_map.1 hMember
  exact ⟨result, hResult⟩

theorem exists_id_of_mem_resultsInOrder
    (h : (node, result) ∈ resultsInOrder shardOf hierarchy policy limit order) :
    ∃ id ∈ order, node = .ofClass id := by
  have hNode : node ∈ order.map Node.ofClass := by
    rw [← map_fst_resultsInOrder shardOf hierarchy policy limit]
    exact List.mem_map_of_mem (f := Prod.fst) h
  obtain ⟨id, hId, hSame⟩ := List.mem_map.1 hNode
  exact ⟨id, hId, hSame.symm⟩

variable {source : String} (hLoad : load source = .ok hierarchy)
  (hOrder : order.Perm hierarchy.declared)
include hLoad hOrder

/-- A type that is passed over fails because of a type of the file that is reported, whatever the
order. -/
theorem exists_reported_of_inherited {conflict : Conflict Node}
    (h : (node, .error (.inconsistent conflict)) ∈
      resultsInOrder shardOf hierarchy policy limit order) :
    ∃ id ∈ hierarchy.declared, conflict.node = .ofClass id ∧
      ∃ failure, (conflict.node, .error failure) ∈
          resultsInOrder shardOf hierarchy policy limit order ∧
        isInherited conflict.node failure = false := by
  obtain ⟨declarations, _, _, hMeans⟩ := Hierarchy.means_of_load hLoad
  obtain ⟨id, hId, rfl⟩ := exists_id_of_mem_resultsInOrder h
  have hMeets : MeetsClash (policy.parents hierarchy.catalog.relations) (.ofClass id) conflict := by
    have hAnswer := answer_of_mem_resultsInOrder h
    cases hAnswer with
    | inconsistent hMeets => exact hMeets
  obtain ⟨other, hOther, hConflict⟩ :=
    exists_declared_of_meetsClash hMeans (hOrder.mem_iff.1 hId) hMeets
  refine ⟨other, hOther, hConflict, ?_⟩
  obtain ⟨result, hResult⟩ : ∃ result,
      (conflict.node, result) ∈ resultsInOrder shardOf hierarchy policy limit order :=
    hConflict ▸ exists_result_of_mem (hOrder.mem_iff.2 hOther)
  have hOwn := hMeets.clashes_node
  have hAnswer := answer_of_mem_resultsInOrder hResult
  -- Of itself the node has no linearization, and no conflict but its own.
  cases hAnswer with
  | ok hOrder => exact absurd hOrder hOwn.not_linearizes
  | inconsistent hOther =>
      refine ⟨_, hResult, ?_⟩
      obtain rfl := (MeetsClash.own hOwn).unique hOther
      simp [isInherited]
  | tooDeep => exact ⟨_, hResult, rfl⟩

/-- Something is reported just when some type fails. -/
theorem reportsInOrder_eq_nil_iff :
    reportsInOrder shardOf hierarchy policy limit order = [] ↔
      ∀ item ∈ resultsInOrder shardOf hierarchy policy limit order, isFailure item.2 = false := by
  rw [List.eq_nil_iff_forall_not_mem]
  constructor
  · rintro hNone ⟨node, result⟩ hItem
    cases result with
    | ok order => rfl
    | error failure =>
        cases hInherited : isInherited node failure with
        | false =>
            exact absurd (mem_reportsInOrder_iff.2 ⟨_, _, hItem, hInherited, rfl⟩) (hNone _)
        | true =>
            cases failure with
            | inconsistent conflict =>
                obtain ⟨_, _, _, _, hFailure, hOwn⟩ :=
                  exists_reported_of_inherited hLoad hOrder hItem
                exact absurd (mem_reportsInOrder_iff.2 ⟨_, _, hFailure, hOwn, rfl⟩) (hNone _)
            | tooDeep => cases hInherited
  · intro hAll diagnostic hDiagnostic
    obtain ⟨node, failure, hItem, _⟩ := mem_reportsInOrder_iff.1 hDiagnostic
    cases hAll _ hItem

end

theorem check_eq {source : String} (shardOf : Nat × Node → Fin 16)
    (hLoad : load source = .ok hierarchy) (isTerminal : Bool) (path : String)
    (options : Options) :
    check shardOf isTerminal path source options =
      transcript (options.reportStyle isTerminal path)
        (hierarchy.warnings.map (·.diagnostic) ++
          checkDiagnostics shardOf hierarchy options.policy options.maxDepth)
        (verdict path ((checkResults shardOf hierarchy options.policy options.maxDepth).countP
          fun (_, result) => isFailure result) hierarchy.declared.length) := by
  have hLength : (checkResults shardOf hierarchy options.policy options.maxDepth).length =
      hierarchy.declared.length := by
    rw [← List.length_map (f := Prod.fst), map_fst_resultsInOrder, List.length_map]
  rw [check, onHierarchy_of_load hLoad, ← hLength]
  rfl

theorem any_isError_warnings (warnings : List Hierarchy.Warning) :
    (warnings.map (·.diagnostic)).any (·.isError) = false := by
  simp [Hierarchy.Warning.diagnostic, Diagnostic.isError]

theorem any_isError_eq_false_iff {diagnostics : List Diagnostic}
    (hErrors : ∀ diagnostic ∈ diagnostics, diagnostic.isError = true) :
    diagnostics.any (·.isError) = false ↔ diagnostics = [] := by
  rw [List.any_eq_false, List.eq_nil_iff_forall_not_mem]
  constructor
  · exact fun h diagnostic hDiagnostic => h diagnostic hDiagnostic (hErrors diagnostic hDiagnostic)
  · exact fun h diagnostic hDiagnostic => absurd hDiagnostic (h diagnostic)

/-- A command succeeds just when it reports nothing behind the warnings of the file, if all that
it may report there are errors. -/
theorem ok_transcript_iff {diagnostics : List Diagnostic}
    (hErrors : ∀ diagnostic ∈ diagnostics, diagnostic.isError = true) (style : ReportStyle)
    (warnings : List Hierarchy.Warning) (out : Bool → String) :
    (transcript style (warnings.map (·.diagnostic) ++ diagnostics) out).ok = true ↔
      diagnostics = [] := by
  rw [transcript, List.any_append, any_isError_warnings, Bool.false_or, Bool.not_eq_true',
    any_isError_eq_false_iff hErrors]

/-- The verdict is good just when nothing is reported but warnings. -/
theorem ok_check_iff {source : String} (shardOf : Nat × Node → Fin 16)
    (hLoad : load source = .ok hierarchy) (isTerminal : Bool) (path : String)
    (options : Options) :
    (check shardOf isTerminal path source options).ok = true ↔
      checkDiagnostics shardOf hierarchy options.policy options.maxDepth = [] := by
  rw [check_eq shardOf hLoad]
  exact ok_transcript_iff (fun _ => isError_of_mem_reportsInOrder) ..

/-- A conflict is reported under the name of its own type. -/
theorem message_of_resultDiagnostic? {id : ClassId} {diagnostic : Diagnostic}
    (h : resultDiagnostic? hierarchy (.ofClass id) result = some diagnostic)
    (hCode : diagnostic.code = .inconsistent) :
    diagnostic.message = "inconsistent precedence while linearizing `" ++
      hierarchy.catalog.className id ++ "`" := by
  obtain ⟨failure, rfl, hOwn, rfl⟩ := resultDiagnostic?_eq_some_iff.1 h
  cases failure with
  | inconsistent conflict =>
      have hNode : conflict.node = .ofClass id := by simpa [isInherited] using hOwn
      simp [Hierarchy.failureDiagnostic, Failure.diagnostic, Conflict.diagnostic, hNode,
        Node.written, Element.written, Node.ofClass]
  | tooDeep => cases hCode

/-- No two conflicts are reported under one name. -/
theorem nodup_messages {source : String} (hLoad : load source = .ok hierarchy) :
    (((checkDiagnostics shardOf hierarchy policy limit).filter (·.code = .inconsistent)).map
      (·.message)).Nodup := by
  obtain ⟨declarations, _, hCoherent, hMeans⟩ := Hierarchy.means_of_load hLoad
  have hDeclared : hierarchy.declared.Nodup := hMeans.declared ▸ Hierarchy.nodup_declaredIds _
  have hNodes : ((checkResults shardOf hierarchy policy limit).map Prod.fst).Nodup := by
    rw [map_fst_resultsInOrder]
    exact hDeclared.map Node.ofClass_injective
  have hMember : ∀ item ∈ checkResults shardOf hierarchy policy limit,
      ∃ id ∈ hierarchy.declared, item.1 = .ofClass id :=
    fun _ hItem => exists_id_of_mem_resultsInOrder hItem
  rw [List.Nodup, List.pairwise_map] at hNodes
  rw [List.Nodup, List.pairwise_map, List.pairwise_filter, checkDiagnostics,
    reportsInOrder, List.pairwise_filterMap]
  apply hNodes.imp_of_mem
  rintro ⟨first, firstResult⟩ ⟨second, secondResult⟩ hFirst hSecond hDifferent one hOne two hTwo
    hOneCode hTwoCode hSame
  obtain ⟨id, hId, rfl⟩ := hMember _ hFirst
  obtain ⟨other, hOther, rfl⟩ := hMember _ hSecond
  rw [message_of_resultDiagnostic? hOne (by simpa using hOneCode),
    message_of_resultDiagnostic? hTwo (by simpa using hTwoCode), String.append_left_inj,
    String.append_right_inj] at hSame
  have hKnown := (hMeans.mem_declared_iff.1 hId).1
  have hOtherKnown := (hMeans.mem_declared_iff.1 hOther).1
  have hOneType := hMeans.eq_of_className hCoherent.distinct hKnown hOtherKnown hSame
  exact hDifferent (congrArg Node.ofClass hOneType)

/-- However the shared cache spreads its keys, every type declared in a file that is loaded gets one
result: what its linearization through the cache gives at its turn, and hence its linearization, its
conflict or a chain of parents that is too long. The verdict on the file says truly whether every
declared type has got its linearization, and the number of failures agrees with it. A type that is
passed over fails because of another declared type, which is reported, and no type is reported for
two conflicts. -/
theorem check_honest {source : String} (shardOf : Nat × Node → Fin 16)
    (hLoad : load source = .ok hierarchy) (isTerminal : Bool) (path : String)
    (options : Options) :
    let parents := options.policy.parents hierarchy.catalog.relations
    let results := checkResults shardOf hierarchy options.policy options.maxDepth
    let failed := results.countP fun (_, result) => isFailure result
    let diagnostics := hierarchy.warnings.map (·.diagnostic) ++
      results.filterMap fun (node, result) => resultDiagnostic? hierarchy node result
    let outcome := check shardOf isTerminal path source options
    results.map Prod.fst = hierarchy.declared.map Node.ofClass ∧
      (∀ node result, (node, result) ∈ results →
        (∃ cache : OrderCache Node, cache.Sound (fun _ => parents) ∧
          result = (OrderCache.getOrLinearize parents 0 options.maxDepth node cache).1) ∧
        Walk.Answer parents options.maxDepth node result) ∧
      (outcome.ok = true ↔ ∀ item ∈ results, ∃ order, item.2 = .ok order) ∧
      (outcome.ok = true ↔ failed = 0) ∧
      outcome.out = verdict path failed hierarchy.declared.length outcome.ok ∧
      outcome.err = (options.reportStyle isTerminal path).report diagnostics ∧
      (∀ node conflict, (node, .error (.inconsistent conflict)) ∈ results →
        conflict.node ≠ node → ∃ id ∈ hierarchy.declared, conflict.node = .ofClass id ∧
          ∃ failure, (conflict.node, .error failure) ∈ results ∧
            hierarchy.failureDiagnostic conflict.node failure ∈ diagnostics) ∧
      ((diagnostics.filter (·.code = .inconsistent)).map (·.message)).Nodup := by
  intro parents results failed diagnostics outcome
  have hOk : outcome.ok = true ↔ ∀ item ∈ results, isFailure item.2 = false :=
    (ok_check_iff shardOf hLoad isTerminal path options).trans
      (reportsInOrder_eq_nil_iff hLoad (.refl _))
  have hResult (node : Node) (result : Except (Failure Node) (Linearization Node))
      (hItem : (node, result) ∈ results) :=
    And.intro (exists_cache_of_mem_resultsInOrder hItem) (answer_of_mem_resultsInOrder hItem)
  refine ⟨map_fst_resultsInOrder .., hResult, ?_, ?_, ?_, ?_, ?_, ?_⟩
  · rw [hOk]
    apply forall₂_congr
    rintro ⟨node, result⟩ _
    cases result <;> simp [isFailure]
  · rw [hOk, List.countP_eq_zero]
    simp
  · have hOutcome : outcome = _ := check_eq shardOf hLoad isTerminal path options
    rw [hOutcome]
    rfl
  · exact congrArg Transcript.err (check_eq shardOf hLoad ..)
  · intro node conflict hItem _
    obtain ⟨id, hId, hNode, failure, hFailure, hOwn⟩ :=
      exists_reported_of_inherited hLoad (.refl _) hItem
    exact ⟨id, hId, hNode, failure, hFailure, List.mem_append_right _
      (mem_reportsInOrder_iff.2 ⟨_, _, hFailure, hOwn, rfl⟩)⟩
  · have hWarnings : (hierarchy.warnings.map (·.diagnostic)).filter
        (fun diagnostic => diagnostic.code = .inconsistent) = [] := by
      simp [Hierarchy.Warning.diagnostic]
    rw [List.filter_append, hWarnings]
    exact nodup_messages hLoad

section

variable (hMeans : Means Hierarchy.tangledDeclarations hierarchy)
include hMeans

/-- The first class of that file extends the second one, which implements both interfaces. -/
theorem chainsWithin_tangled : ∀ id ∈ [⟨3⟩, ⟨4⟩, ⟨5⟩, ⟨6⟩],
    ChainsWithin (Policy.superclassFirst.parents hierarchy.catalog.relations) 5
      (.ofClass id) := by
  obtain ⟨hSub, _, _, hMix⟩ := Hierarchy.parents_tangled hMeans
  obtain ⟨hRoot, hFirst, hSecond⟩ := Hierarchy.orders_tangled hMeans
  have hMixChains : ChainsWithin (Policy.superclassFirst.parents hierarchy.catalog.relations) 4
      (.ofClass ⟨6⟩) := by
    apply ChainsWithin.of_parents
    simp only [hMix, List.forall_mem_cons]
    exact ⟨hFirst.chainsWithin (by decide), hSecond.chainsWithin (by decide),
      hRoot.chainsWithin (by decide), nofun⟩
  simp only [List.forall_mem_cons]
  refine ⟨?_, hFirst.chainsWithin (by decide), hSecond.chainsWithin (by decide),
    hMixChains.mono (by decide), nofun⟩
  apply ChainsWithin.of_parents
  simpa only [hSub, List.forall_mem_singleton] using hMixChains

/-- The second class of that file lists an interface in front of one that extends it. -/
theorem not_linearizes_tangled (order : Linearization Node) :
    ¬Linearizes (Policy.superclassFirst.parents hierarchy.catalog.relations) (.ofClass ⟨6⟩)
      order := by
  obtain ⟨_, _, hExtends, hMix⟩ := Hierarchy.parents_tangled hMeans
  have hReach : Reaches (Policy.superclassFirst.parents hierarchy.catalog.relations)
      (.ofClass ⟨5⟩) (.ofClass ⟨4⟩) := by
    apply Relation.ReflTransGen.single
    rw [DirectParent, hExtends]
    exact List.mem_cons_self
  intro hOrder
  refine hOrder.not_reaches_of_listed ?_ (by decide) hReach
  rw [hMix]
  simp

end

/-- The second class of that file has no linearization. -/
theorem check_honest_tangled : ∃ hierarchy, load Hierarchy.tangledSource = .ok hierarchy ∧
    let results := checkResults (fun _ => 0) hierarchy .superclassFirst defaultLimit
    (check (fun _ => 0) false "types" Hierarchy.tangledSource {}).ok = false ∧
    0 < (results.countP fun (_, result) => isFailure result) ∧
    ∃ result, (.ofClass ⟨6⟩, result) ∈ results ∧
      Walk.Answer (Policy.superclassFirst.parents hierarchy.catalog.relations) defaultLimit
        (.ofClass ⟨6⟩) result ∧ isFailure result = true := by
  obtain ⟨hierarchy, hLoad, hMeans⟩ :=
    Hierarchy.declares_tangled.exists_means Hierarchy.coherent_tangled
  obtain ⟨_, hAnswers, _, hCount, _⟩ := check_honest (fun _ => 0) hLoad false "types" {}
  obtain ⟨result, hItem⟩ : ∃ result, (.ofClass ⟨6⟩, result) ∈
      checkResults (fun _ => 0) hierarchy .superclassFirst defaultLimit :=
    exists_result_of_mem (hMeans.declared ▸ by decide)
  have hAnswer := (hAnswers _ _ hItem).2
  have hFailure : isFailure result = true := by
    cases result with
    | error failure => rfl
    | ok order =>
        cases hAnswer with
        | ok hOrder => exact absurd hOrder (not_linearizes_tangled hMeans order)
  have hFailed : 0 < (checkResults (fun _ => 0) hierarchy .superclassFirst defaultLimit).countP
      fun (_, result) => isFailure result :=
    List.countP_pos_iff.2 ⟨_, hItem, hFailure⟩
  refine ⟨hierarchy, hLoad, ?_, hFailed, result, hItem, hAnswer, hFailure⟩
  rw [← Bool.not_eq_true, hCount]
  exact Nat.ne_of_gt hFailed

end Ancestry.Command
