import Ancestry.Proofs.Cache.Stored
import Ancestry.Proofs.Check
import Ancestry.Proofs.Hierarchy.Order
import Ancestry.Proofs.Session.MissingEntries

/-! The order in which the types of a file are checked. They share one cache, and a type that is in
the cache is not entered again, so that a chain of parents which is longer than the limit fails if
it is walked in one go and passes if its lower part has been linearized before. Main statement: that
is the only way in which the verdict depends on the order (`Command.check_in_any_order`). -/
namespace Ancestry.Command

open Hierarchy (load Means)

variable {shardOf : Nat × Node → Fin 16} {hierarchy : Hierarchy} {policy : Policy} {limit : Nat}
  {id : ClassId} {result : Except (Failure Node) (Linearization Node)} {order : List ClassId}

/-- Whether no error is reported, and how many types fail, when the types are linearized in the
given order. -/
def verdictInOrder (shardOf : Nat × Node → Fin 16) (hierarchy : Hierarchy) (policy : Policy)
    (limit : Nat) (order : List ClassId) : Bool × Nat :=
  (!(reportsInOrder shardOf hierarchy policy limit order).any (·.isError),
    (resultsInOrder shardOf hierarchy policy limit order).countP
      fun (_, result) => isFailure result)

/-- Whatever the order, the verdict is good just when no type fails. -/
theorem verdictInOrder_iff {source : String} (hLoad : load source = .ok hierarchy)
    (hOrder : order.Perm hierarchy.declared) :
    (verdictInOrder shardOf hierarchy policy limit order).1 = true ↔
      (verdictInOrder shardOf hierarchy policy limit order).2 = 0 := by
  rw [verdictInOrder, Bool.not_eq_true',
    any_isError_eq_false_iff fun _ => isError_of_mem_reportsInOrder,
    reportsInOrder_eq_nil_iff hLoad hOrder, List.countP_eq_zero]
  simp

/-- The command gives the verdict of the order of the file. -/
theorem check_eq_verdict {source : String} (shardOf : Nat × Node → Fin 16)
    (hLoad : load source = .ok hierarchy) (isTerminal : Bool) (path : String)
    (options : Options) :
    let inOrder :=
      verdictInOrder shardOf hierarchy options.policy options.maxDepth hierarchy.declared
    (check shardOf isTerminal path source options).ok = inOrder.1 ∧
      (check shardOf isTerminal path source options).out =
        verdict path inOrder.2 hierarchy.declared.length inOrder.1 := by
  rw [check_eq shardOf hLoad]
  simp only [transcript, List.any_append, any_isError_warnings, Bool.false_or]
  exact ⟨rfl, rfl⟩

/-- No chain of parents from a declared type that has a linearization is longer than the limit. -/
def KeepsLimit (hierarchy : Hierarchy) (policy : Policy) (limit : Nat) : Prop :=
  ∀ id ∈ hierarchy.declared,
    (∃ order, Linearizes (policy.parents hierarchy.catalog.relations) (.ofClass id) order) →
      ChainsWithin (policy.parents hierarchy.catalog.relations) limit (.ofClass id)

/-- A type with a linearization gets it, unless a chain of parents is longer than the limit. -/
theorem result_of_linearizes {linearization : Linearization Node}
    (hResult : (.ofClass id, result) ∈ resultsInOrder shardOf hierarchy policy limit order)
    (hLinearizes : Linearizes (policy.parents hierarchy.catalog.relations) (.ofClass id)
      linearization) :
    result = .ok linearization ∨ ∃ deep chain,
      result = .error (.tooDeep (.ofClass id) deep limit chain) ∧
        chain.head? = some (.ofClass id) ∧
        List.IsChain (DirectParent (policy.parents hierarchy.catalog.relations))
          (chain ++ [deep]) ∧
        limit < (chain ++ [deep]).length := by
  have hAnswer := answer_of_mem_resultsInOrder hResult
  by_cases hLimit : Walk.HitsLimit result
  · obtain ⟨root, deep, bound, chain, rfl⟩ := hLimit
    obtain ⟨rfl, rfl, hLength, hHead, hChain⟩ := hAnswer.chain_of_tooDeep
    refine .inr ⟨deep, chain, rfl, hHead, hChain, ?_⟩
    rw [List.length_append, hLength, List.length_singleton]
    omega
  · exact .inl (hAnswer.eq_ok hLinearizes hLimit)

theorem exists_failure_of_not_linearizes
    (hResult : (.ofClass id, result) ∈ resultsInOrder shardOf hierarchy policy limit order)
    (hNone : ¬∃ linearization,
      Linearizes (policy.parents hierarchy.catalog.relations) (.ofClass id) linearization) :
    ∃ failure, result = .error failure := by
  have hAnswer := answer_of_mem_resultsInOrder hResult
  cases hAnswer with
  | ok hLinearizes => exact absurd ⟨_, hLinearizes⟩ hNone
  | inconsistent => exact ⟨_, rfl⟩
  | tooDeep => exact ⟨_, rfl⟩

/-- Within the limit, just those types fail that have no linearization. -/
theorem KeepsLimit.isFailure_iff (h : KeepsLimit hierarchy policy limit)
    (hId : id ∈ hierarchy.declared)
    (hResult : (.ofClass id, result) ∈ resultsInOrder shardOf hierarchy policy limit order) :
    isFailure result = true ↔ ¬∃ linearization,
      Linearizes (policy.parents hierarchy.catalog.relations) (.ofClass id) linearization := by
  have hAnswer := answer_of_mem_resultsInOrder hResult
  constructor
  · rintro hFails ⟨linearization, hLinearizes⟩
    have hLimit := hAnswer.not_hitsLimit_of_chains (h id hId ⟨_, hLinearizes⟩)
    rw [hAnswer.eq_ok hLinearizes hLimit] at hFails
    cases hFails
  · intro hNone
    obtain ⟨failure, rfl⟩ := exists_failure_of_not_linearizes hResult hNone
    rfl

open Classical in
/-- Within the limit, the failures are counted without regard to the results. -/
theorem KeepsLimit.countP_eq (h : KeepsLimit hierarchy policy limit)
    (hOrder : order.Perm hierarchy.declared) :
    (verdictInOrder shardOf hierarchy policy limit order).2 = hierarchy.declared.countP fun id =>
      decide (¬∃ linearization,
        Linearizes (policy.parents hierarchy.catalog.relations) (.ofClass id) linearization) := by
  let lacks (node : Node) : Bool := decide (¬∃ linearization,
    Linearizes (policy.parents hierarchy.catalog.relations) node linearization)
  calc (verdictInOrder shardOf hierarchy policy limit order).2
    _ = (resultsInOrder shardOf hierarchy policy limit order).countP (lacks ∘ Prod.fst) := by
      refine List.countP_congr fun item hItem => ?_
      obtain ⟨node, result⟩ := item
      obtain ⟨id, hId, rfl⟩ := exists_id_of_mem_resultsInOrder hItem
      rw [h.isFailure_iff (hOrder.mem_iff.1 hId) hItem]
      simp [lacks]
    _ = order.countP (lacks ∘ Node.ofClass) := by
      rw [← List.countP_map, map_fst_resultsInOrder, List.countP_map]
    _ = hierarchy.declared.countP (lacks ∘ Node.ofClass) := hOrder.countP_eq _

/-- Within the limit, the verdict is the same for every order and every choice of shards. -/
theorem KeepsLimit.verdictInOrder_eq {source : String} (h : KeepsLimit hierarchy policy limit)
    (shardOf otherShardOf : Nat × Node → Fin 16) (hLoad : load source = .ok hierarchy)
    (hOrder : order.Perm hierarchy.declared) :
    verdictInOrder shardOf hierarchy policy limit order =
      verdictInOrder otherShardOf hierarchy policy limit hierarchy.declared := by
  have hCount : (verdictInOrder shardOf hierarchy policy limit order).2 =
      (verdictInOrder otherShardOf hierarchy policy limit hierarchy.declared).2 :=
    (h.countP_eq hOrder).trans (h.countP_eq (.refl _)).symm
  refine Prod.ext ?_ hCount
  rw [Bool.eq_iff_iff, verdictInOrder_iff hLoad hOrder, verdictInOrder_iff hLoad (.refl _), hCount]

section

variable {otherHierarchy : Hierarchy} {rename : ClassId → ClassId}
  (h : KeepsLimit hierarchy policy limit)
  (hRenames : hierarchy.catalog.relations.Renames rename otherHierarchy.catalog.relations)
  (hDeclared : otherHierarchy.declared.Perm (hierarchy.declared.map rename))
include hRenames

omit h in
theorem exists_linearizes_renamed_class_iff (id : ClassId) :
    (∃ linearization, Linearizes (policy.parents otherHierarchy.catalog.relations)
        (.ofClass (rename id)) linearization) ↔
      ∃ linearization, Linearizes (policy.parents hierarchy.catalog.relations) (.ofClass id)
        linearization :=
  exists_linearizes_renamed_iff (Node.renamed_injective hRenames.injective)
    (hRenames.parents_eq policy) (.ofClass id)

include h hDeclared

theorem KeepsLimit.renamed : KeepsLimit otherHierarchy policy limit := by
  intro other hOther hLinearizes
  obtain ⟨id, hId, rfl⟩ := List.mem_map.1 (hDeclared.mem_iff.1 hOther)
  rw [exists_linearizes_renamed_class_iff hRenames] at hLinearizes
  show ChainsWithin _ limit ((Node.ofClass id).renamed rename)
  exact (h id hId hLinearizes).renamed (hRenames.parents_eq policy)

/-- Within the limit, the verdict does not depend on the identities. -/
theorem KeepsLimit.verdictInOrder_renamed {source other : String}
    (shardOf otherShardOf : Nat × Node → Fin 16) (hLoad : load source = .ok hierarchy)
    (hOther : load other = .ok otherHierarchy) :
    verdictInOrder otherShardOf otherHierarchy policy limit otherHierarchy.declared =
      verdictInOrder shardOf hierarchy policy limit hierarchy.declared := by
  have hCount :
      (verdictInOrder otherShardOf otherHierarchy policy limit otherHierarchy.declared).2 =
        (verdictInOrder shardOf hierarchy policy limit hierarchy.declared).2 := by
    rw [(h.renamed hRenames hDeclared).countP_eq (.refl _), hDeclared.countP_eq, List.countP_map,
      h.countP_eq (.refl _)]
    refine List.countP_congr fun id _ => ?_
    simpa using (exists_linearizes_renamed_class_iff hRenames id).not
  refine Prod.ext ?_ hCount
  rw [Bool.eq_iff_iff, verdictInOrder_iff hOther (.refl _), verdictInOrder_iff hLoad (.refl _),
    hCount]

end

/-- Within the limit, the lines may be moved, and the cache may choose other shards. -/
theorem KeepsLimit.check_of_perm {source other : String} {options : Options}
    (h : KeepsLimit hierarchy options.policy options.maxDepth)
    (shardOf otherShardOf : Nat × Node → Fin 16) (hLoad : load source = .ok hierarchy)
    (hLines : (Text.lines source.toList).Perm (Text.lines other.toList)) (isTerminal : Bool)
    (path : String) :
    (check otherShardOf isTerminal path other options).ok =
        (check shardOf isTerminal path source options).ok ∧
      (check otherShardOf isTerminal path other options).out =
        (check shardOf isTerminal path source options).out := by
  obtain ⟨otherHierarchy, hOther⟩ :=
    Hierarchy.exists_load_of_perm (Hierarchy.statements_perm hLines) ⟨hierarchy, hLoad⟩
  obtain ⟨rename, hRenames, hDeclared⟩ := Hierarchy.exists_renames_of_perm hLoad hOther hLines
  have hLength : otherHierarchy.declared.length = hierarchy.declared.length := by
    simpa using hDeclared.length_eq
  have hVerdict := h.verdictInOrder_renamed hRenames hDeclared shardOf otherShardOf hLoad hOther
  obtain ⟨hOk, hOut⟩ := check_eq_verdict shardOf hLoad isTerminal path options
  obtain ⟨hOtherOk, hOtherOut⟩ := check_eq_verdict otherShardOf hOther isTerminal path options
  rw [hOk, hOut, hOtherOk, hOtherOut, hVerdict, hLength]
  exact ⟨rfl, rfl⟩

section

variable {parents : Node → List Node} {top middle bottom : Node}
  (hTop : parents top = [middle]) (hMiddle : parents middle = [bottom])
  (hBottom : parents bottom = [])

include hMiddle hBottom in
theorem linearizes_middle : Linearizes parents middle ⟨middle, [bottom]⟩ :=
  .of_only_parent hMiddle (.of_no_parents hBottom)

include hTop hMiddle in
/-- A walk from the first of three nodes in a chain meets a limit of two. -/
theorem linearize_top_eq :
    Ancestry.linearize parents top 2 = .error (.tooDeep top bottom 2 [top, middle]) := by
  have hUnknown (node : Node) : Walk.lookup (Store.absent Node) node ∅ () = (none, ∅, ()) :=
    Walk.lookup_absent Std.HashMap.getElem?_empty
  rw [Ancestry.linearize, Walk.Setting.linearize, hUnknown]
  simp only [Walk.Setting.enter, hTop]
  rw [Walk.run_of_running (Walk.step_of_unknown rfl (hUnknown middle) (Nat.lt_succ_self 1))]
  simp only [Walk.Setting.enter, hMiddle]
  rw [Walk.run_of_finished (Walk.step_of_full rfl (hUnknown bottom) (Nat.le_refl 2))]
  rfl

include hMiddle hBottom in
/-- A walk from the second one does not, whatever the cache has. -/
theorem getOrLinearize_middle_eq {cache : OrderCache Node}
    (hCache : cache.Sound fun _ => parents) :
    (OrderCache.getOrLinearize parents 0 2 middle cache).1 = .ok ⟨middle, [bottom]⟩ := by
  have hMiddleOrder := linearizes_middle hMiddle hBottom
  have hAnswer := (OrderCache.getOrLinearize_sound hCache 0 2 middle).1
  exact hAnswer.eq_ok hMiddleOrder
    (hAnswer.not_hitsLimit_of_linearizes hMiddleOrder (Nat.le_refl 2))

include hTop hMiddle hBottom

theorem resultsThroughCache_top_first (capacity : Nat) (shardOf : Nat × Node → Fin 16) :
    resultsThroughCache parents 2 (Cache.empty capacity shardOf) [top, middle] =
      [(top, .error (.tooDeep top bottom 2 [top, middle])),
        (middle, .ok ⟨middle, [bottom]⟩)] := by
  have hEmpty := OrderCache.sound_empty (fun _ => parents) capacity shardOf
  have hFirst : (OrderCache.getOrLinearize parents 0 2 top (Cache.empty capacity shardOf)).1 =
      .error (.tooDeep top bottom 2 [top, middle]) := by
    rw [OrderCache.getOrLinearize_of_no_entries parents 2 top
      fun other order => Cache.not_holds_empty capacity shardOf]
    exact linearize_top_eq hTop hMiddle
  have hNext := (OrderCache.getOrLinearize_sound hEmpty 0 2 top).2
  simp only [resultsThroughCache, hFirst, getOrLinearize_middle_eq hMiddle hBottom hNext]

/-- When the node in the middle is in the cache, the upper one is not walked to the end. -/
theorem resultsThroughCache_middle_first (capacity : Nat) (shardOf : Nat × Node → Fin 16)
    (hCapacity : (Cache.empty capacity shardOf : OrderCache Node).shardCapacity ≠ 0) :
    resultsThroughCache parents 2 (Cache.empty capacity shardOf) [middle, top] =
      [(middle, .ok ⟨middle, [bottom]⟩), (top, .ok ⟨top, [middle, bottom]⟩)] := by
  have hEmpty := OrderCache.sound_empty (fun _ => parents) capacity shardOf
  have hFirst := getOrLinearize_middle_eq hMiddle hBottom hEmpty
  have hNext := (OrderCache.getOrLinearize_sound hEmpty 0 2 middle).2
  have hStored := OrderCache.stored?_getOrLinearize hEmpty hCapacity hFirst
  have hTopOrder : Linearizes parents top ⟨top, [middle, bottom]⟩ :=
    .of_only_parent hTop (linearizes_middle hMiddle hBottom)
  have hSecond := (OrderCache.getOrLinearize_sound hNext 0 2 top).1.eq_ok hTopOrder
    (OrderCache.getOrLinearize_not_hitsLimit 2 (by simpa [hTop] using hStored))
  simp only [resultsThroughCache, hFirst, hSecond]

end

/-- At a limit of two nodes, a type with a grandparent fails in front of its parent and passes
behind it. -/
theorem verdictInOrder_of_chain (shardOf : Nat × Node → Fin 16) {child parent : ClassId}
    {ancestor : Node}
    (hChild : policy.parents hierarchy.catalog.relations (.ofClass child) = [.ofClass parent])
    (hParent : policy.parents hierarchy.catalog.relations (.ofClass parent) = [ancestor])
    (hAncestor : policy.parents hierarchy.catalog.relations ancestor = []) :
    verdictInOrder shardOf hierarchy policy 2 [child, parent] = (false, 1) ∧
      verdictInOrder shardOf hierarchy policy 2 [parent, child] = (true, 0) := by
  have hDown :=
    resultsThroughCache_top_first hChild hParent hAncestor Cache.defaultCapacity shardOf
  have hUp := resultsThroughCache_middle_first hChild hParent hAncestor Cache.defaultCapacity
    shardOf (by simp [Cache.shardCapacity, Cache.empty, Cache.defaultCapacity, Cache.shardCount])
  constructor
  · simp [verdictInOrder, reportsInOrder, resultsInOrder, hDown, resultDiagnostic?, isInherited,
      isFailure, isError_failureDiagnostic]
  · simp [verdictInOrder, reportsInOrder, resultsInOrder, hUp, resultDiagnostic?, isFailure]

/-- A class without interfaces has its superclass for its only parent. -/
theorem parents_of_superclass {id superclass : ClassId} (hId : id ≠ .object)
    (hSuperclass : hierarchy.catalog.superclass? id = some superclass)
    (hInterfaces : hierarchy.catalog.interfaces id = []) :
    Policy.superclassFirst.parents hierarchy.catalog.relations (.ofClass id) =
      [.ofClass superclass] := by
  by_cases hRoot : superclass = .object <;>
    simp [Policy.classParents, Catalog.relations, hId, hSuperclass, hInterfaces, hRoot]

/-- Such a class passes at a limit of two nodes only behind the one that it extends. -/
theorem verdictInOrder_of_extends (shardOf : Nat × Node → Fin 16)
    {declarations : List Declaration} (child parent : Nat) {line otherLine : Nat}
    {name superclass : String} (hMeans : Means declarations hierarchy)
    (hChild : declarations[child]? = some ⟨line, .classType, name, some superclass, []⟩)
    (hParent : declarations[parent]? = some ⟨otherLine, .classType, superclass, none, []⟩)
    (hName : Hierarchy.idNamed? declarations superclass = some ⟨3 + parent⟩) :
    verdictInOrder shardOf hierarchy .superclassFirst 2 [⟨3 + child⟩, ⟨3 + parent⟩] = (false, 1) ∧
      verdictInOrder shardOf hierarchy .superclassFirst 2 [⟨3 + parent⟩, ⟨3 + child⟩] =
        (true, 0) := by
  have hOwn := hMeans.reflects child _ hChild
  have hOther := hMeans.reflects parent _ hParent
  have hDeclared (place : Nat) : (⟨3 + place⟩ : ClassId) ≠ .object := by
    simp [ClassId.object]
  exact verdictInOrder_of_chain shardOf
    (parents_of_superclass (hDeclared child) (hOwn.superclass.trans hName)
      (hOwn.interfaces_eq rfl))
    (parents_of_superclass (hDeclared parent) hOther.superclass (hOther.interfaces_eq rfl)) rfl

/-- A class in front of the one that it extends. -/
def childFirst : String := "class A extends B\nclass B"

/-- The same lines in the other order. -/
def parentFirst : String := "class B\nclass A extends B"

def childFirstDeclarations : List Declaration :=
  [⟨1, .classType, "A", some "B", []⟩, ⟨2, .classType, "B", none, []⟩]

def parentFirstDeclarations : List Declaration :=
  [⟨1, .classType, "B", none, []⟩, ⟨2, .classType, "A", some "B", []⟩]

theorem declares_childFirst : Hierarchy.Declares childFirst childFirstDeclarations :=
  Hierarchy.declares_iff.2 ⟨childFirstDeclarations.map some, by decide +kernel, rfl⟩

theorem declares_parentFirst : Hierarchy.Declares parentFirst parentFirstDeclarations :=
  Hierarchy.declares_iff.2 ⟨parentFirstDeclarations.map some, by decide +kernel, rfl⟩

theorem coherent_childFirst : Hierarchy.Coherent childFirstDeclarations where
  distinct := by decide
  known := by
    simp only [childFirstDeclarations, List.forall_mem_cons]
    refine ⟨⟨?_, ?_⟩, ⟨?_, ?_⟩, ?_⟩ <;> simp [Hierarchy.types, Hierarchy.predeclared]

theorem perm_lines_parentFirst :
    (Text.lines childFirst.toList).Perm (Text.lines parentFirst.toList) := by
  decide +kernel

/-- Let a file be loaded, and let its types be linearized in any order, with a shared cache that
spreads its keys in whatever way. The verdict is good just when no type fails. A type without a
linearization fails; a type with a linearization gets it unless the walk meets the limit, and then
it shows a chain of parents that is longer than the limit. Where no type with a linearization has
such a chain, the verdict and the number of failures are those of the order of the file, and the
command says the same of every file with the same lines, even if the keys are spread otherwise. -/
theorem check_in_any_order {source : String} (shardOf : Nat × Node → Fin 16)
    (hLoad : load source = .ok hierarchy) (isTerminal : Bool) (path : String) (options : Options)
    {order : List ClassId} (hOrder : order.Perm hierarchy.declared) :
    let parents := options.policy.parents hierarchy.catalog.relations
    let limit := options.maxDepth
    let results := resultsInOrder shardOf hierarchy options.policy limit order
    let inOrder := verdictInOrder shardOf hierarchy options.policy limit order
    let outcome := check shardOf isTerminal path source options
    results.map Prod.fst = order.map Node.ofClass ∧
      (inOrder.1 = true ↔ inOrder.2 = 0) ∧
      (∀ id result, (.ofClass id, result) ∈ results →
        (∀ linearization, Linearizes parents (.ofClass id) linearization →
          result = .ok linearization ∨ ∃ deep chain,
            result = .error (.tooDeep (.ofClass id) deep limit chain) ∧
              chain.head? = some (.ofClass id) ∧
              List.IsChain (DirectParent parents) (chain ++ [deep]) ∧
              limit < (chain ++ [deep]).length) ∧
        ((¬∃ linearization, Linearizes parents (.ofClass id) linearization) →
          ∃ failure, result = .error failure)) ∧
      (KeepsLimit hierarchy options.policy limit →
        outcome.ok = inOrder.1 ∧
          outcome.out = verdict path inOrder.2 hierarchy.declared.length inOrder.1 ∧
          ∀ other otherShardOf, (Text.lines source.toList).Perm (Text.lines other.toList) →
            (check otherShardOf isTerminal path other options).ok = outcome.ok ∧
              (check otherShardOf isTerminal path other options).out = outcome.out) := by
  intro parents limit results inOrder outcome
  refine ⟨map_fst_resultsInOrder .., verdictInOrder_iff hLoad hOrder, fun id result hResult => ?_,
    fun hKeeps => ?_⟩
  · exact ⟨fun _ => result_of_linearizes hResult, exists_failure_of_not_linearizes hResult⟩
  · have hVerdict : inOrder = _ := hKeeps.verdictInOrder_eq shardOf shardOf hLoad hOrder
    rw [hVerdict]
    obtain ⟨hOk, hOut⟩ := check_eq_verdict shardOf hLoad isTerminal path options
    exact ⟨hOk, hOut, fun _ otherShardOf hLines =>
      hKeeps.check_of_perm shardOf otherShardOf hLoad hLines isTerminal path⟩

/-- No chain of parents in that file has more than five nodes. -/
theorem check_in_any_order_tangled : ∃ hierarchy,
    load Hierarchy.tangledSource = .ok hierarchy ∧
    KeepsLimit hierarchy .superclassFirst defaultLimit ∧
    let outcome := check (fun _ => 0) false "types" Hierarchy.tangledSource {}
    let inOrder := verdictInOrder (fun _ => 0) hierarchy .superclassFirst defaultLimit
      [⟨6⟩, ⟨5⟩, ⟨4⟩, ⟨3⟩]
    inOrder.1 = false ∧ 0 < inOrder.2 ∧ outcome.ok = inOrder.1 ∧
      outcome.out = verdict "types" inOrder.2 4 inOrder.1 ∧
      (check (fun _ => 1) false "types" Hierarchy.tangledReversed {}).out = outcome.out := by
  obtain ⟨hierarchy, hLoad, hMeans⟩ :=
    Hierarchy.declares_tangled.exists_means Hierarchy.coherent_tangled
  have hDeclared : hierarchy.declared = [⟨3⟩, ⟨4⟩, ⟨5⟩, ⟨6⟩] := hMeans.declared
  have hOrder : ([⟨6⟩, ⟨5⟩, ⟨4⟩, ⟨3⟩] : List ClassId).Perm hierarchy.declared := by
    rw [hDeclared]
    decide
  have hKeeps : KeepsLimit hierarchy .superclassFirst defaultLimit := fun id hId _ =>
    (chainsWithin_tangled hMeans id (hDeclared ▸ hId)).mono (by decide)
  obtain ⟨_, hCount, hEach, hSame⟩ :=
    check_in_any_order (fun _ => 0) hLoad false "types" {} hOrder
  obtain ⟨hOk, hOut, hMoved⟩ := hSame hKeeps
  obtain ⟨result, hResult⟩ : ∃ result, (.ofClass ⟨6⟩, result) ∈
      resultsInOrder (fun _ => 0) hierarchy .superclassFirst defaultLimit
        [⟨6⟩, ⟨5⟩, ⟨4⟩, ⟨3⟩] :=
    exists_result_of_mem (by decide)
  obtain ⟨failure, rfl⟩ := (hEach _ _ hResult).2 fun ⟨linearization, hLinearizes⟩ =>
    not_linearizes_tangled hMeans linearization hLinearizes
  have hFails : 0 < (verdictInOrder (fun _ => 0) hierarchy .superclassFirst defaultLimit
      [⟨6⟩, ⟨5⟩, ⟨4⟩, ⟨3⟩]).2 :=
    List.countP_pos_iff.2 ⟨_, hResult, rfl⟩
  refine ⟨hierarchy, hLoad, hKeeps, ?_, hFails, hOk, ?_, ?_⟩
  · rw [← Bool.not_eq_true, hCount]
    exact Nat.ne_of_gt hFails
  · rwa [hDeclared] at hOut
  · exact (hMoved _ (fun _ => 1) Hierarchy.perm_lines_tangledReversed).2

/-- So the verdict may change when nothing but the order does, however the keys are spread: in front
of the class that it extends, a class is one of three nodes in a chain, and behind it the walk ends
at the cache. -/
theorem check_depends_on_order :
    (Text.lines childFirst.toList).Perm (Text.lines parentFirst.toList) ∧
    ∀ shardOf : Nat × Node → Fin 16,
      let outcome := check shardOf false "lib.txt" childFirst { maxDepth := 2 }
      let moved := check shardOf false "lib.txt" parentFirst { maxDepth := 2 }
      (outcome.ok = false ∧ outcome.out = "lib.txt: 1 of 2 types failed to linearize\n") ∧
      (moved.ok = true ∧ moved.out = "OK: lib.txt (2 types linearized)\n") ∧
      ∃ hierarchy, load childFirst = .ok hierarchy ∧ hierarchy.declared = [⟨3⟩, ⟨4⟩] ∧
        verdictInOrder shardOf hierarchy .superclassFirst 2 [⟨3⟩, ⟨4⟩] = (false, 1) ∧
        verdictInOrder shardOf hierarchy .superclassFirst 2 [⟨4⟩, ⟨3⟩] = (true, 0) := by
  obtain ⟨hierarchy, hLoad, hMeans⟩ := declares_childFirst.exists_means coherent_childFirst
  obtain ⟨otherHierarchy, hOther⟩ := Hierarchy.exists_load_of_perm
    (Hierarchy.statements_perm perm_lines_parentFirst) ⟨hierarchy, hLoad⟩
  obtain ⟨_, hFound, _, hOtherMeans⟩ := Hierarchy.means_of_load hOther
  obtain rfl := hFound.unique declares_parentFirst
  have hDeclared : hierarchy.declared = [⟨3⟩, ⟨4⟩] := hMeans.declared
  have hOtherDeclared : otherHierarchy.declared = [⟨3⟩, ⟨4⟩] := hOtherMeans.declared
  refine ⟨perm_lines_parentFirst, fun shardOf => ?_⟩
  obtain ⟨hFails, hPasses⟩ := verdictInOrder_of_extends shardOf 0 1 hMeans rfl rfl rfl
  obtain ⟨_, hOtherPasses⟩ := verdictInOrder_of_extends shardOf 1 0 hOtherMeans rfl rfl rfl
  obtain ⟨hOk, hOut⟩ := check_eq_verdict shardOf hLoad false "lib.txt" { maxDepth := 2 }
  obtain ⟨hOtherOk, hOtherOut⟩ :=
    check_eq_verdict shardOf hOther false "lib.txt" { maxDepth := 2 }
  rw [hDeclared, hFails] at hOk hOut
  rw [hOtherDeclared, hOtherPasses] at hOtherOk hOtherOut
  exact ⟨⟨hOk, hOut⟩, ⟨hOtherOk, hOtherOut⟩, hierarchy, hLoad, hDeclared, hFails, hPasses⟩

end Ancestry.Command
