import Ancestry.Proofs.Arrays
import Ancestry.Proofs.Hierarchy.Kinds
import Ancestry.Proofs.Requests

/-! The conflicts that are reported. The direct parents of a node of a loaded file are different
from each other, so that no linearization and no list of parents keeps one of its own nodes from
coming next. Main statement: in every conflict at least two nodes keep each other from coming next,
and the report names them (`Command.conflict_genuine`). -/
namespace Ancestry

section

variable {α : Type} [DecidableEq α]

theorem Conflict.mem_conflicting_iff {conflict : Conflict α} {node : α} :
    node ∈ conflict.conflicting ↔ ∃ rest, node :: rest ∈ conflict.remaining := by
  simp only [conflicting, List.mem_eraseDups, List.mem_filterMap, List.head?_eq_some_iff]
  constructor
  · rintro ⟨_, hInput, rest, rfl⟩
    exact ⟨rest, hInput⟩
  · exact fun ⟨rest, hInput⟩ => ⟨_, hInput, rest, rfl⟩

/-- There are at least two nodes in conflict, and each stands behind another one of them. -/
structure Conflict.Genuine (conflict : Conflict α) : Prop where
  nodup : conflict.conflicting.Nodup
  two_le_length : 2 ≤ conflict.conflicting.length
  exists_head : ∀ node ∈ conflict.conflicting, ∃ head ∈ conflict.conflicting, head ≠ node ∧
    ∃ rest, head :: rest ∈ conflict.remaining ∧ node ∈ rest

/-- A merge of orders without repetition gets stuck in such a conflict. -/
theorem Merge.Stuck.genuine {originals : List (List α)} {conflict : Conflict α}
    (h : Stuck originals conflict) (hNodup : ∀ original ∈ originals, original.Nodup) :
    conflict.Genuine := by
  have hBehind : ∀ node ∈ conflict.conflicting, ∃ head ∈ conflict.conflicting, head ≠ node ∧
      ∃ rest, head :: rest ∈ conflict.remaining ∧ node ∈ rest := by
    intro node hNode
    have hBlocked := h.not_eligible node
    simp only [Eligible, Conflict.mem_conflicting_iff.1 hNode, true_and, not_forall,
      not_not] at hBlocked
    obtain ⟨input, hInput, hTail⟩ := hBlocked
    cases input with
    | nil => cases hTail
    | cons head rest =>
        have hHead : head ∉ rest := (List.nodup_cons.1 (h.nodup hNodup _ hInput)).1
        exact ⟨head, Conflict.mem_conflicting_iff.2 ⟨rest, hInput⟩,
          fun hSame => hHead (hSame ▸ hTail), rest, hInput, hTail⟩
  obtain ⟨input, hInput, hNonempty⟩ := h.left
  obtain ⟨node, rest, rfl⟩ := List.exists_cons_of_ne_nil hNonempty
  have hNode : node ∈ conflict.conflicting := Conflict.mem_conflicting_iff.2 ⟨rest, hInput⟩
  obtain ⟨head, hHead, hNe, _⟩ := hBehind node hNode
  have hPair : [head, node].Nodup := by simpa using hNe
  exact ⟨nodup_eraseDups _, hPair.length_le_of_subset (by simp [hHead, hNode]), hBehind⟩

variable [Hashable α]

/-- Where no parent is repeated, every conflict is such a one. -/
theorem MeetsClash.genuine {parents : α → List α} {node : α} {conflict : Conflict α}
    (h : MeetsClash parents node conflict) (hNodup : ∀ node, (parents node).Nodup) :
    conflict.Genuine := by
  have hClash := h.clashes_node
  obtain ⟨orders, hParents, _⟩ := hClash
  refine (h.clashes_node.stuck hParents).genuine fun original hOriginal => ?_
  rw [List.mem_append, List.mem_map, List.mem_singleton] at hOriginal
  rcases hOriginal with ⟨parent, hParent, rfl⟩ | rfl
  · exact (hParents parent hParent).nodup
  · exact hNodup conflict.node

end

namespace Policy

variable {policy : Policy} {relations : Relations}

/-- No class is among the interfaces of a type. -/
theorem not_mem_interfaces (hOrdinary : relations.Ordinary) {id other : ClassId}
    (hOther : relations.isInterface other = false) : other ∉ relations.interfaces id := by
  intro hMember
  rw [hOrdinary.isInterface_of_mem id other hMember] at hOther
  cases hOther

theorem nodup_interfacesOrRoot {interfaces : List ClassId} (hInterfaces : interfaces.Nodup)
    (root : ClassId) : (interfacesOrRoot interfaces root).Nodup := by
  unfold interfacesOrRoot
  split
  · exact List.nodup_singleton root
  · exact hInterfaces

theorem nodup_classParents (hOrdinary : relations.Ordinary) (hKinds : relations.WellKinded)
    (id : ClassId) : (policy.classParents relations id).Nodup := by
  have hInterfaces := hKinds.nodup_interfaces id
  have hOrRoot := nodup_interfacesOrRoot hInterfaces relations.root
  have hRoot : relations.root ∉ relations.interfaces id :=
    not_mem_interfaces hOrdinary hOrdinary.isInterface_root
  have hSuperclass (superclass : ClassId) (h : relations.superclass? id = some superclass) :
      superclass ∉ relations.interfaces id :=
    not_mem_interfaces hOrdinary (hKinds.isInterface_superclass id superclass h)
  unfold classParents
  dsimp only
  split
  · exact List.nodup_nil
  · cases policy with
    | superclassFirst =>
        dsimp only
        split
        · rename_i superclass hSome
          split
          · exact List.nodup_append_comm.2 (List.nodup_cons.2 ⟨hRoot, hInterfaces⟩)
          · exact List.nodup_cons.2 ⟨hSuperclass superclass hSome, hInterfaces⟩
        · exact hOrRoot
    | interfacesFirst =>
        dsimp only
        split
        · rename_i superclass hSome
          exact List.nodup_append_comm.2
            (List.nodup_cons.2 ⟨hSuperclass superclass hSome, hInterfaces⟩)
        · exact hOrRoot
    | interfacesOnly =>
        dsimp only
        split
        · exact hInterfaces
        · exact hOrRoot

theorem nodup_elementParents (hOrdinary : relations.Ordinary) (hKinds : relations.WellKinded)
    (element : Element) : (policy.elementParents relations element).Nodup := by
  cases element with
  | declared id =>
      exact (nodup_classParents hOrdinary hKinds id).map fun _ _ => Element.declared.inj
  | primitive kind =>
      have hNarrower : kind.narrower.Nodup := by cases kind <;> decide
      exact hNarrower.map fun _ _ => Element.primitive.inj

theorem nodup_arrayLeaves (hOrdinary : relations.Ordinary) (dims : Fin 256) :
    (arrayLeaves relations dims).Nodup := by
  have hSerializable : relations.serializable ≠ relations.root :=
    marker_ne_root (by simp) hOrdinary
  have hCloneable : relations.cloneable ≠ relations.root := marker_ne_root (by simp) hOrdinary
  have hRoles : [relations.serializable, relations.cloneable, relations.root].Nodup := by
    simp [hOrdinary.markers_ne, hSerializable, hCloneable]
  exact hRoles.map fun id other hSame => Element.declared.inj (congrArg Node.element hSame)

/-- The direct parents of a node are different from each other. -/
theorem nodup_parents (hOrdinary : relations.Ordinary) (hKinds : relations.WellKinded)
    (node : Node) : (policy.parents relations node).Nodup := by
  have hLifted : ((policy.elementParents relations node.element).map fun parent =>
      (⟨parent, node.dims⟩ : Node)).Nodup :=
    (nodup_elementParents hOrdinary hKinds node.element).map fun _ _ => congrArg Node.element
  unfold parents
  dsimp only
  split
  · exact nodup_arrayLeaves hOrdinary node.dims
  · exact hLifted

end Policy

namespace Command

open Hierarchy (load)

variable {shardOf : Nat × Node → Fin 16} {hierarchy : Hierarchy} {policy : Policy} {limit : Nat}
  {diagnostic : Diagnostic}

theorem meetsClash_of_mem_checkDiagnostics
    (h : diagnostic ∈ checkDiagnostics shardOf hierarchy policy limit)
    (hCode : diagnostic.code = .inconsistent) :
    ∃ requested conflict,
      MeetsClash (policy.parents hierarchy.catalog.relations) requested conflict ∧
      diagnostic = hierarchy.failureDiagnostic requested (.inconsistent conflict) := by
  obtain ⟨node, failure, hResult, _, rfl⟩ := mem_reportsInOrder_iff.1 h
  have hAnswer := answer_of_mem_resultsInOrder hResult
  cases hAnswer with
  | inconsistent hMeets => exact ⟨node, _, hMeets, rfl⟩
  | tooDeep => cases hCode

theorem meetsClash_of_mem_requestDiagnostics {options : Options} {requests : List String}
    (h : diagnostic ∈ requestDiagnostics hierarchy options requests)
    (hCode : diagnostic.code = .inconsistent) :
    ∃ requested conflict,
      MeetsClash (options.policy.parents hierarchy.catalog.relations) requested conflict ∧
      diagnostic = hierarchy.failureDiagnostic requested (.inconsistent conflict) := by
  obtain ⟨request, _, known, hKnown, hError⟩ := exists_of_mem_requestDiagnostics h
  cases hRead : Node.read hierarchy.catalog request with
  | error error =>
      rw [answer_of_unread hRead] at hError
      cases hError
      cases error <;> cases hCode
  | ok node =>
      rw [answer_of_read hRead] at hError
      have hAnswer : Walk.Answer (options.policy.parents hierarchy.catalog.relations)
          options.maxDepth node ((options.setting hierarchy).linearize node known ()).result :=
        (Walk.linearize_absent_sound options.maxDepth hKnown node).answer
      generalize ((options.setting hierarchy).linearize node known ()).result = result
        at hError hAnswer
      cases hAnswer with
      | ok => cases hError
      | inconsistent hMeets =>
          cases hError
          exact ⟨node, _, hMeets, rfl⟩
      | tooDeep =>
          cases hError
          cases hCode

/-- What a report says of the nodes in conflict. -/
def conflictNote (names : ClassId → String) (conflict : Conflict Node) : String :=
  "no order satisfies every declaration among " ++ Node.writtenList names conflict.conflicting

theorem conflictNote_mem_notes {conflict : Conflict Node} (h : conflict.Genuine)
    (hierarchy : Hierarchy) (requested : Node) :
    conflictNote hierarchy.catalog.className conflict ∈
      (hierarchy.failureDiagnostic requested (.inconsistent conflict)).notes := by
  have hNotes : conflict.conflictNotes hierarchy.catalog.className =
      [conflictNote hierarchy.catalog.className conflict] :=
    if_neg (Nat.not_le_of_lt h.two_le_length)
  refine List.mem_append_right _ ?_
  rw [hNotes]
  exact List.mem_cons_self

/-- In a loaded file no node has a direct parent twice. So in each conflict that is met there are at
least two nodes, each of which stands behind another one of them, and the report of the conflict
names them. That holds for every conflict that a check or a request reports. -/
theorem conflict_genuine {source : String} (hLoad : load source = .ok hierarchy)
    (policy : Policy) :
    let parents := policy.parents hierarchy.catalog.relations
    let note := conflictNote hierarchy.catalog.className
    (∀ node, (parents node).Nodup) ∧
    (∀ requested limit conflict,
      Ancestry.linearize parents requested limit = .error (.inconsistent conflict) →
        conflict.Genuine ∧
          note conflict ∈ (hierarchy.failureDiagnostic requested (.inconsistent conflict)).notes) ∧
    ∀ diagnostic : Diagnostic, diagnostic.code = .inconsistent →
      (∃ shardOf limit, diagnostic ∈ checkDiagnostics shardOf hierarchy policy limit) ∨
        (∃ options requests, options.policy = policy ∧
          diagnostic ∈ requestDiagnostics hierarchy options requests) →
      ∃ requested conflict, conflict.Genuine ∧
        diagnostic = hierarchy.failureDiagnostic requested (.inconsistent conflict) ∧
        note conflict ∈ diagnostic.notes := by
  intro parents note
  have hNodup : ∀ node, (parents node).Nodup :=
    Policy.nodup_parents (Hierarchy.ordinary_of_load hLoad) (Hierarchy.wellKinded_of_load hLoad)
  refine ⟨hNodup, fun requested limit conflict hConflict => ?_,
    fun diagnostic hCode hReported => ?_⟩
  · have hGenuine := (MeetsClash.of_linearize hConflict).genuine hNodup
    exact ⟨hGenuine, conflictNote_mem_notes hGenuine hierarchy requested⟩
  · obtain ⟨requested, conflict, hMeets, rfl⟩ : ∃ requested conflict,
        MeetsClash parents requested conflict ∧
          diagnostic = hierarchy.failureDiagnostic requested (.inconsistent conflict) := by
      rcases hReported with ⟨shardOf, limit, hCheck⟩ | ⟨options, requests, rfl, hRequest⟩
      · exact meetsClash_of_mem_checkDiagnostics hCheck hCode
      · exact meetsClash_of_mem_requestDiagnostics hRequest hCode
    have hGenuine := hMeets.genuine hNodup
    exact ⟨requested, conflict, hGenuine, rfl,
      conflictNote_mem_notes hGenuine hierarchy requested⟩

/-- The second class of that file lists an interface in front of one that extends it. -/
theorem conflict_genuine_tangled : ∃ hierarchy, load Hierarchy.tangledSource = .ok hierarchy ∧
    ∃ conflict, Ancestry.linearize (Policy.superclassFirst.parents hierarchy.catalog.relations)
        (.ofClass ⟨6⟩) defaultLimit = .error (.inconsistent conflict) ∧
      2 ≤ conflict.conflicting.length ∧
      conflictNote hierarchy.catalog.className conflict ∈
        (hierarchy.failureDiagnostic (.ofClass ⟨6⟩) (.inconsistent conflict)).notes := by
  obtain ⟨hierarchy, hLoad, hMeans⟩ :=
    Hierarchy.declares_tangled.exists_means Hierarchy.coherent_tangled
  have hAnswer := linearize_answer (Policy.superclassFirst.parents hierarchy.catalog.relations)
    (.ofClass ⟨6⟩) defaultLimit
  have hLimit := hAnswer.not_hitsLimit_of_chains
    ((chainsWithin_tangled hMeans ⟨6⟩ (by decide)).mono (by decide))
  obtain ⟨conflict, hConflict⟩ :=
    hAnswer.exists_eq_error (not_linearizes_tangled hMeans) hLimit
  obtain ⟨hGenuine, hNote⟩ := (conflict_genuine hLoad .superclassFirst).2.1 _ _ conflict hConflict
  exact ⟨hierarchy, hLoad, conflict, hConflict, hGenuine.two_le_length, hNote⟩

end Command

end Ancestry
