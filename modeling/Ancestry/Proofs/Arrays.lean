import Ancestry.Proofs.Embedding
import Ancestry.Proofs.Hierarchy.Loaded
import Ancestry.Proofs.Laws
import Ancestry.Proofs.Parents

/-! The ancestors of arrays. Under any number of dimensions the elements keep the direct parents
that they have by themselves, and the last one goes on to the array types that follow on its
dimensions, unless it is an interface. Main statement: `Hierarchy.linearize_array`. -/
namespace Ancestry

/-- The element of the node under the given dimensions. -/
def Node.under (dims : Fin 256) (node : Node) : Node := ⟨node.element, dims⟩

/-- Two parents whose linearizations add nothing to that of the third stay in front of it. -/
theorem Linearizes.of_leaves {α : Type} [DecidableEq α] [Hashable α] {parents : α → List α}
    {node first second root : α} {firstRest secondRest tail : List α}
    (hParents : parents node = [first, second, root])
    (hFirst : Linearizes parents first ⟨first, firstRest⟩)
    (hSecond : Linearizes parents second ⟨second, secondRest⟩)
    (hRoot : Linearizes parents root ⟨root, tail⟩)
    (hFirstRest : firstRest.Sublist (root :: tail))
    (hSecondRest : secondRest.Sublist (root :: tail))
    (hDistinct : (first :: second :: root :: tail).Nodup) :
    Linearizes parents node ⟨node, first :: second :: root :: tail⟩ := by
  have hNe : first ≠ second ∧ first ≠ root ∧ second ≠ root := by
    simp only [List.nodup_cons, List.mem_cons, not_or] at hDistinct
    exact ⟨hDistinct.1.1, hDistinct.1.2.1, hDistinct.2.1.1⟩
  obtain ⟨hFirstSecond, hFirstRoot, hSecondRoot⟩ := hNe
  let orders (other : α) : Linearization α :=
    if other = first then ⟨first, firstRest⟩
    else if other = second then ⟨second, secondRest⟩ else ⟨root, tail⟩
  have hOrderFirst : orders first = ⟨first, firstRest⟩ := if_pos rfl
  have hOrderSecond : orders second = ⟨second, secondRest⟩ := by
    simp [orders, hFirstSecond.symm]
  have hOrderRoot : orders root = ⟨root, tail⟩ := by
    simp [orders, hFirstRoot.symm, hSecondRoot.symm]
  have hOrders : ∀ other ∈ parents node, Linearizes parents other (orders other) := by
    simp only [hParents, List.forall_mem_cons, hOrderFirst, hOrderSecond, hOrderRoot]
    exact ⟨hFirst, hSecond, hRoot, by simp⟩
  refine @Linearizes.of_overlap _ _ _ _ _ _ [first, second] tail root hOrders ⟨hDistinct, ?_⟩ ?_ ?_
  · simp only [hParents, List.map_cons, List.map_nil, List.cons_append, List.nil_append,
      List.forall_mem_cons, hOrderFirst, hOrderSecond, hOrderRoot, Linearization.toList]
    exact ⟨(hFirstRest.cons second).cons_cons first, (hSecondRest.cons_cons second).cons first,
      ((List.Sublist.refl _).cons second).cons first, by simp⟩
  · simp [hParents]
  · simp [hParents, hOrderRoot, Linearization.toList]

namespace Policy

/-- What follows on an array whose element has no parents and is no interface: the two marker
interfaces and the root under one dimension less, and then what follows on the root there. -/
def arrayTail (relations : Relations) : (dims : Nat) → dims < 256 → List Node
  | 0, _ => []
  | dims + 1, h => arrayLeaves relations ⟨dims + 1, h⟩ ++
      arrayTail relations dims (Nat.lt_of_succ_lt h)

/-- Whether the ancestries that begin with the element end with interfaces. -/
def endsInInterfaces (policy : Policy) (relations : Relations) : Element → Bool
  | .declared id => policy == .interfacesOnly && id != relations.root &&
      (relations.isInterface id || !(relations.interfaces id).isEmpty)
  | .primitive _ => false

/-- What follows on the last ancestor of the element under the given dimensions. -/
def tailOf (policy : Policy) (relations : Relations) (dims : Nat) (h : dims < 256)
    (element : Element) : List Node :=
  if policy.endsInInterfaces relations element then [] else arrayTail relations dims h

variable {policy : Policy} {relations : Relations}

theorem dims_lt_of_mem_arrayTail {dims : Nat} {h : dims < 256} {node : Node}
    (hNode : node ∈ arrayTail relations dims h) : node.dims.val < dims := by
  induction dims with
  | zero => cases hNode
  | succ dims ih =>
      rcases List.mem_append.1 hNode with hLeaf | hLater
      · obtain ⟨id, _, rfl⟩ := List.mem_map.1 hLeaf
        simp
      · exact Nat.lt_succ_of_lt (ih hLater)

theorem endsInInterfaces_eq_false (hPolicy : policy ≠ .interfacesOnly) (element : Element) :
    policy.endsInInterfaces relations element = false := by
  cases element with
  | declared id => simp [endsInInterfaces, hPolicy]
  | primitive kind => rfl

theorem endsInInterfaces_root (policy : Policy) (relations : Relations) :
    policy.endsInInterfaces relations (.declared relations.root) = false := by
  simp [endsInInterfaces]

theorem endsInInterfaces_interface (hRelations : relations.Ordinary) {id : ClassId}
    (h : relations.isInterface id = true) :
    interfacesOnly.endsInInterfaces relations (.declared id) = true := by
  have hRoot : id ≠ relations.root := by
    rintro rfl
    rw [hRelations.isInterface_root] at h
    cases h
  simp [endsInInterfaces, h, hRoot]

/-- All ancestries that begin with the same element end with the same kind. -/
theorem endsInInterfaces_parent (hRelations : relations.Ordinary) {element parent : Element}
    (hParent : parent ∈ policy.elementParents relations element) :
    policy.endsInInterfaces relations parent = policy.endsInInterfaces relations element := by
  by_cases hPolicy : policy = .interfacesOnly
  · subst hPolicy
    cases element with
    | primitive kind =>
        obtain ⟨_, _, rfl⟩ := List.mem_map.1 hParent
        rfl
    | declared id =>
        obtain ⟨other, hOther, rfl⟩ := List.mem_map.1 hParent
        have hId : id ≠ relations.root := by
          rintro rfl
          rw [classParents_root] at hOther
          cases hOther
        rw [classParents_interfacesOnly hId] at hOther
        split at hOther
        · rename_i hEnds
          have hInterface := hRelations.isInterface_of_mem id other hOther
          rw [endsInInterfaces_interface hRelations hInterface]
          simp only [endsInInterfaces, hEnds, Bool.and_true]
          simp [hId]
        · rename_i hEnds
          rw [List.mem_singleton.1 hOther, endsInInterfaces_root]
          simp only [endsInInterfaces, eq_false_of_ne_true hEnds, Bool.and_false]
  · rw [endsInInterfaces_eq_false hPolicy, endsInInterfaces_eq_false hPolicy]

/-- An element without parents is an end itself. -/
theorem endsInInterfaces_of_no_parents (hRelations : relations.Ordinary) {element : Element}
    (h : policy.elementParents relations element = []) :
    policy.endsInInterfaces relations element = isInterfaceElement relations element := by
  cases element with
  | primitive kind => rfl
  | declared id =>
      have hParents := List.map_eq_nil_iff.1 h
      by_cases hId : id = relations.root
      · subst hId
        rw [endsInInterfaces_root]
        exact hRelations.isInterface_root.symm
      · have hPolicy : policy = .interfacesOnly :=
          Decidable.byContradiction fun hOther => classParents_ne_nil hOther hId hParents
        subst hPolicy
        cases hInterface : relations.isInterface id with
        | true =>
            rw [endsInInterfaces_interface hRelations hInterface]
            exact hInterface.symm
        | false =>
            rw [classParents_interfacesOnly hId, hInterface, Bool.false_or] at hParents
            split at hParents
            · rename_i hInterfaces
              simp [hParents] at hInterfaces
            · cases hParents

/-- The tail is that of the whole ancestry. -/
theorem tailOf_parent (hRelations : relations.Ordinary) {dims : Nat} (h : dims < 256)
    {element parent : Element} (hParent : parent ∈ policy.elementParents relations element) :
    policy.tailOf relations dims h parent = policy.tailOf relations dims h element := by
  rw [tailOf, tailOf, endsInInterfaces_parent hRelations hParent]

theorem tailOf_of_no_parents (hRelations : relations.Ordinary) {dims : Nat} (h : dims < 256)
    {element : Element} (hParents : policy.elementParents relations element = []) :
    policy.tailOf relations dims h element =
      if isInterfaceElement relations element then [] else arrayTail relations dims h := by
  rw [tailOf, endsInInterfaces_of_no_parents hRelations hParents]

theorem parents_of_elementParents {element : Element} (dims : Fin 256)
    (h : policy.elementParents relations element ≠ []) :
    policy.parents relations ⟨element, dims⟩ =
      (policy.elementParents relations element).map fun parent => ⟨parent, dims⟩ := by
  simp [parents, h]

theorem parents_of_no_elementParents {element : Element} (dims : Fin 256)
    (h : policy.elementParents relations element = []) :
    policy.parents relations ⟨element, dims⟩ =
      if dims ≠ 0 ∧ isInterfaceElement relations element = false then arrayLeaves relations dims
      else [] := by
  simp [parents, Node.isArray, h]

theorem elementParents_root (policy : Policy) (relations : Relations) :
    policy.elementParents relations (.declared relations.root) = [] := by
  rw [elementParents, classParents_root, List.map_nil]

section

variable {marker : ClassId} (hMarker : marker ∈ [relations.serializable, relations.cloneable])

include hMarker

theorem marker_ne_root (hRelations : relations.Ordinary) : marker ≠ relations.root := by
  rintro rfl
  have hInterface := hRelations.isInterface_marker _ hMarker
  rw [hRelations.isInterface_root] at hInterface
  cases hInterface

theorem elementParents_marker (hRelations : relations.Ordinary) :
    policy.elementParents relations (.declared marker) =
      if policy = .interfacesOnly then [] else [.declared relations.root] := by
  have hRoot := marker_ne_root hMarker hRelations
  have hInterfaces := hRelations.interfaces_marker marker hMarker
  have hSuperclass := hRelations.superclass?_marker marker hMarker
  have hInterface := hRelations.isInterface_marker marker hMarker
  cases policy <;>
    simp [elementParents, classParents, hRoot, hInterfaces, hSuperclass, hInterface,
      interfacesOrRoot]

end

/-- The elements, each under the same dimensions, keep their parents. -/
abbrev EmbedsUnder (policy : Policy) (relations : Relations) (dims : Nat) (h : dims < 256) : Prop :=
  Embeds (policy.elementParents relations) (policy.parents relations)
    (fun element => ⟨element, ⟨dims, h⟩⟩) (policy.tailOf relations dims h)

theorem linearizes_root {dims : Nat} {h : dims < 256}
    (hEmbeds : EmbedsUnder policy relations dims h) :
    Linearizes (policy.parents relations) ⟨.declared relations.root, ⟨dims, h⟩⟩
      ⟨⟨.declared relations.root, ⟨dims, h⟩⟩, arrayTail relations dims h⟩ := by
  have hOrder := hEmbeds.linearizes (.of_no_parents (elementParents_root policy relations))
  simpa [Linearization.extended, tailOf, endsInInterfaces_root] using hOrder

theorem exists_linearizes_marker (hRelations : relations.Ordinary) {dims : Nat} {h : dims < 256}
    (hEmbeds : EmbedsUnder policy relations dims h) {marker : ClassId}
    (hMarker : marker ∈ [relations.serializable, relations.cloneable]) :
    ∃ rest, Linearizes (policy.parents relations) ⟨.declared marker, ⟨dims, h⟩⟩
        ⟨⟨.declared marker, ⟨dims, h⟩⟩, rest⟩ ∧
      rest.Sublist (⟨.declared relations.root, ⟨dims, h⟩⟩ :: arrayTail relations dims h) := by
  have hParents : policy.elementParents relations (.declared marker) = _ :=
    elementParents_marker hMarker hRelations
  by_cases hPolicy : policy = .interfacesOnly
  · rw [if_pos hPolicy] at hParents
    have hOrder := hEmbeds.linearizes (.of_no_parents hParents)
    refine ⟨_, hOrder, ?_⟩
    simp [tailOf_of_no_parents hRelations h hParents, isInterfaceElement,
      hRelations.isInterface_marker marker hMarker]
  · rw [if_neg hPolicy] at hParents
    refine ⟨_, .of_only_parent ?_ (linearizes_root hEmbeds), List.Sublist.refl _⟩
    rw [parents_of_elementParents _ (by simp [hParents]), hParents]
    rfl

/-- What follows on an array that goes on to the leaves. -/
theorem linearizes_of_leaves (hRelations : relations.Ordinary) {dims : Nat} {h : dims + 1 < 256}
    (hEmbeds : EmbedsUnder policy relations dims (Nat.lt_of_succ_lt h)) {node : Node}
    (hParents : policy.parents relations node = arrayLeaves relations ⟨dims + 1, h⟩) :
    Linearizes (policy.parents relations) node ⟨node, arrayTail relations (dims + 1) h⟩ := by
  have hSerializable : relations.serializable ∈ [relations.serializable, relations.cloneable] :=
    List.mem_cons_self
  have hCloneable : relations.cloneable ∈ [relations.serializable, relations.cloneable] :=
    List.mem_cons_of_mem _ List.mem_cons_self
  obtain ⟨first, hFirst, hFirstRest⟩ := exists_linearizes_marker hRelations hEmbeds hSerializable
  obtain ⟨second, hSecond, hSecondRest⟩ := exists_linearizes_marker hRelations hEmbeds hCloneable
  have hRoot := linearizes_root hEmbeds
  have hNew {marker : ClassId} (hMarker : marker ∈ [relations.serializable, relations.cloneable]) :
      (⟨.declared marker, ⟨dims, Nat.lt_of_succ_lt h⟩⟩ : Node) ∉
        ⟨.declared relations.root, ⟨dims, Nat.lt_of_succ_lt h⟩⟩ ::
          arrayTail relations dims (Nat.lt_of_succ_lt h) := by
    rw [List.mem_cons, not_or]
    refine ⟨fun hSame => marker_ne_root hMarker hRelations ?_, fun hLater => ?_⟩
    · simpa using hSame
    · exact Nat.lt_irrefl _ (dims_lt_of_mem_arrayTail hLater)
  refine .of_leaves hParents hFirst hSecond hRoot hFirstRest hSecondRest ?_
  refine List.nodup_cons.2 ⟨?_, List.nodup_cons.2 ⟨hNew hCloneable, hRoot.nodup⟩⟩
  rw [List.mem_cons, not_or]
  refine ⟨fun hSame => hRelations.markers_ne ?_, hNew hSerializable⟩
  simpa using hSame

theorem apart_tailOf {dims : Nat} {h : dims < 256} (element other : Element) :
    (⟨element, ⟨dims, h⟩⟩ : Node) ∉ policy.tailOf relations dims h other := by
  unfold tailOf
  split
  · exact List.not_mem_nil
  · exact fun hMember => Nat.lt_irrefl _ (dims_lt_of_mem_arrayTail hMember)

/-- What follows on an array whose element has no parents. -/
theorem linearizes_of_no_elementParents (hRelations : relations.Ordinary) {dims : Nat}
    {h : dims < 256} {element : Element} (hParents : policy.elementParents relations element = [])
    (hBelow : ∀ below (hBelow : below < 256), dims = below + 1 →
      EmbedsUnder policy relations below hBelow) :
    Linearizes (policy.parents relations) ⟨element, ⟨dims, h⟩⟩
      ⟨⟨element, ⟨dims, h⟩⟩, policy.tailOf relations dims h element⟩ := by
  rw [tailOf_of_no_parents hRelations h hParents]
  have hNode := parents_of_no_elementParents ⟨dims, h⟩ hParents
  cases hInterface : isInterfaceElement relations element with
  | true =>
      refine .of_no_parents (hNode.trans (if_neg ?_))
      simp [hInterface]
  | false =>
      cases dims with
      | zero => exact .of_no_parents (hNode.trans (if_neg (by simp)))
      | succ dims =>
          have hLeaves :=
            hNode.trans (if_pos ⟨Fin.ne_of_val_ne (Nat.succ_ne_zero dims), hInterface⟩)
          exact linearizes_of_leaves hRelations (hBelow dims _ rfl) hLeaves

/-- Under any dimensions the elements keep their parents, and the last ones go on to the tail. -/
theorem embedsUnder (hRelations : relations.Ordinary) (policy : Policy) (dims : Nat)
    (h : dims < 256) : EmbedsUnder policy relations dims h where
  injective := fun _ _ hSame => congrArg Node.element hSame
  apart := apart_tailOf
  othersOf_rename := fun _ => parents_of_elementParents _
  linearizes_last := fun _ hParents => linearizes_of_no_elementParents hRelations hParents
    fun below hBelow _ => embedsUnder hRelations policy below hBelow
  tail_eq := fun _ _ => tailOf_parent hRelations h

theorem tailOf_zero (policy : Policy) (relations : Relations) (element : Element) :
    policy.tailOf relations 0 (by decide) element = [] := by
  unfold tailOf
  split <;> rfl

section

variable (hRelations : relations.Ordinary) (element : Element)

include hRelations

/-- The last member of a linearization decides about the tail. -/
theorem tailOf_eq_of_linearizes {dims : Nat} (h : dims < 256) {order : Linearization Node}
    (hOrder : Linearizes (policy.parents relations) ⟨element, 0⟩ order) :
    policy.tailOf relations dims h element =
      if order.toList.getLast?.any fun last => isInterfaceElement relations last.element then []
      else arrayTail relations dims h := by
  obtain ⟨own, hOwn, rfl⟩ := (embedsUnder hRelations policy 0 (by decide)).linearizes_iff.1 hOrder
  obtain ⟨last, hLast⟩ : ∃ last, own.toList.getLast? = some last :=
    ⟨_, List.getLast?_eq_some_getLast (List.cons_ne_nil own.node own.ancestors)⟩
  have hReach := (hOwn.mem_toList_iff last).1 (List.mem_of_getLast? hLast)
  have hTail := (embedsUnder hRelations policy dims h).tail_eq_of_reaches hReach
  rw [← hTail, tailOf_of_no_parents hRelations h (hOwn.parents_of_last hLast), tailOf_zero]
  rw [Linearization.toList_extended, List.append_nil, List.getLast?_map, hLast, Option.map_some,
    Option.any_some]

/-- An array has the linearization of its element under the same dimensions, with the tail. -/
theorem linearizes_array_iff (dims : Fin 256) {other : Linearization Node} :
    Linearizes (policy.parents relations) ⟨element, dims⟩ other ↔
      ∃ order, Linearizes (policy.parents relations) ⟨element, 0⟩ order ∧
        other = order.extended (Node.under dims)
          (policy.tailOf relations dims dims.isLt element) := by
  have hSingle := embedsUnder hRelations policy 0 (by decide)
  have hArray := embedsUnder hRelations policy dims dims.isLt
  have hAgain (own : Linearization Element) :=
    own.extended_extended (fun element => (⟨element, 0⟩ : Node)) (Node.under dims)
      (policy.tailOf relations dims dims.isLt element)
  constructor
  · intro hOther
    obtain ⟨own, hOwn, rfl⟩ := hArray.linearizes_iff.1 hOther
    refine ⟨_, hSingle.linearizes hOwn, ?_⟩
    rw [tailOf_zero]
    exact (hAgain own).symm
  · rintro ⟨order, hOrder, rfl⟩
    obtain ⟨own, hOwn, rfl⟩ := hSingle.linearizes_iff.1 hOrder
    rw [tailOf_zero]
    exact hAgain own ▸ hArray.linearizes hOwn

/-- An array meets the clash of its element under the same dimensions. -/
theorem meetsClash_array_iff (dims : Fin 256) {other : Conflict Node} :
    MeetsClash (policy.parents relations) ⟨element, dims⟩ other ↔
      ∃ conflict, MeetsClash (policy.parents relations) ⟨element, 0⟩ conflict ∧
        other = conflict.extended (Node.under dims)
          (policy.tailOf relations dims dims.isLt element) := by
  have hSingle := embedsUnder hRelations policy 0 (by decide)
  have hArray := embedsUnder hRelations policy dims dims.isLt
  have hAgain (own : Conflict Element) :=
    own.extended_extended (fun element => (⟨element, 0⟩ : Node)) (Node.under dims)
      (policy.tailOf relations dims dims.isLt element)
  constructor
  · intro hOther
    obtain ⟨own, hOwn, rfl⟩ := hArray.meetsClash_iff.1 hOther
    refine ⟨_, hSingle.meetsClash_iff.2 ⟨own, hOwn, rfl⟩, ?_⟩
    rw [tailOf_zero]
    exact (hAgain own).symm
  · rintro ⟨conflict, hMeets, rfl⟩
    obtain ⟨own, hOwn, rfl⟩ := hSingle.meetsClash_iff.1 hMeets
    rw [tailOf_zero]
    exact hArray.meetsClash_iff.2 ⟨own, hOwn, hAgain own⟩

end

end Policy

namespace Hierarchy

open Walk (HitsLimit)
open Policy (arrayTail isInterfaceElement)

variable {hierarchy : Hierarchy} {policy : Policy} {element : Element} {dims : Fin 256}

theorem dims_eq_zero_of_mem {relations : Relations} (hRelations : relations.Ordinary)
    {order : Linearization Node}
    (hOrder : Linearizes (policy.parents relations) ⟨element, 0⟩ order) {member : Node}
    (hMember : member ∈ order.toList) : member.dims = 0 := by
  obtain ⟨own, _, rfl⟩ :=
    (Policy.embedsUnder hRelations policy 0 (by decide)).linearizes_iff.1 hOrder
  rw [Policy.tailOf_zero, Linearization.toList_extended, List.append_nil] at hMember
  obtain ⟨_, _, rfl⟩ := List.mem_map.1 hMember
  rfl

/-- In a loaded file, take any element and put it under dimensions. From some limit on the walk for
the array does not meet the limit, exactly if that is so for the element. Where neither does, the
array has a linearization exactly if the element has one: all members of that one under the same
dimensions, and then the array types that follow on the last member unless this is an interface. If
the element meets a conflict, the array meets the same under the same dimensions. -/
theorem linearize_array {source : String} (hLoad : load source = .ok hierarchy) (policy : Policy)
    (element : Element) (dims : Fin 256) :
    let relations := hierarchy.catalog.relations
    let single := linearize (policy.parents relations) ⟨element, 0⟩
    let array := linearize (policy.parents relations) ⟨element, dims⟩
    ((∃ enough, ∀ limit, enough ≤ limit → ¬HitsLimit (single limit)) ↔
      ∃ enough, ∀ limit, enough ≤ limit → ¬HitsLimit (array limit)) ∧
    ∀ limit bound, ¬HitsLimit (single limit) → ¬HitsLimit (array bound) →
      ((∃ order, array bound = .ok order) ↔ ∃ order, single limit = .ok order) ∧
      (∀ order, single limit = .ok order →
        (∀ member ∈ order.toList, member.dims = 0) ∧
        array bound = .ok (order.extended (Node.under dims)
          (if order.toList.getLast?.any fun last => isInterfaceElement relations last.element
          then [] else arrayTail relations dims dims.isLt))) ∧
      ∀ conflict, single limit = .error (.inconsistent conflict) →
        ∃ tail, array bound =
          .error (.inconsistent (conflict.extended (Node.under dims) tail)) := by
  intro relations single array
  have hRelations : relations.Ordinary := ordinary_of_load hLoad
  have hOrders {other : Linearization Node} :=
    @Policy.linearizes_array_iff policy relations hRelations element dims other
  have hClashes {other : Conflict Node} :=
    @Policy.meetsClash_array_iff policy relations hRelations element dims other
  refine ⟨?_, fun limit bound hSingle hArray => ⟨⟨?_, ?_⟩, ?_, ?_⟩⟩
  · rw [exists_not_hitsLimit_iff, exists_not_hitsLimit_iff]
    refine or_congr ⟨?_, ?_⟩ ⟨?_, ?_⟩
    · exact fun ⟨order, hOrder⟩ => ⟨_, hOrders.2 ⟨order, hOrder, rfl⟩⟩
    · rintro ⟨other, hOther⟩
      obtain ⟨order, hOrder, _⟩ := hOrders.1 hOther
      exact ⟨order, hOrder⟩
    · exact fun ⟨conflict, hMeets⟩ => ⟨_, hClashes.2 ⟨conflict, hMeets, rfl⟩⟩
    · rintro ⟨other, hOther⟩
      obtain ⟨conflict, hMeets, _⟩ := hClashes.1 hOther
      exact ⟨conflict, hMeets⟩
  · rintro ⟨other, hOther⟩
    obtain ⟨order, hOrder, _⟩ := hOrders.1 (.of_linearize hOther)
    exact ⟨order, (linearize_answer _ _ limit).eq_ok hOrder hSingle⟩
  · rintro ⟨order, hOrder⟩
    have hOther := hOrders.2 ⟨order, .of_linearize hOrder, rfl⟩
    exact ⟨_, (linearize_answer _ _ bound).eq_ok hOther hArray⟩
  · intro order hResult
    have hOrder : Linearizes (policy.parents relations) ⟨element, 0⟩ order := .of_linearize hResult
    rw [← Policy.tailOf_eq_of_linearizes hRelations element dims.isLt hOrder]
    exact ⟨fun member => dims_eq_zero_of_mem hRelations hOrder,
      (linearize_answer _ _ bound).eq_ok (hOrders.2 ⟨order, hOrder, rfl⟩) hArray⟩
  · intro conflict hResult
    have hOther := hClashes.2 ⟨conflict, .of_linearize hResult, rfl⟩
    exact ⟨_, (linearize_answer _ _ bound).eq_error hOther hArray⟩

/-- An interface, and a class that implements it. -/
def itemSource : String := "interface Item\nclass Tool implements Item"

def itemNames : Catalog := ((Catalog.initial.declareInterface "Item").1.declareClass "Tool").1

def itemHierarchy : Hierarchy :=
  ⟨setParents (setParents itemNames ⟨3⟩ ⟨none, [], []⟩) ⟨4⟩ ⟨none, [⟨3⟩], []⟩, #[1, 2], []⟩

theorem load_itemSource : load itemSource = .ok itemHierarchy := by
  let item : Declaration := ⟨1, .interfaceType, "Item", none, []⟩
  let tool : Declaration := ⟨2, .classType, "Tool", none, ["Item"]⟩
  have hRead : readSource itemSource = [.ok (some item), .ok (some tool)] := by rfl
  have hItem : Catalog.initial.lookup? "Item" = none := by
    simp [Catalog.lookup?, Catalog.initial, Catalog.declareInterface]
  have hTool : (Catalog.initial.declareInterface "Item").1.lookup? "Tool" = none := by
    simp [Catalog.lookup?, Catalog.initial, Catalog.declareInterface]
  have hFound : itemNames.lookup? "Item" = some ⟨3⟩ := by
    simp [itemNames, Catalog.lookup?, Catalog.initial, Catalog.declareInterface,
      Catalog.declareClass]
    rfl
  have hOne : Names.initial.add item = _ := Names.add_of_new hItem
  have hNames : ((successes (readSource itemSource)).filterMap id).foldl Names.add Names.initial =
      ⟨itemNames, #[1, 2], #[(⟨3⟩, item), (⟨4⟩, tool)], #[]⟩ := by
    rw [hRead]
    change (Names.initial.add item).add tool = _
    rw [hOne]
    exact Names.add_of_new hTool
  have hItemParents : resolveParents itemNames item = .ok ⟨none, [], []⟩ := rfl
  have hToolParents : resolveParents itemNames tool = .ok ⟨none, [⟨3⟩], []⟩ := by
    simp [tool, resolveParents, resolveSuperclass, resolveInterfaces, resolveName, hFound]
    rfl
  rw [load]
  simp only [hNames]
  rw [hRead]
  simp [failures, successes, hItemParents, hToolParents, itemHierarchy]

/-- The class of that file, by itself and under two dimensions. -/
theorem linearize_array_item :
    let parents := Policy.superclassFirst.parents itemHierarchy.catalog.relations
    let under (dims : Fin 256) (id : ClassId) : Node := ⟨.declared id, dims⟩
    load itemSource = .ok itemHierarchy ∧
      linearize parents (under 0 ⟨4⟩) 3 = .ok ⟨under 0 ⟨4⟩, [under 0 ⟨3⟩, under 0 .object]⟩ ∧
      ∃ bound, linearize parents (under 2 ⟨4⟩) bound = .ok ⟨under 2 ⟨4⟩,
        [under 2 ⟨3⟩, under 2 .object,
          under 1 .serializable, under 1 .cloneable, under 1 .object,
          under 0 .serializable, under 0 .cloneable, under 0 .object]⟩ := by
  intro parents under
  have hObject : Linearizes parents (under 0 .object) ⟨under 0 .object, []⟩ := .of_no_parents rfl
  have hItem : Linearizes parents (under 0 ⟨3⟩) ⟨under 0 ⟨3⟩, [under 0 .object]⟩ :=
    .of_only_parent rfl hObject
  have hTool : Linearizes parents (under 0 ⟨4⟩) ⟨under 0 ⟨4⟩, [under 0 ⟨3⟩, under 0 .object]⟩ := by
    have hParents : parents (under 0 ⟨4⟩) = [under 0 ⟨3⟩, under 0 .object] := rfl
    let orders (node : Node) : Linearization Node :=
      ⟨node, if node = under 0 ⟨3⟩ then [under 0 .object] else []⟩
    have hOrders : ∀ parent ∈ parents (under 0 ⟨4⟩), Linearizes parents parent (orders parent) := by
      rw [hParents]
      simpa [orders, under] using ⟨hItem, hObject⟩
    refine @Linearizes.of_overlap _ _ _ _ _ orders [under 0 ⟨3⟩] [] (under 0 .object) hOrders
      ⟨by decide, ?_⟩ ?_ ?_
    · rw [hParents]
      decide
    · simp [hParents]
    · rw [hParents]
      decide
  have hSingle : linearize parents (under 0 ⟨4⟩) 3 = _ := hTool.linearize_eq (by decide)
  obtain ⟨hLimits, hResults⟩ := linearize_array load_itemSource .superclassFirst (.declared ⟨4⟩) 2
  obtain ⟨bound, hBound⟩ := hLimits.1 (exists_not_hitsLimit_iff.2 (.inl ⟨_, hTool⟩))
  have hSingleLimit : ¬HitsLimit (linearize parents (under 0 ⟨4⟩) 3) := by
    simp [hSingle, HitsLimit]
  have hArray := (hResults 3 bound hSingleLimit (hBound bound (Nat.le_refl _))).2.1 _ hSingle
  exact ⟨load_itemSource, hSingle, bound, hArray.2⟩

end Hierarchy

end Ancestry
