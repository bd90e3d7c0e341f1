import Ancestry.Node.Written
import Ancestry.Proofs.Hierarchy.Identities
import Ancestry.Proofs.Hierarchy.Statements
import Ancestry.Proofs.Renaming
import Ancestry.Proofs.Walk.Answer

/-! The order of a file. Identities are given in the order of the lines, and they stand for the
types everywhere, but they are compared with each other only. Main statement: files with the same
lines in another order, and files with more lines, give the same answers by names
(`Hierarchy.linearize_by_names`). -/
namespace Ancestry

def Element.renamed (rename : ClassId → ClassId) : Element → Element
  | declared id => .declared (rename id)
  | primitive kind => .primitive kind

/-- The node with another identity for its type, if it is not primitive. -/
def Node.renamed (rename : ClassId → ClassId) (node : Node) : Node :=
  ⟨node.element.renamed rename, node.dims⟩

theorem Node.lift?_renamed (rename : ClassId → ClassId) (element : Element) (dims : Nat) :
    lift? (element.renamed rename) dims = (lift? element dims).map (Node.renamed rename) := by
  unfold lift?
  split <;> rfl

/-- The relations of some types under other identities. -/
structure Relations.Renames (rename : ClassId → ClassId) (relations others : Relations) :
    Prop where
  injective : Function.Injective rename
  superclass?_eq : ∀ id, others.superclass? (rename id) = (relations.superclass? id).map rename
  interfaces_eq : ∀ id, others.interfaces (rename id) = (relations.interfaces id).map rename
  isInterface_eq : ∀ id, others.isInterface (rename id) = relations.isInterface id
  root_eq : others.root = rename relations.root
  serializable_eq : others.serializable = rename relations.serializable
  cloneable_eq : others.cloneable = rename relations.cloneable

section

variable {rename : ClassId → ClassId} {relations others : Relations}

theorem Element.renamed_injective (h : Function.Injective rename) :
    Function.Injective (Element.renamed rename) := by
  intro element other hSame
  cases element with
  | declared id =>
      cases other with
      | declared otherId => rw [h (Element.declared.inj hSame)]
      | primitive kind => cases hSame
  | primitive kind =>
      cases other with
      | declared id => cases hSame
      | primitive otherKind => exact hSame

theorem Node.renamed_injective (h : Function.Injective rename) :
    Function.Injective (Node.renamed rename) := by
  intro node other hSame
  obtain ⟨hElement, hDims⟩ := Node.mk.inj hSame
  obtain ⟨element, dims⟩ := node
  obtain ⟨otherElement, otherDims⟩ := other
  obtain rfl : element = otherElement := Element.renamed_injective h hElement
  obtain rfl : dims = otherDims := hDims
  rfl

namespace Relations.Renames

variable (h : relations.Renames rename others)
include h

theorem interfacesOrRoot_eq (interfaces : List ClassId) :
    Policy.interfacesOrRoot (interfaces.map rename) others.root =
      (Policy.interfacesOrRoot interfaces relations.root).map rename := by
  cases interfaces with
  | nil => simp [Policy.interfacesOrRoot, h.root_eq]
  | cons first rest => rfl

theorem classParents_eq (policy : Policy) (id : ClassId) :
    policy.classParents others (rename id) = (policy.classParents relations id).map rename := by
  have hRoot : ∀ id, rename id = others.root ↔ id = relations.root := by
    intro id
    rw [h.root_eq, h.injective.eq_iff]
  by_cases hId : id = relations.root
  · simp [Policy.classParents, hRoot, hId]
  · simp only [Policy.classParents, hRoot, if_neg hId, h.interfaces_eq, h.superclass?_eq,
      h.isInterface_eq, h.interfacesOrRoot_eq]
    cases policy with
    | superclassFirst =>
        cases relations.superclass? id with
        | none => rfl
        | some superclass =>
            by_cases hSuperclass : superclass = relations.root <;>
              simp [hSuperclass, h.root_eq, h.injective.eq_iff]
    | interfacesFirst =>
        cases relations.superclass? id with
        | none => rfl
        | some superclass => simp
    | interfacesOnly => cases relations.isInterface id <;> rfl

theorem elementParents_eq (policy : Policy) (element : Element) :
    policy.elementParents others (element.renamed rename) =
      (policy.elementParents relations element).map (Element.renamed rename) := by
  cases element with
  | declared id =>
      simp [Policy.elementParents, Element.renamed, h.classParents_eq, Function.comp_def]
  | primitive kind => simp [Policy.elementParents, Element.renamed, Function.comp_def]

/-- The parents of a node under another identity are its parents under theirs. -/
theorem parents_eq (policy : Policy) (node : Node) :
    policy.parents others (node.renamed rename) =
      (policy.parents relations node).map (Node.renamed rename) := by
  have hLifted : (policy.elementParents others (node.renamed rename).element).map
      (fun parent => (⟨parent, node.dims⟩ : Node)) =
        ((policy.elementParents relations node.element).map
          (fun parent => (⟨parent, node.dims⟩ : Node))).map (Node.renamed rename) := by
    simp [Node.renamed, h.elementParents_eq, Function.comp_def]
  have hInterface : Policy.isInterfaceElement others (node.renamed rename).element =
      Policy.isInterfaceElement relations node.element := by
    obtain ⟨element, dims⟩ := node
    cases element with
    | declared id => exact h.isInterface_eq id
    | primitive kind => rfl
  have hLeaves : Policy.arrayLeaves others node.dims =
      (Policy.arrayLeaves relations node.dims).map (Node.renamed rename) := by
    simp [Policy.arrayLeaves, Node.renamed, Element.renamed, h.root_eq, h.serializable_eq,
      h.cloneable_eq]
  have hArray : (node.renamed rename).isArray = node.isArray := rfl
  have hDims : (node.renamed rename).dims = node.dims := rfl
  rw [Policy.parents, Policy.parents, hArray, hDims, hLifted, hInterface, hLeaves,
    List.isEmpty_map]
  exact (apply_ite _ _ _ _).symm

end Relations.Renames

end

namespace Hierarchy

variable {declarations others : List Declaration} {hierarchy otherHierarchy : Hierarchy}
  {id : ClassId} {name : String}

/-- The identity that a type of one file has in another file. An identity without a type goes behind
the types of the other file. -/
def renamedId (declarations others : List Declaration) (id : ClassId) : ClassId :=
  match (typeNames declarations)[id.index]? with
  | some name => ⟨(typeNames others).idxOf name⟩
  | none => ⟨(typeNames others).length + id.index⟩

theorem Within.types_subset (h : Within declarations others) :
    types declarations ⊆ types others := by
  intro type hType
  rcases List.mem_append.1 hType with hFirst | hDeclared
  · exact List.mem_append_left _ hFirst
  · obtain ⟨declaration, hMem, rfl⟩ := List.mem_map.1 hDeclared
    obtain ⟨line, hMoved⟩ := h declaration hMem
    exact List.mem_append_right _ (List.mem_map.2 ⟨_, hMoved, rfl⟩)

theorem Within.typeNames_subset (h : Within declarations others) :
    typeNames declarations ⊆ typeNames others :=
  List.map_subset _ h.types_subset

/-- A type keeps its name. -/
theorem Within.getElem?_renamedId (h : Within declarations others) (id : ClassId) :
    (typeNames others)[(renamedId declarations others id).index]? =
      (typeNames declarations)[id.index]? := by
  rw [renamedId]
  cases hName : (typeNames declarations)[id.index]? with
  | some name => exact List.getElem?_idxOf (h.typeNames_subset (List.mem_of_getElem? hName))
  | none => exact List.getElem?_eq_none (Nat.le_add_right _ _)

theorem Within.renamedId_injective (h : Within declarations others)
    (hDistinct : (typeNames declarations).Nodup) :
    Function.Injective (renamedId declarations others) := by
  intro first second hSame
  have hNames := h.getElem?_renamedId first
  rw [hSame, h.getElem?_renamedId second] at hNames
  cases hName : (typeNames declarations)[first.index]? with
  | some name =>
      rw [hName] at hNames
      have hFirst := (idNamed?_eq_some_iff hDistinct).2 hName
      have hSecond := (idNamed?_eq_some_iff hDistinct).2 hNames
      exact Option.some.inj (hFirst.symm.trans hSecond)
  | none =>
      rw [hName] at hNames
      simp only [renamedId, hName, hNames] at hSame
      have hIndex := congrArg ClassId.index hSame
      exact congrArg ClassId.mk (Nat.add_left_cancel hIndex)

/-- Names denote the same types in both files. -/
theorem Within.idNamed?_eq (h : Within declarations others)
    (hDistinct : (typeNames declarations).Nodup) (hOthers : (typeNames others).Nodup)
    (hName : name ∈ typeNames declarations) :
    idNamed? others name = (idNamed? declarations name).map (renamedId declarations others) := by
  obtain ⟨place, hPlace⟩ := List.mem_iff_getElem?.1 hName
  have hId : idNamed? declarations name = some ⟨place⟩ := (idNamed?_eq_some_iff hDistinct).2 hPlace
  rw [hId, Option.map_some, idNamed?_eq_some_iff hOthers, h.getElem?_renamedId]
  exact hPlace

theorem Within.renamedId_eq_of_name (h : Within declarations others)
    (hOthers : (typeNames others).Nodup) {other : ClassId}
    (hId : (typeNames declarations)[id.index]? = some name)
    (hOther : (typeNames others)[other.index]? = some name) :
    renamedId declarations others id = other := by
  rw [← h.getElem?_renamedId, ← idNamed?_eq_some_iff hOthers] at hId
  rw [← idNamed?_eq_some_iff hOthers] at hOther
  exact Option.some.inj (hId.symm.trans hOther)

/-- The predeclared types keep their identities. -/
theorem Within.renamedId_predeclared (h : Within declarations others)
    (hOthers : (typeNames others).Nodup) (hId : id.isPredeclared = true) :
    renamedId declarations others id = id := by
  have hIndex : id.index < (predeclared.map Prod.fst).length := of_decide_eq_true hId
  have hName : ∀ all : List Declaration,
      (typeNames all)[id.index]? = some (predeclared.map Prod.fst)[id.index] := by
    intro all
    rw [typeNames, types, List.map_append, List.getElem?_append_left hIndex,
      List.getElem?_eq_getElem hIndex]
  exact h.renamedId_eq_of_name hOthers (hName _) (hName _)

theorem isKnown_iff : IsKnown declarations id ↔ id.index < (typeNames declarations).length := by
  rw [IsKnown, typeNames, List.length_map, length_types]

theorem Within.isKnown_renamedId_iff (h : Within declarations others) (id : ClassId) :
    IsKnown others (renamedId declarations others id) ↔ IsKnown declarations id := by
  rw [isKnown_iff, isKnown_iff, ← not_iff_not, Nat.not_lt, Nat.not_lt, ← List.getElem?_eq_none_iff,
    ← List.getElem?_eq_none_iff, h.getElem?_renamedId]

/-- What is not predeclared in one file is not predeclared in the other. -/
theorem Within.isPredeclared_renamedId (h : Within declarations others)
    (hDistinct : (typeNames declarations).Nodup) (hOthers : (typeNames others).Nodup)
    (id : ClassId) : (renamedId declarations others id).isPredeclared = id.isPredeclared := by
  by_cases hRenamed : (renamedId declarations others id).isPredeclared = true
  · have hSame := h.renamedId_injective hDistinct (h.renamedId_predeclared hOthers hRenamed)
    rw [hSame]
  · by_cases hId : id.isPredeclared = true
    · rw [h.renamedId_predeclared hOthers hId]
    · rw [Bool.not_eq_true] at hRenamed hId
      rw [hRenamed, hId]

section

variable (h : Within declarations others) (hOthers : Coherent others)
  (hMeans : Means declarations hierarchy) (hOtherMeans : Means others otherHierarchy)

include h hMeans hOtherMeans in
theorem Within.className_renamedId (id : ClassId) :
    otherHierarchy.catalog.className (renamedId declarations others id) =
      hierarchy.catalog.className id := by
  have hSame := h.getElem?_renamedId id
  by_cases hId : IsKnown declarations id
  · rw [hMeans.typeNames_getElem?_eq hId,
      hOtherMeans.typeNames_getElem?_eq ((h.isKnown_renamedId_iff id).2 hId)] at hSame
    exact Option.some.inj hSame
  · rw [Catalog.className, Catalog.className, hMeans.entry?_of_not_known hId,
      hOtherMeans.entry?_of_not_known ((h.isKnown_renamedId_iff id).not.2 hId)]

include h hOthers hMeans hOtherMeans in
/-- Files with as many declarations declare the same types. -/
theorem Within.declared_perm (hCoherent : Coherent declarations)
    (hLength : declarations.length = others.length) :
    otherHierarchy.declared.Perm
      (hierarchy.declared.map (renamedId declarations others)) := by
  have hInjective := h.renamedId_injective hCoherent.distinct
  have hNodup : (hierarchy.declared.map (renamedId declarations others)).Nodup :=
    (hMeans.declared ▸ nodup_declaredIds _ : hierarchy.declared.Nodup).map hInjective
  have hSubset : hierarchy.declared.map (renamedId declarations others) ⊆
      otherHierarchy.declared := by
    intro other hOther
    obtain ⟨id, hId, rfl⟩ := List.mem_map.1 hOther
    rw [hMeans.mem_declared_iff] at hId
    rwa [hOtherMeans.mem_declared_iff, h.isKnown_renamedId_iff,
      h.isPredeclared_renamedId hCoherent.distinct hOthers.distinct]
  refine ((List.subperm_of_subset hNodup hSubset).perm_of_length_le ?_).symm
  simp [hOtherMeans.declared, hMeans.declared, hLength]

include h hOthers hOtherMeans in
/-- What is declared in the first file is declared in the second one, in some line. -/
theorem Within.exists_reflects {place : Nat} {declaration : Declaration}
    (hPlace : declarations[place]? = some declaration) :
    ∃ line, otherHierarchy.Reflects others (renamedId declarations others ⟨3 + place⟩)
      { declaration with line } := by
  obtain ⟨line, hMoved⟩ := h declaration (List.mem_of_getElem? hPlace)
  obtain ⟨otherPlace, hOtherPlace⟩ := List.mem_iff_getElem?.1 hMoved
  have hName : (typeNames others)[3 + otherPlace]? = some declaration.name := by
    rw [typeNames_getElem?_declared hOtherPlace]
  have hId : renamedId declarations others ⟨3 + place⟩ = ⟨3 + otherPlace⟩ :=
    h.renamedId_eq_of_name hOthers.distinct (typeNames_getElem?_declared hPlace) hName
  exact ⟨line, hId ▸ hOtherMeans.reflects otherPlace _ hOtherPlace⟩

include h hOtherMeans in
theorem Within.entry?_of_not_known (hId : ¬IsKnown declarations id) :
    otherHierarchy.catalog.entry? (renamedId declarations others id) = none :=
  hOtherMeans.entry?_of_not_known ((h.isKnown_renamedId_iff id).not.2 hId)

variable (hCoherent : Coherent declarations)

include h hCoherent hOthers hMeans hOtherMeans

theorem Within.superclass?_renamedId (id : ClassId) :
    otherHierarchy.catalog.superclass? (renamedId declarations others id) =
      (hierarchy.catalog.superclass? id).map (renamedId declarations others) := by
  rcases cases_id declarations id with hFirst | ⟨place, declaration, hPlace, rfl⟩ | hNone
  · rw [h.renamedId_predeclared hOthers.distinct hFirst, (hMeans.unrelated id hFirst).1,
      (hOtherMeans.unrelated id hFirst).1]
    rfl
  · obtain ⟨line, hOther⟩ := h.exists_reflects hOthers hOtherMeans hPlace
    rw [hOther.superclass, (hMeans.reflects place declaration hPlace).superclass]
    cases declaration.kind with
    | interfaceType => rfl
    | classType =>
        cases hSuperclass : declaration.superclass with
        | none => exact congrArg some (h.renamedId_predeclared hOthers.distinct rfl).symm
        | some name =>
            have hKnown := (hCoherent.known _ (List.mem_of_getElem? hPlace)).superclass name
              hSuperclass
            exact h.idNamed?_eq hCoherent.distinct hOthers.distinct
              (List.mem_map.2 ⟨_, hKnown, rfl⟩)
  · rw [Catalog.superclass?, Catalog.superclass?, h.entry?_of_not_known hOtherMeans hNone,
      hMeans.entry?_of_not_known hNone]
    rfl

theorem Within.interfaces_renamedId (id : ClassId) :
    otherHierarchy.catalog.interfaces (renamedId declarations others id) =
      (hierarchy.catalog.interfaces id).map (renamedId declarations others) := by
  rcases cases_id declarations id with hFirst | ⟨place, declaration, hPlace, rfl⟩ | hNone
  · rw [h.renamedId_predeclared hOthers.distinct hFirst, (hMeans.unrelated id hFirst).2,
      (hOtherMeans.unrelated id hFirst).2]
    rfl
  · obtain ⟨line, hOther⟩ := h.exists_reflects hOthers hOtherMeans hPlace
    have hHere := (hMeans.reflects place declaration hPlace).interfaces
    have hKnown := (hCoherent.known _ (List.mem_of_getElem? hPlace)).interfaces
    apply hOther.interfaces_eq
    have hRenamed : declaration.interfaces.eraseDups.map (idNamed? others) =
        (declaration.interfaces.eraseDups.map (idNamed? declarations)).map
          (Option.map (renamedId declarations others)) := by
      rw [List.map_map]
      apply List.map_congr_left
      intro name hName
      exact h.idNamed?_eq hCoherent.distinct hOthers.distinct
        (List.mem_map.2 ⟨_, hKnown name (List.mem_eraseDups.1 hName), rfl⟩)
    rw [hRenamed, ← hHere, List.map_map, List.map_map]
    rfl
  · rw [Catalog.interfaces, Catalog.interfaces, h.entry?_of_not_known hOtherMeans hNone,
      hMeans.entry?_of_not_known hNone]
    rfl

omit hCoherent in
theorem Within.kind?_renamedId (id : ClassId) :
    otherHierarchy.catalog.kind? (renamedId declarations others id) =
      hierarchy.catalog.kind? id := by
  rcases cases_id declarations id with hFirst | ⟨place, declaration, hPlace, rfl⟩ | hNone
  · rw [h.renamedId_predeclared hOthers.distinct hFirst, Catalog.kind?, Catalog.kind?,
      hMeans.entry?_predeclared id hFirst, hOtherMeans.entry?_predeclared id hFirst]
  · obtain ⟨line, hOther⟩ := h.exists_reflects hOthers hOtherMeans hPlace
    exact hOther.kind.trans (hMeans.reflects place declaration hPlace).kind.symm
  · rw [Catalog.kind?, Catalog.kind?, h.entry?_of_not_known hOtherMeans hNone,
      hMeans.entry?_of_not_known hNone]

/-- The second file has the relations of the first one. -/
theorem Within.renames : hierarchy.catalog.relations.Renames (renamedId declarations others)
    otherHierarchy.catalog.relations where
  injective := h.renamedId_injective hCoherent.distinct
  superclass?_eq := h.superclass?_renamedId hOthers hMeans hOtherMeans hCoherent
  interfaces_eq := h.interfaces_renamedId hOthers hMeans hOtherMeans hCoherent
  isInterface_eq := by
    intro id
    have hKind := h.kind?_renamedId hOthers hMeans hOtherMeans id
    exact congrArg (· == some Kind.interfaceType) hKind
  root_eq := (h.renamedId_predeclared hOthers.distinct rfl).symm
  serializable_eq := (h.renamedId_predeclared hOthers.distinct rfl).symm
  cloneable_eq := (h.renamedId_predeclared hOthers.distinct rfl).symm

omit hCoherent hOthers in
/-- The identities in a node do not matter for how it is written. -/
theorem Within.written_renamed (node : Node) :
    (node.renamed (renamedId declarations others)).written otherHierarchy.catalog.className =
      node.written hierarchy.catalog.className := by
  obtain ⟨element, dims⟩ := node
  cases element with
  | declared id =>
      simp only [Node.written, Node.renamed, Element.renamed, Element.written,
        h.className_renamedId hMeans hOtherMeans id]
  | primitive kind => rfl

theorem Within.elementNamed?_renamed {name : String} {element : Element}
    (hElement : Node.elementNamed? hierarchy.catalog name = some element) :
    Node.elementNamed? otherHierarchy.catalog name =
      some (element.renamed (renamedId declarations others)) := by
  unfold Node.elementNamed? at hElement ⊢
  cases hKeyword : Primitive.ofKeyword? name with
  | some kind =>
      rw [hKeyword] at hElement
      cases hElement
      rfl
  | none =>
      rw [hKeyword] at hElement
      obtain ⟨id, hId, rfl⟩ := Option.map_eq_some_iff.1 hElement
      rw [hMeans.lookup?_eq] at hId
      have hName : name ∈ typeNames declarations := by
        by_contra hNone
        rw [idNamed?_eq_none_iff.2 hNone] at hId
        cases hId
      dsimp only
      rw [hOtherMeans.lookup?_eq, h.idNamed?_eq hCoherent.distinct hOthers.distinct hName, hId]
      rfl

/-- A text that denotes a type denotes the same type in the second file. -/
theorem Within.read_renamed {text : String} {node : Node}
    (hRead : Node.read hierarchy.catalog text = .ok node) :
    Node.read otherHierarchy.catalog text =
      .ok (node.renamed (renamedId declarations others)) := by
  unfold Node.read at hRead ⊢
  dsimp only at hRead ⊢
  split at hRead
  · cases hRead
  · rename_i hFormed
    rw [if_neg hFormed]
    split at hRead
    · cases hRead
    · rename_i element hElement
      rw [h.elementNamed?_renamed hOthers hMeans hOtherMeans hCoherent hElement]
      dsimp only
      rw [Node.lift?_renamed]
      split at hRead
      · cases hRead
      · rename_i hLifted
        cases hRead
        rw [hLifted]
        rfl

/-- By names, a type has the same answer in both files. -/
theorem Within.underNames_linearize (policy : Policy) (node : Node) (limit : Nat) :
    underNames (Node.written otherHierarchy.catalog.className)
        (linearize (policy.parents otherHierarchy.catalog.relations)
          (node.renamed (renamedId declarations others)) limit) =
      underNames (Node.written hierarchy.catalog.className)
        (linearize (policy.parents hierarchy.catalog.relations) node limit) := by
  have hRenames := h.renames hOthers hMeans hOtherMeans hCoherent
  have hWritten : Node.written otherHierarchy.catalog.className ∘
      Node.renamed (renamedId declarations others) =
        Node.written hierarchy.catalog.className :=
    funext (h.written_renamed hMeans hOtherMeans)
  rw [linearize_renamed (Node.renamed_injective hRenames.injective) (hRenames.parents_eq policy),
    underNames_underNames, hWritten]

end

/-- Files with the same lines declare the same types, under other identities. -/
theorem exists_renames_of_perm {source other : String} (hLoad : load source = .ok hierarchy)
    (hOther : load other = .ok otherHierarchy)
    (hLines : (Text.lines source.toList).Perm (Text.lines other.toList)) :
    ∃ rename, hierarchy.catalog.relations.Renames rename otherHierarchy.catalog.relations ∧
      otherHierarchy.declared.Perm (hierarchy.declared.map rename) := by
  obtain ⟨declarations, hDeclares, hCoherent, hMeans⟩ := means_of_load hLoad
  obtain ⟨others, hOtherDeclares, hOthers, hOtherMeans⟩ := means_of_load hOther
  have hStatements := statements_perm hLines
  have hWithin := hDeclares.within hOtherDeclares hStatements.subset
  have hLength : declarations.length = others.length := by
    simpa [hDeclares.statements_eq, hOtherDeclares.statements_eq] using hStatements.length_eq
  exact ⟨_, hWithin.renames hOthers hMeans hOtherMeans hCoherent,
    hWithin.declared_perm hOthers hMeans hOtherMeans hCoherent hLength⟩

/-- Let a file be loaded. A file with the same lines in any order is loaded as well. In every file
that is loaded and has these lines, and perhaps others, each type that can be written for the first
file has the same answer as there, up to the identities behind the names: the same linearization,
the same conflict, or the same chain that is too long. -/
theorem linearize_by_names {source other : String} (hLoad : load source = .ok hierarchy) :
    ((Text.lines source.toList).Perm (Text.lines other.toList) →
      ∃ otherHierarchy, load other = .ok otherHierarchy) ∧
    ∀ otherHierarchy, load other = .ok otherHierarchy →
      Text.lines source.toList ⊆ Text.lines other.toList →
        ∀ (policy : Policy) (limit : Nat) (text : String) (node : Node),
          Node.read hierarchy.catalog text = .ok node →
            ∃ otherNode, Node.read otherHierarchy.catalog text = .ok otherNode ∧
              underNames (Node.written otherHierarchy.catalog.className)
                  (linearize (policy.parents otherHierarchy.catalog.relations) otherNode limit) =
                underNames (Node.written hierarchy.catalog.className)
                  (linearize (policy.parents hierarchy.catalog.relations) node limit) := by
  constructor
  · intro hLines
    exact exists_load_of_perm (statements_perm hLines) ⟨hierarchy, hLoad⟩
  · intro otherHierarchy hOtherLoad hLines policy limit text node hRead
    obtain ⟨declarations, hDeclares, hCoherent, hMeans⟩ := means_of_load hLoad
    obtain ⟨others, hOtherDeclares, hOthers, hOtherMeans⟩ := means_of_load hOtherLoad
    have hWithin := hDeclares.within hOtherDeclares (statements_subset hLines)
    exact ⟨_, hWithin.read_renamed hOthers hMeans hOtherMeans hCoherent hRead,
      hWithin.underNames_linearize hOthers hMeans hOtherMeans hCoherent policy node limit⟩

/-- The lines of `tangledSource`, from the last one to the first one. -/
def tangledReversed : String :=
  "class Mix implements A,B,A\ninterface B extends A\ninterface A\n\nclass Sub extends Mix # or"

theorem perm_lines_tangledReversed :
    (Text.lines tangledSource.toList).Perm (Text.lines tangledReversed.toList) := by
  have hReversed : Text.lines tangledReversed.toList =
      (Text.lines tangledSource.toList).reverse := by
    decide +kernel
  rw [hReversed]
  exact (List.reverse_perm _).symm

/-- In `tangledSource` the second interface has the first one and the root behind it. -/
theorem linearizes_tangled (hMeans : Means tangledDeclarations hierarchy) :
    Linearizes (Policy.superclassFirst.parents hierarchy.catalog.relations) (.ofClass ⟨5⟩)
      ⟨.ofClass ⟨5⟩, [.ofClass ⟨4⟩, .ofClass .object]⟩ :=
  (orders_tangled hMeans).2.2

theorem read_tangled (hMeans : Means tangledDeclarations hierarchy) :
    Node.read hierarchy.catalog "B" = .ok (.ofClass ⟨5⟩) := by
  have hName : hierarchy.catalog.lookup? "B" = some ⟨5⟩ := (hMeans.lookup?_eq "B").trans rfl
  have hKeyword : Primitive.ofKeyword? "B" = none := by decide
  have hTrimmed : Text.trim "B".toList = ['B'] := by decide
  have hPeeled : Node.peel ['B'] = (['B'], 0) := by
    simp [Node.peel]
  have hElement : Node.elementNamed? hierarchy.catalog (String.ofList ['B']) =
      some (.declared ⟨5⟩) := by
    rw [Node.elementNamed?, hKeyword]
    exact congrArg (Option.map Element.declared) hName
  unfold Node.read
  dsimp only
  rw [hTrimmed, List.reverse_singleton, hPeeled]
  dsimp only
  rw [List.reverse_singleton, hElement]
  rfl

theorem linearize_by_names_tangled : ∃ hierarchy otherHierarchy otherNode,
    load tangledSource = .ok hierarchy ∧ load tangledReversed = .ok otherHierarchy ∧
    Node.read hierarchy.catalog "B" = .ok (.ofClass ⟨5⟩) ∧
    Node.read otherHierarchy.catalog "B" = .ok otherNode ∧
    underNames (Node.written otherHierarchy.catalog.className)
        (linearize (Policy.superclassFirst.parents otherHierarchy.catalog.relations) otherNode 3) =
      .ok ⟨"B", ["A", "Object"]⟩ := by
  obtain ⟨hierarchy, hLoad⟩ := exists_load_iff.2 ⟨_, declares_tangled, coherent_tangled⟩
  obtain ⟨declarations, hDeclares, _, hMeans⟩ := means_of_load hLoad
  obtain rfl := hDeclares.unique declares_tangled
  have hLines := perm_lines_tangledReversed
  obtain ⟨hLoads, hAnswers⟩ := @linearize_by_names hierarchy _ tangledReversed hLoad
  obtain ⟨otherHierarchy, hOther⟩ := hLoads hLines
  obtain ⟨otherNode, hRead, hSame⟩ := hAnswers otherHierarchy hOther hLines.subset
    .superclassFirst 3 "B" _ (read_tangled hMeans)
  refine ⟨hierarchy, otherHierarchy, otherNode, hLoad, hOther, read_tangled hMeans, hRead, ?_⟩
  rw [hSame, (linearizes_tangled hMeans).linearize_eq (Nat.le_refl 3)]
  have hExtended : hierarchy.catalog.className ⟨4⟩ = "A" := (hMeans.reflects 1 _ rfl).name
  have hExtends : hierarchy.catalog.className ⟨5⟩ = "B" := (hMeans.reflects 2 _ rfl).name
  have hRoot : hierarchy.catalog.className .object = "Object" := by
    rw [Catalog.className, hMeans.entry?_predeclared _ rfl]
    rfl
  simp [underNames, Except.map, Except.mapError, Linearization.map, Node.written, Element.written,
    Node.ofClass, hExtended, hExtends, hRoot]

end Hierarchy

end Ancestry
