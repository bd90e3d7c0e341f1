import Ancestry.Proofs.Catalog
import Ancestry.Proofs.Hierarchy.Characters
import Ancestry.Proofs.Hierarchy.Statements
import Ancestry.Proofs.Node.Reading

/-! Nodes that are written and read back. Main statement: a node over a type of a loaded file is
read from what is written of it, and what is written of a node is the text that it was read from,
without the blanks (`Node.read_written`). -/
namespace Ancestry

theorem Primitive.keyword_of_ofKeyword? {word : String} {kind : Primitive}
    (h : ofKeyword? word = some kind) : kind.keyword = word := by
  simpa using List.find?_some h

theorem Primitive.isNameChar_keyword (kind : Primitive) :
    kind.keyword.toList ≠ [] ∧ ∀ c ∈ kind.keyword.toList, Text.isNameChar c = true := by
  rw [← List.all_eq_true]
  cases kind <;> decide

namespace Node

variable {catalog : Catalog} {element : Element} {node : Node}

theorem toList_brackets (dims : Nat) :
    (String.join (List.replicate dims "[]")).toList = brackets (List.replicate dims []) := by
  induction dims with
  | zero => rfl
  | succ dims ih =>
      rw [List.replicate_succ, String.join_cons, String.toList_append, ih]
      rfl

theorem toList_written (names : ClassId → String) (node : Node) :
    (node.written names).toList =
      (node.element.written names).toList ++ brackets (List.replicate node.dims []) := by
  rw [written, String.toList_append, toList_brackets]

theorem filter_brackets {gaps : List (List Char)}
    (hGaps : ∀ gap ∈ gaps, ∀ c ∈ gap, Text.isBlank c = true) :
    (brackets gaps).filter (fun c => !Text.isBlank c) =
      brackets (List.replicate gaps.length []) := by
  induction gaps with
  | nil => rfl
  | cons gap gaps ih =>
      obtain ⟨hGap, hRest⟩ := List.forall_mem_cons.1 hGaps
      have hNone : gap.filter (fun c => !Text.isBlank c) = [] :=
        List.filter_eq_nil_iff.2 (by simpa using hGap)
      have hPair : ['[', ']'].filter (fun c => !Text.isBlank c) = ['[', ']'] := by decide
      rw [brackets, List.flatMap_cons, List.filter_append, List.filter_append, hNone, hPair,
        ← brackets, ih hRest]
      rfl

/-- Without its blanks a text is its name with brackets behind it. -/
theorem Layout.filter_text (layout : Layout) :
    layout.text.filter (fun c => !Text.isBlank c) =
      layout.name ++ brackets (List.replicate layout.gaps.length []) := by
  have hBefore : layout.before.filter (fun c => !Text.isBlank c) = [] :=
    List.filter_eq_nil_iff.2 (by simpa using layout.isBlank_before)
  have hAfter : layout.after.filter (fun c => !Text.isBlank c) = [] :=
    List.filter_eq_nil_iff.2 (by simpa using layout.isBlank_after)
  have hName : layout.name.filter (fun c => !Text.isBlank c) = layout.name :=
    List.filter_eq_self.2 fun c hMem => by simp [isBlank_of_isNameChar (layout.isNameChar c hMem)]
  rw [Layout.text, List.filter_append, List.filter_append, List.filter_append, hBefore, hAfter,
    hName, filter_brackets layout.isBlank_gaps, List.nil_append, List.append_nil]

/-- An element that a name denotes is written as the name. -/
theorem written_of_elementNamed? {name : String} (hCatalog : catalog.Built)
    (h : elementNamed? catalog name = some element) : element.written catalog.className = name := by
  unfold elementNamed? at h
  split at h
  · rename_i kind hKind
    cases h
    exact Primitive.keyword_of_ofKeyword? hKind
  · obtain ⟨id, hFound, rfl⟩ := Option.map_eq_some_iff.1 h
    exact hCatalog.className_of_lookup? hFound

/-- A node is read from its written form if its element is known by its name. -/
theorem read_of_elementNamed? (names : ClassId → String)
    (hName : (node.element.written names).toList ≠ [] ∧
      ∀ c ∈ (node.element.written names).toList, Text.isNameChar c = true)
    (hElement : elementNamed? catalog (node.element.written names) = some node.element) :
    read catalog (node.written names) = .ok node := by
  let layout : Layout :=
    ⟨[], (node.element.written names).toList, List.replicate node.dims [], [], by simp, hName.1,
      hName.2, by simp, by simp⟩
  refine read_eq_ok_iff.2 ⟨layout, ?_, ?_, List.length_replicate⟩
  · rw [toList_written, Layout.text]
    simp [layout]
  · rwa [String.ofList_toList]

end Node

namespace Hierarchy

open Declaration (IsName)

variable {declarations : List Declaration} {hierarchy : Hierarchy} {id : ClassId}

/-- The element is a primitive kind or one of the types of the hierarchy. -/
def HasElement (hierarchy : Hierarchy) : Element → Prop
  | .declared id => id ∈ hierarchy.declared ∨ id.isPredeclared = true
  | .primitive _ => True

/-- The name of a known type denotes the type. -/
theorem Means.elementNamed?_className (h : Means declarations hierarchy)
    (hDistinct : (typeNames declarations).Nodup)
    (hName : IsName (hierarchy.catalog.className id)) (hId : IsKnown declarations id) :
    Node.elementNamed? hierarchy.catalog (hierarchy.catalog.className id) =
      some (.declared id) := by
  have hLookup : hierarchy.catalog.lookup? (hierarchy.catalog.className id) = some id := by
    rw [h.lookup?_eq, idNamed?_eq_some_iff hDistinct]
    exact h.typeNames_getElem?_eq hId
  rw [Node.elementNamed?, Primitive.ofKeyword?_eq_none_iff.2 hName.not_primitive, hLookup]
  rfl

/-- Every node over an element of a loaded file is read from its written form. -/
theorem read_of_hasElement {source : String} (hLoad : load source = .ok hierarchy) {node : Node}
    (hElement : hierarchy.HasElement node.element) :
    Node.read hierarchy.catalog (node.written hierarchy.catalog.className) = .ok node := by
  obtain ⟨declarations, hDeclares, hCoherent, hMeans⟩ := means_of_load hLoad
  obtain ⟨element, dims⟩ := node
  cases element with
  | primitive kind =>
      refine Node.read_of_elementNamed? _ kind.isNameChar_keyword ?_
      rw [Element.written, Node.elementNamed?, Primitive.ofKeyword?_keyword]
  | declared id =>
      have hKnown : IsKnown declarations id := by
        rcases hElement with hDeclared | hPredeclared
        · exact (hMeans.mem_declared_iff.1 hDeclared).1
        · exact isKnown_of_isPredeclared hPredeclared
      have hName := hMeans.isName_className hDeclares.isProper hKnown
      exact Node.read_of_elementNamed? _ hName.isNameChar
        (hMeans.elementNamed?_className hCoherent.distinct hName hKnown)

end Hierarchy

/-- What is written of a node is the text from which the node was read, without the blanks. -/
theorem Node.written_of_layout {catalog : Catalog} (hCatalog : catalog.Built) {node : Node}
    {layout : Layout}
    (hElement : elementNamed? catalog (String.ofList layout.name) = some node.element)
    (hDims : layout.gaps.length = node.dims) :
    (node.written catalog.className).toList =
      layout.text.filter (fun c => !Text.isBlank c) := by
  rw [toList_written, written_of_elementNamed? hCatalog hElement, String.toList_ofList,
    layout.filter_text, hDims]

/-- Writing and reading are inverse to each other up to blanks. -/
theorem Node.read_written :
    (∀ source hierarchy, Hierarchy.load source = .ok hierarchy →
      ∀ node : Node, hierarchy.HasElement node.element →
        read hierarchy.catalog (node.written hierarchy.catalog.className) = .ok node) ∧
    ∀ catalog : Catalog, catalog.Built → ∀ text node, read catalog text = .ok node →
      (node.written catalog.className).toList = text.toList.filter (fun c => !Text.isBlank c) ∧
      ∃ layout : Layout, text.toList = layout.text ∧ layout.gaps.length ≤ 255 := by
  refine ⟨fun _ _ hLoad _ => Hierarchy.read_of_hasElement hLoad,
    fun catalog hCatalog text node hRead => ?_⟩
  obtain ⟨layout, hText, hElement, hDims⟩ := read_eq_ok_iff.1 hRead
  refine ⟨?_, layout, hText, ?_⟩
  · rw [hText]
    exact written_of_layout hCatalog hElement hDims
  · rw [hDims]
    exact Nat.le_of_lt_succ node.dims.isLt

/-- The last class of a file, under two dimensions, with and without blanks. -/
theorem Node.read_written_tangled : ∃ hierarchy,
    Hierarchy.load Hierarchy.tangledSource = .ok hierarchy ∧
      let node : Node := ⟨.declared ⟨6⟩, 2⟩
      node.written hierarchy.catalog.className = "Mix[][]" ∧
        read hierarchy.catalog "Mix[][]" = .ok node ∧
        read hierarchy.catalog " Mix []  []" = .ok node ∧
        "Mix[][]".toList = " Mix []  []".toList.filter fun c => !Text.isBlank c := by
  obtain ⟨hierarchy, hLoad, hMeans⟩ :=
    Hierarchy.declares_tangled.exists_means Hierarchy.coherent_tangled
  have hName : hierarchy.catalog.className ⟨6⟩ = "Mix" := (hMeans.reflects 3 _ rfl).name
  have hWritten : Node.written hierarchy.catalog.className ⟨.declared ⟨6⟩, 2⟩ = "Mix[][]" := by
    rw [written, Element.written, hName]
    rfl
  have hElement : elementNamed? hierarchy.catalog "Mix" = some (.declared ⟨6⟩) :=
    congrArg (Option.map Element.declared) ((hMeans.lookup?_eq "Mix").trans rfl)
  have hBlank : Text.isBlank ' ' = true := by decide
  let spaced : Layout :=
    ⟨[' '], "Mix".toList, [[' '], [' ', ' ']], [], by simp [hBlank], by decide,
      List.all_eq_true.1 (by decide), by simp [hBlank], by simp⟩
  have hSpaced : read hierarchy.catalog " Mix []  []" = .ok ⟨.declared ⟨6⟩, 2⟩ :=
    read_eq_ok_iff.2 ⟨spaced, rfl, hElement, rfl⟩
  have hDeclared : (⟨6⟩ : ClassId) ∈ hierarchy.declared := by
    rw [hMeans.declared]
    decide
  obtain ⟨hRead, hWrite⟩ := read_written
  have hPlain := hRead _ _ hLoad ⟨.declared ⟨6⟩, 2⟩ (.inl hDeclared)
  have hSame := (hWrite _ (Hierarchy.built_of_load hLoad) _ _ hSpaced).1
  rw [hWritten] at hPlain hSame
  exact ⟨hierarchy, hLoad, hWritten, hPlain, hSpaced, hSame⟩

end Ancestry
