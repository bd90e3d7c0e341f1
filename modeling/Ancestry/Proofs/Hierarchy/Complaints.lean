import Ancestry.Proofs.Hierarchy.Grammar
import Ancestry.Proofs.Hierarchy.Faults
import Mathlib.Algebra.Group.Nat.Defs
import Mathlib.Data.Nat.Find

/-! What can be wrong with a line of a hierarchy file, in terms of what the lines declare. Main
statements: the three reasons for an error exclude each other (`Hierarchy.Redeclared.not_unresolved`
and the like), and which lines have one (`Hierarchy.exists_malformed_iff`,
`Hierarchy.exists_redeclared_iff`, `Hierarchy.exists_unresolved_iff`). -/
namespace Ancestry.Hierarchy

variable {source : String} {position : Nat} {text : List Char} {declaration other : Declaration}
  {error : Error}

/-- The number of lines of a source. -/
def lineCount (source : String) : Nat := (Text.lines source.toList).length

/-- The text of a source at a position among its lines. -/
def LineAt (source : String) (position : Nat) (text : List Char) : Prop :=
  ∃ lines, Text.HasLines source.toList lines ∧ lines[position]? = some text

theorem lineAt_iff :
    LineAt source position text ↔ (Text.lines source.toList)[position]? = some text := by
  simp [LineAt, Text.hasLines_iff]

theorem LineAt.unique {otherText : List Char} (h : LineAt source position text)
    (hOther : LineAt source position otherText) : text = otherText := by
  rw [lineAt_iff] at h hOther
  exact Option.some.inj (h.symm.trans hOther)

/-- The line at a position makes the declaration. -/
def DeclaresAt (source : String) (position : Nat) (declaration : Declaration) : Prop :=
  ∃ text, LineAt source position text ∧ Declaration.Says (position + 1) text (some declaration)

/-- The line at a position makes the first declaration of a name that is not predeclared. -/
structure FirstAt (source : String) (position : Nat) (declaration : Declaration) : Prop where
  declares : DeclaresAt source position declaration
  not_predeclared : declaration.name ∉ predeclared.map Prod.fst
  first : ∀ earlier < position, ∀ other, DeclaresAt source earlier other →
    other.name ≠ declaration.name

/-- The source has a type with the name and the kind. -/
inductive HasType (source : String) : String × Kind → Prop where
  | predeclared {type : String × Kind} (hType : type ∈ Hierarchy.predeclared) : HasType source type
  | declared {position : Nat} {declaration : Declaration}
      (hFirst : FirstAt source position declaration) :
      HasType source (declaration.name, declaration.kind)

/-- The error of a line that cannot be read. -/
inductive Malformed (source : String) (position : Nat) : Error → Prop where
  | intro {text : List Char} {cause : LineError} (hText : LineAt source position text)
      (hRead : Declaration.readLine (position + 1) text = .error cause) :
      Malformed source position (.badLine (position + 1) cause)

/-- The error of a line that gives a name again. It points to the first line that gives the name,
unless the name is predeclared. -/
inductive Redeclared (source : String) (position : Nat) : Error → Prop where
  | predeclared {declaration : Declaration} (hDeclares : DeclaresAt source position declaration)
      (hName : declaration.name ∈ Hierarchy.predeclared.map Prod.fst) :
      Redeclared source position (.duplicate (position + 1) declaration.name none)
  | declared {earlier : Nat} {declaration first : Declaration}
      (hDeclares : DeclaresAt source position declaration) (hEarlier : earlier < position)
      (hFirst : FirstAt source earlier first) (hName : first.name = declaration.name) :
      Redeclared source position (.duplicate (position + 1) declaration.name (some (earlier + 1)))

/-- The first parent of a declaration that is not the name of a type of the right kind. -/
def FirstUnresolved (source : String) (declaration : Declaration) (parent : String × Kind) : Prop :=
  ∃ before after, declaration.parents = before ++ parent :: after ∧
    (∀ other ∈ before, HasType source other) ∧ ¬HasType source parent

/-- The error of a line that gives a new name and has a parent that cannot be resolved. -/
inductive Unresolved (source : String) (position : Nat) : Error → Prop where
  | unknown {declaration : Declaration} {name : String} {kind : Kind}
      (hFirst : FirstAt source position declaration)
      (hParent : FirstUnresolved source declaration (name, kind))
      (hUnknown : ∀ other, ¬HasType source (name, other)) :
      Unresolved source position (.unknownType (position + 1) name)
  | wrongKind {declaration : Declaration} {name : String} {kind other : Kind}
      (hFirst : FirstAt source position declaration)
      (hParent : FirstUnresolved source declaration (name, kind))
      (hOther : HasType source (name, other)) :
      Unresolved source position (.wrongKind (position + 1) name kind)

/-- A line has the error for one of three reasons. -/
def Complaint (source : String) (position : Nat) (error : Error) : Prop :=
  Malformed source position error ∨ Redeclared source position error ∨
    Unresolved source position error

theorem DeclaresAt.line_eq (h : DeclaresAt source position declaration) :
    declaration.line = position + 1 := by
  obtain ⟨_, _, hSays⟩ := h
  exact hSays.1

theorem Malformed.line_eq (h : Malformed source position error) : error.line = position + 1 := by
  cases h
  rfl

theorem Redeclared.line_eq (h : Redeclared source position error) : error.line = position + 1 := by
  cases h <;> rfl

theorem Unresolved.line_eq (h : Unresolved source position error) : error.line = position + 1 := by
  cases h <;> rfl

theorem Complaint.line_eq (h : Complaint source position error) : error.line = position + 1 := by
  rcases h with hMalformed | hRedeclared | hUnresolved
  · exact hMalformed.line_eq
  · exact hRedeclared.line_eq
  · exact hUnresolved.line_eq

/-- The reasons exclude each other: a name that is given again is not given for the first time. -/
theorem Redeclared.exists_not_firstAt (h : Redeclared source position error) :
    ∃ declaration, DeclaresAt source position declaration ∧
      ¬FirstAt source position declaration := by
  cases h with
  | predeclared hDeclares hName =>
      exact ⟨_, hDeclares, fun hFirst => hFirst.not_predeclared hName⟩
  | declared hDeclares hEarlier hOther hName =>
      exact ⟨_, hDeclares, fun hFirst => hFirst.first _ hEarlier _ hOther.declares hName⟩

theorem Unresolved.exists_firstAt (h : Unresolved source position error) :
    ∃ declaration, FirstAt source position declaration := by
  cases h with
  | unknown hFirst => exact ⟨_, hFirst⟩
  | wrongKind hFirst => exact ⟨_, hFirst⟩

/-- What a line says is one thing. -/
theorem DeclaresAt.said_eq {said : Option Declaration} (h : DeclaresAt source position declaration)
    (hText : LineAt source position text) (hSays : Declaration.Says (position + 1) text said) :
    said = some declaration := by
  obtain ⟨found, hFound, hDeclares⟩ := h
  obtain rfl := hText.unique hFound
  rw [← Declaration.readLine_eq_ok_iff] at hSays hDeclares
  exact Except.ok.inj (hSays.symm.trans hDeclares)

theorem DeclaresAt.unique (h : DeclaresAt source position declaration)
    (hOther : DeclaresAt source position other) : declaration = other := by
  obtain ⟨text, hText, hSays⟩ := h
  exact Option.some.inj (hOther.said_eq hText hSays)

theorem Malformed.not_declaresAt (h : Malformed source position error) :
    ¬DeclaresAt source position declaration := by
  rintro ⟨text, hText, hSays⟩
  obtain ⟨hFound, hRead⟩ := h
  obtain rfl := hText.unique hFound
  rw [← Declaration.readLine_eq_ok_iff, hRead] at hSays
  cases hSays

theorem Malformed.not_redeclared (h : Malformed source position error) {otherError : Error} :
    ¬Redeclared source position otherError := by
  intro hRedeclared
  obtain ⟨_, hDeclares, _⟩ := hRedeclared.exists_not_firstAt
  exact h.not_declaresAt hDeclares

theorem Malformed.not_unresolved (h : Malformed source position error) {otherError : Error} :
    ¬Unresolved source position otherError := by
  intro hUnresolved
  obtain ⟨_, hFirst⟩ := hUnresolved.exists_firstAt
  exact h.not_declaresAt hFirst.declares

theorem Redeclared.not_unresolved (h : Redeclared source position error) {otherError : Error} :
    ¬Unresolved source position otherError := by
  intro hUnresolved
  obtain ⟨declaration, hDeclares, hNot⟩ := h.exists_not_firstAt
  obtain ⟨first, hFirst⟩ := hUnresolved.exists_firstAt
  rw [hDeclares.unique hFirst.declares] at hNot
  exact hNot hFirst

theorem exists_malformed_iff : (∃ error, Malformed source position error) ↔
    ∃ text, LineAt source position text ∧ ∀ said, ¬Declaration.Says (position + 1) text said := by
  simp only [← Declaration.readLine_eq_ok_iff]
  constructor
  · rintro ⟨_, ⟨hText, hRead⟩⟩
    refine ⟨_, hText, fun said hSaid => ?_⟩
    rw [hRead] at hSaid
    cases hSaid
  · rintro ⟨text, hText, hNothing⟩
    cases hRead : Declaration.readLine (position + 1) text with
    | error cause => exact ⟨_, .intro hText hRead⟩
    | ok said => exact absurd hRead (hNothing said)

/-- Of the lines that declare a name there is a first one. -/
theorem exists_firstAt (h : DeclaresAt source position declaration)
    (hName : declaration.name ∉ predeclared.map Prod.fst) :
    ∃ earlier ≤ position, ∃ first, FirstAt source earlier first ∧
      first.name = declaration.name := by
  classical
  have hSome : ∃ earlier first, DeclaresAt source earlier first ∧ first.name = declaration.name :=
    ⟨position, declaration, h, rfl⟩
  obtain ⟨first, hFirst, hSame⟩ := Nat.find_spec hSome
  refine ⟨Nat.find hSome, Nat.find_min' hSome ⟨declaration, h, rfl⟩, first,
    ⟨hFirst, hSame ▸ hName, fun earlier hEarlier other hOther hOtherName => ?_⟩, hSame⟩
  exact Nat.find_min hSome hEarlier ⟨other, hOther, hOtherName.trans hSame⟩

theorem exists_redeclared_iff : (∃ error, Redeclared source position error) ↔
    ∃ declaration, DeclaresAt source position declaration ∧
      (declaration.name ∈ predeclared.map Prod.fst ∨
        ∃ earlier < position, ∃ other, DeclaresAt source earlier other ∧
          other.name = declaration.name) := by
  constructor
  · rintro ⟨error, hRedeclared⟩
    cases hRedeclared with
    | predeclared hDeclares hName => exact ⟨_, hDeclares, .inl hName⟩
    | declared hDeclares hEarlier hFirst hName =>
        exact ⟨_, hDeclares, .inr ⟨_, hEarlier, _, hFirst.declares, hName⟩⟩
  · rintro ⟨declaration, hDeclares, hGiven⟩
    by_cases hName : declaration.name ∈ predeclared.map Prod.fst
    · exact ⟨_, .predeclared hDeclares hName⟩
    · obtain ⟨earlier, hEarlier, other, hOther, hSame⟩ := hGiven.resolve_left hName
      obtain ⟨place, hPlace, first, hFirst, hFirstName⟩ := exists_firstAt hOther (hSame ▸ hName)
      exact ⟨_, .declared hDeclares (Nat.lt_of_le_of_lt hPlace hEarlier) hFirst
        (hFirstName.trans hSame)⟩

theorem FirstUnresolved.mem {parent : String × Kind}
    (h : FirstUnresolved source declaration parent) :
    parent ∈ declaration.parents ∧ ¬HasType source parent := by
  obtain ⟨before, after, hParents, _, hParent⟩ := h
  exact ⟨hParents ▸ List.mem_append_cons_self, hParent⟩

/-- Of the parents that are not known there is a first one. -/
theorem exists_firstUnresolved (h : ∃ parent ∈ declaration.parents, ¬HasType source parent) :
    ∃ parent, FirstUnresolved source declaration parent := by
  classical
  obtain ⟨parent, hMem, hParent⟩ := h
  have hSome : (declaration.parents.find? fun parent => ¬HasType source parent).isSome :=
    List.find?_isSome.2 ⟨parent, hMem, decide_eq_true hParent⟩
  obtain ⟨first, hFirst⟩ := Option.isSome_iff_exists.1 hSome
  obtain ⟨hParent, before, after, hParents, hBefore⟩ := List.find?_eq_some_iff_append.1 hFirst
  exact ⟨first, before, after, hParents, by simpa using hBefore, of_decide_eq_true hParent⟩

theorem exists_unresolved_iff : (∃ error, Unresolved source position error) ↔
    ∃ declaration, FirstAt source position declaration ∧
      ∃ parent ∈ declaration.parents, ¬HasType source parent := by
  constructor
  · rintro ⟨error, hUnresolved⟩
    cases hUnresolved with
    | unknown hFirst hParent => exact ⟨_, hFirst, _, hParent.mem⟩
    | wrongKind hFirst hParent => exact ⟨_, hFirst, _, hParent.mem⟩
  · rintro ⟨declaration, hFirst, hSome⟩
    obtain ⟨⟨name, kind⟩, hParent⟩ := exists_firstUnresolved hSome
    by_cases hOther : ∃ other, HasType source (name, other)
    · obtain ⟨other, hOther⟩ := hOther
      exact ⟨_, .wrongKind hFirst hParent hOther⟩
    · exact ⟨_, .unknown hFirst hParent (not_exists.1 hOther)⟩

end Ancestry.Hierarchy
