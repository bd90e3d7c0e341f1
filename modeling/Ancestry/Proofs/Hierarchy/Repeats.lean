import Ancestry.Proofs.Hierarchy.Identities

/-! The first pass over a hierarchy file in which names may be given again. Only the first
declaration of a name counts. Main statements: the pass leaves the same types behind as if there
were no other declarations (`Hierarchy.named_firsts`), and one error for each of them, which points
to the first one (`Hierarchy.mem_errors_nameAll_iff`). -/
namespace Ancestry

/-- A list with one more item is split at that item or at one before it. -/
theorem exists_split_append_singleton_iff {α : Type} {items : List α} {last : α}
    {p : List α → α → Prop} :
    (∃ before item after, items ++ [last] = before ++ item :: after ∧ p before item) ↔
      (∃ before item after, items = before ++ item :: after ∧ p before item) ∨ p items last := by
  constructor
  · rintro ⟨before, item, after, hSplit, h⟩
    rcases List.eq_nil_or_concat after with rfl | ⟨others, other, rfl⟩
    · obtain ⟨rfl, hLast⟩ := List.append_inj' hSplit rfl
      cases hLast
      exact .inr h
    · rw [List.concat_eq_append, ← List.cons_append, ← List.append_assoc] at hSplit
      obtain ⟨rfl, _⟩ := List.append_inj' hSplit rfl
      exact .inl ⟨before, item, others, rfl, h⟩
  · rintro (⟨before, item, after, rfl, h⟩ | h)
    · exact ⟨before, item, after ++ [last], by simp, h⟩
    · exact ⟨items, last, [], rfl, h⟩

namespace Hierarchy

variable {declarations : List Declaration} {declaration first : Declaration} {names : Names}
  {name : String} {id : ClassId} {error : Error}

/-- The declarations that give a new name, in their order. -/
def firsts (declarations : List Declaration) : List Declaration :=
  declarations.foldl (fun given declaration =>
    if declaration.name ∈ typeNames given then given else given ++ [declaration]) []

theorem firsts_append (declarations : List Declaration) (declaration : Declaration) :
    firsts (declarations ++ [declaration]) =
      if declaration.name ∈ typeNames (firsts declarations) then firsts declarations
      else firsts declarations ++ [declaration] := by
  rw [firsts, List.foldl_append]
  rfl

theorem firsts_sublist (declarations : List Declaration) :
    (firsts declarations).Sublist declarations := by
  induction declarations using List.reverseRecOn with
  | nil => exact List.Sublist.refl _
  | append_singleton declarations declaration ih =>
      rw [firsts_append]
      split
      · exact ih.trans (List.sublist_append_left _ _)
      · exact ih.append_right _

theorem nodup_typeNames_firsts (declarations : List Declaration) :
    (typeNames (firsts declarations)).Nodup := by
  induction declarations using List.reverseRecOn with
  | nil => decide
  | append_singleton declarations declaration ih =>
      rw [firsts_append]
      split
      · exact ih
      · rename_i hNew
        exact nodup_typeNames_append.2 ⟨ih, hNew⟩

/-- No name is lost. -/
theorem mem_typeNames_firsts :
    name ∈ typeNames (firsts declarations) ↔ name ∈ typeNames declarations := by
  induction declarations using List.reverseRecOn with
  | nil => exact Iff.rfl
  | append_singleton declarations declaration ih =>
      rw [firsts_append, typeNames_append, List.mem_append, ← ih]
      split
      · rename_i hGiven
        constructor
        · exact .inl
        · rintro (hOld | hSame)
          · exact hOld
          · rwa [List.mem_singleton.1 hSame]
      · rw [typeNames_append, List.mem_append]

theorem mem_firsts_iff : declaration ∈ firsts declarations ↔
    ∃ before item after, declarations = before ++ item :: after ∧
      item.name ∉ typeNames before ∧ item = declaration := by
  induction declarations using List.reverseRecOn with
  | nil => simp [firsts]
  | append_singleton declarations last ih =>
      rw [exists_split_append_singleton_iff, ← ih, firsts_append]
      by_cases hGiven : last.name ∈ typeNames declarations
      · rw [if_pos (mem_typeNames_firsts.2 hGiven)]
        simp [hGiven]
      · rw [if_neg (mem_typeNames_firsts.not.2 hGiven)]
        simp [hGiven, eq_comm]

theorem Names.add_of_given {earlier : ClassId}
    (h : names.catalog.lookup? declaration.name = some earlier) :
    names.add declaration =
      ⟨names.catalog, names.lines, names.accepted, names.errors.push
        (.duplicate declaration.line declaration.name (lineIn? names.lines earlier))⟩ := by
  rw [add, h]

/-- The state of the first pass as if nothing had been wrong. -/
def Names.cleared (names : Names) : Names := ⟨names.catalog, names.lines, names.accepted, #[]⟩

theorem Names.catalog_cleared (names : Names) : names.cleared.catalog = names.catalog := rfl

theorem Names.lines_cleared (names : Names) : names.cleared.lines = names.lines := rfl

theorem Names.cleared_add_of_given {earlier : ClassId}
    (h : names.catalog.lookup? declaration.name = some earlier) :
    (names.add declaration).cleared = names.cleared := by
  rw [add_of_given h]
  rfl

theorem Names.cleared_add_of_new (h : names.catalog.lookup? declaration.name = none) :
    (names.add declaration).cleared = names.cleared.add declaration := by
  have hCleared : names.cleared.catalog.lookup? declaration.name = none := by
    rw [catalog_cleared]
    exact h
  rw [add_of_new h, add_of_new hCleared]
  rfl

theorem resolveAll_cleared (names : Names) : resolveAll names.cleared = resolveAll names := rfl

/-- The declarations that give a name again change nothing but the errors. -/
theorem named_firsts (declarations : List Declaration) :
    Named (firsts declarations) (nameAll declarations).cleared := by
  induction declarations using List.reverseRecOn with
  | nil => exact named_initial
  | append_singleton declarations declaration ih =>
      have hLookupEq := ih.lookup?_eq declaration.name
      rw [Names.catalog_cleared] at hLookupEq
      rw [nameAll_append, firsts_append]
      cases hLookup : (nameAll declarations).catalog.lookup? declaration.name with
      | some earlier =>
          have hGiven : declaration.name ∈ typeNames (firsts declarations) := by
            by_contra hNew
            rw [hLookup, idNamed?_eq_none_iff.2 hNew] at hLookupEq
            cases hLookupEq
          rw [if_pos hGiven, Names.cleared_add_of_given hLookup]
          exact ih
      | none =>
          have hNew : declaration.name ∉ typeNames (firsts declarations) := by
            rw [← idNamed?_eq_none_iff, ← hLookupEq]
            exact hLookup
          rw [if_neg hNew, Names.cleared_add_of_new hLookup]
          exact ih.add hNew

theorem mem_typeNames_iff : name ∈ typeNames declarations ↔
    name ∈ predeclared.map Prod.fst ∨ ∃ declaration ∈ declarations, declaration.name = name := by
  rw [typeNames, types, List.map_append, List.mem_append, List.map_map]
  exact or_congr_right List.mem_map

/-- What is wrong with a declaration behind some others if its name is given before. -/
inductive Repeats (before : List Declaration) (declaration : Declaration) : Error → Prop where
  | predeclared (hName : declaration.name ∈ Hierarchy.predeclared.map Prod.fst) :
      Repeats before declaration (.duplicate declaration.line declaration.name none)
  | declared {first : Declaration} (hFirst : first ∈ firsts before)
      (hName : first.name = declaration.name) :
      Repeats before declaration (.duplicate declaration.line declaration.name (some first.line))

theorem Repeats.mem_typeNames_firsts (h : Repeats declarations declaration error) :
    declaration.name ∈ typeNames (firsts declarations) := by
  rw [mem_typeNames_iff]
  cases h with
  | predeclared hName => exact .inl hName
  | declared hFirst hName => exact .inr ⟨_, hFirst, hName⟩

/-- The error that the first pass adds for a declaration, if it does. -/
def repeatError? (names : Names) (declaration : Declaration) : Option Error :=
  (names.catalog.lookup? declaration.name).map fun earlier =>
    .duplicate declaration.line declaration.name (lineIn? names.lines earlier)

theorem errors_add (names : Names) (declaration : Declaration) :
    (names.add declaration).errors.toList =
      names.errors.toList ++ (repeatError? names declaration).toList := by
  rw [repeatError?]
  cases hLookup : names.catalog.lookup? declaration.name with
  | some earlier => simp [Names.add_of_given hLookup]
  | none => simp [Names.add_of_new hLookup]

theorem not_mem_predeclared (hDistinct : (typeNames declarations).Nodup)
    (hDeclaration : declaration ∈ declarations) :
    declaration.name ∉ predeclared.map Prod.fst := by
  rw [typeNames, types, List.map_append, List.map_map] at hDistinct
  intro hName
  exact (List.nodup_append.1 hDistinct).2.2 _ hName _ (List.mem_map_of_mem hDeclaration) rfl

/-- Declarations with different names are known by their names. -/
theorem eq_of_name_eq {other : Declaration} (hDistinct : (typeNames declarations).Nodup)
    (hDeclaration : declaration ∈ declarations) (hOther : other ∈ declarations)
    (hName : declaration.name = other.name) : declaration = other := by
  rw [typeNames, types, List.map_append, List.map_map] at hDistinct
  exact List.inj_on_of_nodup_map (List.nodup_append.1 hDistinct).2.1 hDeclaration hOther hName

/-- Where a name was given: nowhere in the file, or in the line of its declaration. -/
theorem Named.cases_lineIn? (h : Named declarations names)
    (hDistinct : (typeNames declarations).Nodup) (hId : idNamed? declarations name = some id) :
    (name ∈ predeclared.map Prod.fst ∧ lineIn? names.lines id = none) ∨
      ∃ first ∈ declarations, first.name = name ∧
        lineIn? names.lines id = some first.line := by
  have hPlace := (idNamed?_eq_some_iff hDistinct).1 hId
  rcases cases_id declarations id with hFirst | ⟨place, first, hDeclared, rfl⟩ | hUnknown
  · left
    have hIndex : id.index < (predeclared.map Prod.fst).length := of_decide_eq_true hFirst
    rw [typeNames, types, List.map_append, List.getElem?_append_left hIndex] at hPlace
    exact ⟨List.mem_of_getElem? hPlace, if_pos hFirst⟩
  · right
    rw [typeNames_getElem?_declared hDeclared] at hPlace
    refine ⟨first, List.mem_of_getElem? hDeclared, Option.some.inj hPlace, ?_⟩
    have hUser : ¬(⟨3 + place⟩ : ClassId).isPredeclared = true := fun hPredeclared =>
      absurd (of_decide_eq_true hPredeclared : 3 + place < 3) (by omega)
    rw [lineIn?, if_neg hUser]
    simp [← Array.getElem?_toList, h.lines, hDeclared, ClassId.predeclaredCount]
  · exact absurd (isKnown_of_idNamed? hId) hUnknown

theorem repeatError?_eq_some_iff :
    repeatError? (nameAll declarations) declaration = some error ↔
      Repeats declarations declaration error := by
  have hNamed := named_firsts declarations
  have hDistinct := nodup_typeNames_firsts declarations
  have hLookup := hNamed.lookup?_eq declaration.name
  rw [Names.catalog_cleared] at hLookup
  rw [repeatError?, ← Names.lines_cleared, Option.map_eq_some_iff]
  constructor
  · rintro ⟨earlier, hEarlier, rfl⟩
    rw [hEarlier] at hLookup
    rcases hNamed.cases_lineIn? hDistinct hLookup.symm with
      ⟨hName, hLine⟩ | ⟨first, hFirst, hName, hLine⟩
    · rw [hLine]
      exact .predeclared hName
    · rw [hLine]
      exact .declared hFirst hName
  · intro hRepeats
    obtain ⟨earlier, hEarlier⟩ : ∃ earlier,
        idNamed? (firsts declarations) declaration.name = some earlier := by
      rw [← Option.ne_none_iff_exists', Ne, idNamed?_eq_none_iff, not_not]
      exact hRepeats.mem_typeNames_firsts
    refine ⟨earlier, hLookup.trans hEarlier, ?_⟩
    rcases hNamed.cases_lineIn? hDistinct hEarlier with
      ⟨hName, hLine⟩ | ⟨first, hFirst, hName, hLine⟩
    · rw [hLine]
      cases hRepeats with
      | predeclared => rfl
      | declared hOther hSame =>
          exact absurd (hSame ▸ hName) (not_mem_predeclared hDistinct hOther)
    · rw [hLine]
      cases hRepeats with
      | predeclared hPredeclared =>
          exact absurd (hName ▸ hPredeclared) (not_mem_predeclared hDistinct hFirst)
      | declared hOther hSame =>
          rw [eq_of_name_eq hDistinct hFirst hOther (hName.trans hSame.symm)]

theorem mem_errors_nameAll_iff : error ∈ (nameAll declarations).errors.toList ↔
    ∃ before declaration after, declarations = before ++ declaration :: after ∧
      Repeats before declaration error := by
  induction declarations using List.reverseRecOn with
  | nil => simp [nameAll, Names.initial]
  | append_singleton declarations last ih =>
      rw [nameAll_append, errors_add, List.mem_append, ih, exists_split_append_singleton_iff,
        ← repeatError?_eq_some_iff, Option.mem_toList]

/-- The errors come in the order of the declarations. -/
theorem errors_nameAll_sublist (declarations : List Declaration) :
    ((nameAll declarations).errors.toList.map (·.line)).Sublist
      (declarations.map (·.line)) := by
  induction declarations using List.reverseRecOn with
  | nil => exact List.Sublist.refl _
  | append_singleton declarations last ih =>
      rw [nameAll_append, errors_add, List.map_append, List.map_append]
      refine ih.append ?_
      rw [repeatError?]
      cases (nameAll declarations).catalog.lookup? last.name with
      | none => exact List.nil_sublist _
      | some earlier => exact List.Sublist.refl _

end Hierarchy

end Ancestry
