import Ancestry.Hierarchy

/-! Computations that may fail, one after another or side by side. -/
namespace Ancestry

variable {ε ε' α β : Type}

theorem bind_eq_ok_iff {first : Except ε α} {next : α → Except ε β} {value : β} :
    (first >>= next) = .ok value ↔ ∃ middle, first = .ok middle ∧ next middle = .ok value := by
  cases first with
  | error cause =>
      constructor
      · intro h
        cases h
      · rintro ⟨_, hFirst, _⟩
        cases hFirst
  | ok middle =>
      constructor
      · exact fun h => ⟨middle, rfl, h⟩
      · rintro ⟨_, hFirst, hNext⟩
        cases hFirst
        exact hNext

theorem bind_eq_error_iff {first : Except ε α} {next : α → Except ε β} {cause : ε} :
    (first >>= next) = .error cause ↔
      first = .error cause ∨ ∃ middle, first = .ok middle ∧ next middle = .error cause := by
  cases first with
  | error found =>
      constructor
      · intro h
        cases h
        exact .inl rfl
      · rintro (hFirst | ⟨_, hFirst, _⟩)
        · cases hFirst
          rfl
        · cases hFirst
  | ok middle =>
      constructor
      · exact fun h => .inr ⟨middle, rfl, h⟩
      · rintro (hFirst | ⟨_, hFirst, hNext⟩)
        · cases hFirst
        · cases hFirst
          exact hNext

theorem map_eq_ok_iff {first : Except ε α} {f : α → β} {value : β} :
    (f <$> first) = .ok value ↔ ∃ middle, first = .ok middle ∧ f middle = value := by
  rw [map_eq_pure_bind, bind_eq_ok_iff]
  apply exists_congr
  intro middle
  apply and_congr_right
  intro _
  exact ⟨Except.ok.inj, congrArg Except.ok⟩

theorem map_eq_error_iff {first : Except ε α} {f : α → β} {cause : ε} :
    (f <$> first) = .error cause ↔ first = .error cause := by
  rw [map_eq_pure_bind, bind_eq_error_iff]
  constructor
  · rintro (hFirst | ⟨_, _, hSame⟩)
    · exact hFirst
    · cases hSame
  · exact .inl

theorem mapError_eq_ok_iff {first : Except ε α} {f : ε → ε'} {value : α} :
    first.mapError f = .ok value ↔ first = .ok value := by
  cases first with
  | error cause =>
      constructor
      · intro h
        cases h
      · intro h
        cases h
  | ok found =>
      constructor
      · exact fun h => congrArg Except.ok (Except.ok.inj h)
      · exact fun h => congrArg Except.ok (Except.ok.inj h)

theorem mapError_eq_error_iff {first : Except ε α} {f : ε → ε'} {cause : ε'} :
    first.mapError f = .error cause ↔ ∃ found, first = .error found ∧ f found = cause := by
  cases first with
  | error found =>
      constructor
      · exact fun h => ⟨found, rfl, Except.error.inj h⟩
      · rintro ⟨_, hFirst, rfl⟩
        cases hFirst
        rfl
  | ok value =>
      constructor
      · intro h
        cases h
      · rintro ⟨_, hFirst, _⟩
        cases hFirst

/-- A computation that fails only with given errors gives a value if there is none of them. -/
theorem exists_eq_ok_iff_of_error {result : Except ε α} {fault? : Option ε}
    (h : ∀ cause, result = .error cause ↔ fault? = some cause) :
    (∃ value, result = .ok value) ↔ fault? = none := by
  cases result with
  | error cause => simp [(h cause).1 rfl]
  | ok value =>
      have hNone : ∀ cause, fault? ≠ some cause := fun cause hSome => by cases (h cause).2 hSome
      simp [Option.eq_none_iff_forall_ne_some.2 hNone]

theorem mem_of_successes {results : List (Except ε α)} {value : α}
    (h : value ∈ successes results) : .ok value ∈ results := by
  obtain ⟨result, hResult, hValue⟩ := List.mem_filterMap.1 h
  cases result with
  | error cause => cases hValue
  | ok found =>
      obtain rfl := Option.some.inj hValue
      exact hResult

theorem mem_of_failures {results : List (Except ε α)} {cause : ε}
    (h : cause ∈ failures results) : .error cause ∈ results := by
  obtain ⟨result, hResult, hCause⟩ := List.mem_filterMap.1 h
  cases result with
  | error found =>
      obtain rfl := Option.some.inj hCause
      exact hResult
  | ok value => cases hCause

theorem mem_failures_iff {results : List (Except ε α)} {cause : ε} :
    cause ∈ failures results ↔ .error cause ∈ results :=
  ⟨mem_of_failures, fun h => List.mem_filterMap.2 ⟨_, h, rfl⟩⟩

/-- The errors are related just as the computations are that failed with them. -/
theorem pairwise_failures_iff {results : List (Except ε α)} {r : ε → ε → Prop} :
    (failures results).Pairwise r ↔ results.Pairwise fun first second =>
      ∀ cause, first = .error cause → ∀ other, second = .error other → r cause other := by
  rw [failures, List.pairwise_filterMap]
  refine List.Pairwise.iff fun first second => ?_
  cases first <;> cases second <;> simp

/-- The values are those of each computation alone, one after the other. -/
theorem successes_map (items : List β) (f : β → Except ε α) :
    successes (items.map f) = items.flatMap fun item => successes [f item] := by
  induction items with
  | nil => rfl
  | cons item items ih =>
      rw [List.flatMap_cons, ← ih]
      exact List.filterMap_append (l := [f item])

theorem failures_map (items : List β) (f : β → Except ε α) :
    failures (items.map f) = items.flatMap fun item => failures [f item] := by
  induction items with
  | nil => rfl
  | cons item items ih =>
      rw [List.flatMap_cons, ← ih]
      exact List.filterMap_append (l := [f item])

@[simp] theorem successes_map_ok (values : List α) :
    successes (values.map (Except.ok : α → Except ε α)) = values := by
  induction values with
  | nil => rfl
  | cons value values ih => exact congrArg (value :: ·) ih

/-- Without failures there are values only. -/
theorem failures_eq_nil_iff {results : List (Except ε α)} :
    failures results = [] ↔ ∃ values : List α, results = values.map .ok := by
  induction results with
  | nil => simp [failures]
  | cons result results ih =>
      cases result with
      | error cause =>
          constructor
          · intro h
            cases h
          · rintro ⟨values, hSame⟩
            cases values <;> cases hSame
      | ok value =>
          change failures results = [] ↔ _
          rw [ih]
          constructor
          · rintro ⟨values, rfl⟩
            exact ⟨value :: values, rfl⟩
          · rintro ⟨values, hSame⟩
            cases values with
            | nil => cases hSame
            | cons _ values => exact ⟨values, (List.cons.inj hSame).2⟩

theorem exists_map_eq_map_ok_iff {items : List β} {f : β → Except ε α} :
    (∃ values : List α, items.map f = values.map .ok) ↔
      ∀ item ∈ items, ∃ value, f item = .ok value := by
  induction items with
  | nil => simp
  | cons item items ih =>
      rw [List.forall_mem_cons, ← ih]
      constructor
      · rintro ⟨values, hSame⟩
        cases values with
        | nil => cases hSame
        | cons value values =>
            obtain ⟨hHere, hRest⟩ := List.cons.inj hSame
            exact ⟨⟨value, hHere⟩, values, hRest⟩
      · rintro ⟨⟨value, hHere⟩, values, hRest⟩
        refine ⟨value :: values, ?_⟩
        rw [List.map_cons, hHere, hRest, List.map_cons]

end Ancestry
