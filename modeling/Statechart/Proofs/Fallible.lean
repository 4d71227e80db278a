import Mathlib.Data.List.Forall2

/-! Computations that fail with the first fault they meet: how they end, from how their parts
end.
-/

namespace Statechart

variable {ε α β : Type}

theorem bind_eq_ok_iff {first : Except ε α} {next : α → Except ε β} {result : β}
    : (first >>= next) = .ok result ↔ ∃ value, first = .ok value ∧ next value = .ok result := by
  cases first <;> simp [bind, Except.bind]

theorem bind_eq_error_iff {first : Except ε α} {next : α → Except ε β} {fault : ε}
    : (first >>= next) = .error fault
      ↔ first = .error fault ∨ ∃ value, first = .ok value ∧ next value = .error fault := by
  cases first <;> simp [bind, Except.bind]

theorem map_eq_ok_iff {first : Except ε α} {change : α → β} {result : β}
    : first.map change = .ok result ↔ ∃ value, first = .ok value ∧ change value = result := by
  cases first <;> simp [Except.map]

theorem map_eq_error_iff {first : Except ε α} {change : α → β} {fault : ε}
    : first.map change = .error fault ↔ first = .error fault := by
  cases first <;> simp [Except.map]

theorem mapError_eq_ok_iff {ε' : Type} {first : Except ε α} {change : ε → ε'} {value : α}
    : first.mapError change = .ok value ↔ first = .ok value := by
  cases first <;> simp [Except.mapError]

theorem mapError_eq_error_iff {ε' : Type} {first : Except ε α} {change : ε → ε'} {fault : ε'}
    : first.mapError change = .error fault
      ↔ ∃ before, first = .error before ∧ change before = fault := by
  cases first <;> simp [Except.mapError]

/-- A fault of a list of computations is the fault of one of them, by induction. -/
theorem exists_error_of_mapM {compute : α → Except ε β} {list : List α} {fault : ε}
    (h : list.mapM compute = .error fault)
    : ∃ element ∈ list, compute element = .error fault := by
  induction list with
  | nil => simp [pure, Except.pure] at h
  | cons first rest ih =>
      rw [List.mapM_cons] at h
      rcases bind_eq_error_iff.mp h with failed | ⟨value, _, h⟩
      · exact ⟨first, List.mem_cons_self, failed⟩
      rcases bind_eq_error_iff.mp h with failed | ⟨values, _, h⟩
      · obtain ⟨element, member, failed⟩ := ih failed
        exact ⟨element, List.mem_cons_of_mem _ member, failed⟩
      · cases h

/-- A fault of computations that hand on a value is the fault of one of them, by induction. -/
theorem exists_error_of_foldlM {compute : β → α → Except ε β} {list : List α} {start : β}
    {fault : ε} (h : list.foldlM compute start = .error fault)
    : ∃ value, ∃ element ∈ list, compute value element = .error fault := by
  induction list generalizing start with
  | nil => simp [pure, Except.pure] at h
  | cons first rest ih =>
      rw [List.foldlM_cons] at h
      rcases bind_eq_error_iff.mp h with failed | ⟨value, _, h⟩
      · exact ⟨start, first, List.mem_cons_self, failed⟩
      · obtain ⟨value, element, member, failed⟩ := ih h
        exact ⟨value, element, List.mem_cons_of_mem _ member, failed⟩

/-- Every value that a list of computations gives is given by one of them, by induction. -/
theorem exists_ok_of_mapM {compute : α → Except ε β} {list : List α} {values : List β}
    (h : list.mapM compute = .ok values)
    : ∀ value ∈ values, ∃ element ∈ list, compute element = .ok value := by
  induction list generalizing values with
  | nil =>
      intro value member
      cases h
      cases member
  | cons first rest ih =>
      rw [List.mapM_cons] at h
      obtain ⟨result, given, h⟩ := bind_eq_ok_iff.mp h
      obtain ⟨results, others, h⟩ := bind_eq_ok_iff.mp h
      cases h
      intro value member
      rcases List.mem_cons.mp member with rfl | later
      · exact ⟨first, List.mem_cons_self, given⟩
      · obtain ⟨element, found, given⟩ := ih others value later
        exact ⟨element, List.mem_cons_of_mem _ found, given⟩

/-- What each of some computations keeps that hand on a value, all of them keep; by induction. -/
theorem foldlM_keeps {holds : β → Prop} {compute : β → α → Except ε β} {list : List α}
    {start result : β} (before : holds start)
    (keeps
      : ∀ element ∈ list,
          ∀ value next, holds value → compute value element = .ok next → holds next)
    (h : list.foldlM compute start = .ok result)
    : holds result := by
  induction list generalizing start with
  | nil => exact Except.ok.inj h ▸ before
  | cons first rest ih =>
      rw [List.foldlM_cons] at h
      obtain ⟨next, given, h⟩ := bind_eq_ok_iff.mp h
      have after := keeps first List.mem_cons_self start next before given
      exact ih after (fun element member => keeps element (List.mem_cons_of_mem _ member)) h

-----------------------------------------------------------------------------------------
-- Lists of computations
-----------------------------------------------------------------------------------------

/-- A list of computations gives values when each gives the value in its place; by induction. -/
theorem mapM_eq_ok_iff {compute : α → Except ε β} {list : List α} {values : List β}
    : list.mapM compute = .ok values
      ↔ List.Forall₂ (fun element value => compute element = .ok value) list values := by
  induction list generalizing values with
  | nil => cases values <;> simp [pure, Except.pure]
  | cons first rest ih =>
      rw [List.mapM_cons, bind_eq_ok_iff]
      simp only [bind_eq_ok_iff, List.forall₂_cons_left_iff, ih, pure, Except.pure, Except.ok.injEq]
      constructor
      · intro ⟨value, given, others, rest, whole⟩
        exact ⟨value, others, given, rest, whole.symm⟩
      · intro ⟨value, others, given, rest, whole⟩
        exact ⟨value, given, others, rest, whole.symm⟩

/-- A list of partial computations likewise. -/
theorem mapM_eq_some_iff {compute : α → Option β} {list : List α} {values : List β}
    : list.mapM compute = some values
      ↔ List.Forall₂ (fun element value => compute element = some value) list values := by
  induction list generalizing values with
  | nil => cases values <;> simp
  | cons first rest ih =>
      simp only [List.mapM_cons, bind, Option.bind_eq_some_iff, List.forall₂_cons_left_iff, ih,
        pure, Option.some.injEq]
      constructor
      · intro ⟨value, given, others, rest, whole⟩
        exact ⟨value, others, given, rest, whole.symm⟩
      · intro ⟨value, others, given, rest, whole⟩
        exact ⟨value, given, others, rest, whole.symm⟩

/-- Computations that all give a value as wanted give a list of such; by induction. -/
theorem mapM_fulfills {holds : α → β → Prop} {compute : α → Except ε β} {list : List α}
    (each : ∀ element ∈ list, ∃ value, compute element = .ok value ∧ holds element value)
    : ∃ values, list.mapM compute = .ok values ∧ List.Forall₂ holds list values := by
  simp only [mapM_eq_ok_iff]
  induction list with
  | nil => exact ⟨[], .nil, .nil⟩
  | cons first rest ih =>
      obtain ⟨given, others⟩ := List.forall_mem_cons.mp each
      obtain ⟨value, computed, good⟩ := given
      obtain ⟨values, computedRest, goodRest⟩ := ih others
      exact ⟨value :: values, .cons computed computedRest, .cons good goodRest⟩

/-- Values that each come from where one function puts them are all read back from there. -/
theorem mapM_map_eq_ok {compute : α → Except ε β} {back : β → α} {values : List β}
    (each : ∀ value ∈ values, compute (back value) = .ok value)
    : (values.map back).mapM compute = .ok values := by
  rw [mapM_eq_ok_iff, List.forall₂_map_left_iff, List.forall₂_same]
  exact each

theorem mapM_map_eq_some {compute : α → Option β} {back : β → α} {values : List β}
    (each : ∀ value ∈ values, compute (back value) = some value)
    : (values.map back).mapM compute = some values := by
  rw [mapM_eq_some_iff, List.forall₂_map_left_iff, List.forall₂_same]
  exact each

/-- The values of computations are found by a function that finds each of them. -/
theorem eq_map_of_mapM {compute : α → Except ε β} {find : α → β} {list : List α}
    {values : List β} (each : ∀ element value, compute element = .ok value → value = find element)
    (h : list.mapM compute = .ok values)
    : values = list.map find := by
  have pairs : List.Forall₂ Eq values (list.map find) :=
    List.forall₂_map_right_iff.mpr ((mapM_eq_ok_iff.mp h).imp each).flip
  rwa [List.forall₂_eq_eq_eq] at pairs

/-- What computations start from is found by a function that finds it from each of their values. -/
theorem eq_map_of_mapM_back {compute : α → Except ε β} {back : β → α} {list : List α}
    {values : List β} (each : ∀ element value, compute element = .ok value → element = back value)
    (h : list.mapM compute = .ok values)
    : list = values.map back := by
  have pairs : List.Forall₂ Eq list (values.map back) :=
    List.forall₂_map_right_iff.mpr ((mapM_eq_ok_iff.mp h).imp each)
  rwa [List.forall₂_eq_eq_eq] at pairs

-----------------------------------------------------------------------------------------
-- Computations side by side
-----------------------------------------------------------------------------------------

/-- Two computations that fail with the same fault, or give values that are related. -/
inductive Related (holds : α → β → Prop) : Except ε α → Except ε β → Prop
  | ok {value other} (related : holds value other) : Related holds (.ok value) (.ok other)
  | error {fault} : Related holds (.error fault) (.error fault)

theorem Related.bind {α' β' : Type} {holds : α → β → Prop} {others : α' → β' → Prop}
    {first : Except ε α} {second : Except ε β} {next : α → Except ε α'}
    {next' : β → Except ε β'} (related : Related holds first second)
    (goesOn : ∀ value other, holds value other → Related others (next value) (next' other))
    : Related others (first >>= next) (second >>= next') := by
  cases related with
  | ok related => exact goesOn _ _ related
  | error => exact .error

theorem Related.map {α' β' : Type} {holds : α → β → Prop} {others : α' → β' → Prop}
    {first : Except ε α} {second : Except ε β} {change : α → α'} {change' : β → β'}
    (related : Related holds first second)
    (goesOn : ∀ value other, holds value other → others (change value) (change' other))
    : Related others (first.map change) (second.map change') := by
  cases related with
  | ok related => exact .ok (goesOn _ _ related)
  | error => exact .error

-----------------------------------------------------------------------------------------
-- Computations that refuse what is wrong
-----------------------------------------------------------------------------------------

/-- A computation that fails just if there are faults of some kind, and with one of them. -/
inductive Refuses (faults : ε → Prop) : Except ε α → Prop
  | ok {value} (none : ∀ fault, ¬ faults fault) : Refuses faults (.ok value)
  | error {fault} (one : faults fault) : Refuses faults (.error fault)

namespace Refuses

variable {faults others : ε → Prop} {result : Except ε α}

theorem exists_ok_iff (refuses : Refuses faults result)
    : (∃ value, result = .ok value) ↔ ∀ fault, ¬ faults fault := by
  cases refuses with
  | ok none => exact ⟨fun _ => none, fun _ => ⟨_, rfl⟩⟩
  | error one => exact ⟨fun ⟨_, given⟩ => (nomatch given), fun none => absurd one (none _)⟩

theorem fault_of_error {fault : ε} (refuses : Refuses faults result)
    (failed : result = .error fault)
    : faults fault := by
  subst failed
  cases refuses with
  | error one => exact one

theorem congr (refuses : Refuses faults result) (same : ∀ fault, faults fault ↔ others fault)
    : Refuses others result := by
  obtain rfl : faults = others := funext fun fault => propext (same fault)
  exact refuses

theorem bind {next : α → Except ε β} (first : Refuses faults result)
    (goesOn : ∀ value, Refuses others (next value))
    : Refuses (fun fault => faults fault ∨ others fault) (result >>= next) := by
  cases first with
  | error one => exact .error (Or.inl one)
  | @ok value none =>
      exact (goesOn value).congr fun fault =>
        ⟨Or.inr, fun either => either.resolve_left (none fault)⟩

/-- What cannot fail adds no faults. -/
theorem bind_ok {next : α → Except ε β} (first : Refuses faults result)
    (goesOn : ∀ value, ∃ other, next value = .ok other)
    : Refuses faults (result >>= next) := by
  cases first with
  | error one => exact .error one
  | @ok value none =>
      obtain ⟨other, given⟩ := goesOn value
      change Refuses faults (next value)
      rw [given]
      exact .ok none

theorem map (change : α → β) (first : Refuses faults result)
    : Refuses faults (change <$> result) := by
  cases first with
  | error one => exact .error one
  | ok none => exact .ok none

theorem mapError {ε' : Type} (change : ε → ε') (first : Refuses faults result)
    : Refuses (fun fault => ∃ before, faults before ∧ change before = fault)
        (result.mapError change) := by
  cases first with
  | error one => exact .error ⟨_, one, rfl⟩
  | ok none => exact .ok fun _ ⟨before, one, _⟩ => none before one

/-- A list of computations refuses what one of them does; by induction on the list. -/
theorem mapM {faults : α → ε → Prop} {compute : α → Except ε β} {list : List α}
    (each : ∀ element ∈ list, Refuses (faults element) (compute element))
    : Refuses (fun fault => ∃ element ∈ list, faults element fault) (list.mapM compute) := by
  induction list with
  | nil => exact .ok (by simp)
  | cons first rest ih =>
      obtain ⟨given, others⟩ := List.forall_mem_cons.mp each
      rw [List.mapM_cons]
      refine (given.bind fun _ => (ih others).bind_ok fun _ => ⟨_, rfl⟩).congr ?_
      simp

theorem mapM_option {faults : α → ε → Prop} {compute : α → Except ε β}
    (each : ∀ element, Refuses (faults element) (compute element)) (option : Option α)
    : Refuses (fun fault => ∃ element ∈ option, faults element fault) (option.mapM compute) := by
  cases option with
  | none => exact .ok (by simp)
  | some element =>
      rw [Option.mapM_some]
      exact ((each element).map some).congr (by simp)

end Refuses

end Statechart
