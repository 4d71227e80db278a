import Statechart.Diagram.Document
import Statechart.Proofs.Fallible
import Statechart.Proofs.Json.Fields

/-! Transitions with their functions by name, and the documents that write them. Such a text is read
back from its document, whichever of its fields are there. Of an object from which it is read, its
document keeps the members that have something to tell: those of its fields, unless they are null.
-/

namespace Statechart

open Json

theorem optional?_string (text : Option String)
    : optional? string? (text.map .string) = some text := by
  cases text <;> rfl

variable {change : Json → Json}

theorem same_kept (kept : ∀ text, change (.string text) = .string text) (text : String)
    : same (.string text) (change (.string text)) = true := by
  rw [kept]
  exact same_string text

/-- A text that is read is written as what there is to read. -/
theorem rel_of_string? {value : Json} {text : String}
    (kept : ∀ text, change (.string text) = .string text) (read : string? value = some text)
    : Option.Rel (same · · = true) (some (.string text))
        ((Record.present (some value)).map change) := by
  cases value <;> cases read
  exact .some (same_kept kept text)

theorem rel_of_optional_string? {field : Option Json} {text : Option String}
    (kept : ∀ text, change (.string text) = .string text)
    (read : optional? string? field = some text)
    : Option.Rel (same · · = true) (text.map .string) ((Record.present field).map change) := by
  have read := rel_of_optional? read
  generalize Record.present field = value at read
  cases read with
  | none => exact .none
  | @some value text read =>
      cases value <;> cases read
      exact .some (same_kept kept text)

namespace ClauseText

/-- The fields that a clause is written with. -/
def fields (clause : ClauseText) : List (String × Option Json) :=
  [("predicate", some (.string clause.predicate)), ("to", clause.target.map .string),
    ("action", clause.action.map .string)]

theorem json_eq_written (clause : ClauseText)
    : clause.json = .object (Record.written clause.fields) := by
  obtain ⟨predicate, target, action⟩ := clause
  cases target <;> cases action <;> rfl

/-- The document of a clause without members that are null or no fields. -/
def bare : Json → Json :=
  Record.bare ["predicate", "to", "action"] (fun _ value => value)

theorem ofJson?_json (clause : ClauseText) : ofJson? clause.json = some clause := by
  obtain ⟨predicate, target, action⟩ := clause
  cases target <;> cases action <;> rfl

/-- A clause that is read from an object is written as what is left of the object. -/
theorem same_bare {clause : ClauseText} {document : Json} (object : document.isObject = true)
    (read : ofJson? document = some clause)
    : same clause.json (bare document) = true := by
  obtain ⟨members, rfl⟩ := exists_members_of_isObject object
  simp only [ofJson?, fields?, Record.ofMembers?, bind, Option.bind_eq_some_iff,
    mapM_eq_some_iff, List.forall₂_cons_left_iff, List.forall₂_nil_left_iff] at read
  obtain ⟨_, ⟨predicate, _, foundPredicate, ⟨target, _, foundTarget, ⟨action, _, foundAction, rfl,
    rfl⟩, rfl⟩, rfl⟩, read⟩ := read
  obtain _ | predicate := predicate
  · cases read
  simp only [Option.bind_eq_some_iff] at read
  obtain ⟨predicateName, readPredicate, targetName, readTarget, actionName, readAction,
    read⟩ := read
  cases read
  rw [json_eq_written]
  refine Json.same_bare (by simp [fields]) ?_
  simp only [fields, List.forall_mem_cons]
  refine ⟨⟨_, foundPredicate, rel_of_string? (fun _ => rfl) readPredicate⟩,
    ⟨_, foundTarget, rel_of_optional_string? (fun _ => rfl) readTarget⟩,
    ⟨_, foundAction, rel_of_optional_string? (fun _ => rfl) readAction⟩,
    List.forall_mem_nil _⟩

end ClauseText

namespace TransitionText

/-- The fields that a transition is written with. -/
def fields (transition : TransitionText) : List (String × Option Json) :=
  [("from", some (.string transition.source)), ("to", transition.target.map .string),
    ("event", transition.event.map .string), ("action", transition.action.map .string),
    ("guards", transition.guards.map (fun guards => .array (guards.map ClauseText.json)))]

theorem json_eq_written (transition : TransitionText)
    : transition.json = .object (Record.written transition.fields) := by
  obtain ⟨source, event, target, action, guards⟩ := transition
  cases event <;> cases target <;> cases action <;> cases guards <;> rfl

/-- Clauses are read back if each clause is. -/
theorem optional?_guards {read : Json → Option ClauseText}
    (each : ∀ clause : ClauseText, read clause.json = some clause)
    (guards : Option (List ClauseText))
    : optional? (fun guards => guards.items?.bind (·.mapM read))
        (guards.map (fun guards => .array (guards.map ClauseText.json)))
      = some guards := by
  cases guards with
  | none => rfl
  | some guards =>
      have clauses : (guards.map ClauseText.json).mapM read = some guards :=
        mapM_map_eq_some (fun clause _ => each clause)
      simp only [Option.map_some, optional?, items?, Option.bind_some, clauses]

theorem ofJson?_json (transition : TransitionText)
    : ofJson? transition.json = some transition := by
  obtain ⟨source, event, target, action, guards⟩ := transition
  have found
      : fields? ["from", "event", "to", "action", "guards"] 5
            (json ⟨source, event, target, action, guards⟩)
        = some
            [some (.string source), event.map .string, target.map .string, action.map .string,
              guards.map (fun guards => .array (guards.map ClauseText.json))] := by
    cases event <;> cases target <;> cases action <;> cases guards <;> rfl
  have guarded := optional?_guards ClauseText.ofJson?_json guards
  simp only [ofJson?, found, string?, optional?_string, guarded, bind, Option.bind_some, pure]

/-- The documents of a transition's clauses likewise. -/
def bareGuards : Json → Json
  | .array clauses => .array (clauses.map ClauseText.bare)
  | other => other

/-- The document of a transition without members that are null or no fields, its own and those of
its clauses.
-/
def bare : Json → Json :=
  Record.bare ["from", "to", "event", "action", "guards"]
    (fun name value => if name = "guards" then bareGuards value else value)

/-- Clauses that are read from objects are written as what is left of them. -/
theorem rel_of_guards {field : Option Json} {guards : Option (List ClauseText)}
    (objects : ∀ clause ∈ (field.bind items?).getD [], clause.isObject = true)
    (read
      : optional? (fun guards => guards.items?.bind (·.mapM ClauseText.ofJson?)) field
        = some guards)
    : Option.Rel (same · · = true)
        (guards.map (fun guards => .array (guards.map ClauseText.json)))
        ((Record.present field).map bareGuards) := by
  have readable := rel_of_optional? read
  cases there : Record.present field with
  | none =>
      rw [there] at readable
      cases readable
      exact .none
  | some value =>
      rw [there] at readable
      rw [Record.eq_of_present there] at objects
      cases readable with
      | some given =>
          obtain ⟨items, isArray, given⟩ := Option.bind_eq_some_iff.mp given
          cases value <;> cases isArray
          refine .some (same_array given ?_)
          intro item member clause found
          exact ClauseText.same_bare (objects item member) found

/-- A transition whose clauses are read from objects as well is written as what is left of its own
object.
-/
theorem same_bare {transition : TransitionText} {document : Json}
    (object : document.isObject = true)
    (clauses : ∀ clause ∈ document.itemsUnder "guards", clause.isObject = true)
    (read : ofJson? document = some transition)
    : same transition.json (bare document) = true := by
  obtain ⟨members, rfl⟩ := exists_members_of_isObject object
  simp only [ofJson?, fields?, Record.ofMembers?, bind, Option.bind_eq_some_iff,
    mapM_eq_some_iff, List.forall₂_cons_left_iff, List.forall₂_nil_left_iff] at read
  obtain ⟨_, ⟨source, _, foundSource, ⟨event, _, foundEvent, ⟨target, _, foundTarget, ⟨action, _,
    foundAction, ⟨guards, _, foundGuards, rfl, rfl⟩, rfl⟩, rfl⟩, rfl⟩, rfl⟩, read⟩ := read
  obtain _ | source := source
  · cases read
  simp only [Option.bind_eq_some_iff] at read
  obtain ⟨sourceName, readSource, eventName, readEvent, targetName, readTarget, actionName,
    readAction, guardTexts, readGuards, read⟩ := read
  cases read
  rw [itemsUnder_of_field? foundGuards] at clauses
  rw [json_eq_written]
  refine Json.same_bare (by simp [fields]) ?_
  simp only [fields, List.forall_mem_cons]
  refine ⟨⟨_, foundSource, rel_of_string? (fun _ => rfl) readSource⟩,
    ⟨_, foundTarget, rel_of_optional_string? (fun _ => rfl) readTarget⟩,
    ⟨_, foundEvent, rel_of_optional_string? (fun _ => rfl) readEvent⟩,
    ⟨_, foundAction, rel_of_optional_string? (fun _ => rfl) readAction⟩,
    ⟨_, foundGuards, rel_of_guards clauses readGuards⟩, List.forall_mem_nil _⟩

end TransitionText

end Statechart
