import Statechart.Proofs.Diagram.Texts
import Statechart.Proofs.State.Rereading

/-! The transitions that a chart's document shows are read back as those of the chart, and tell what
the document that the chart was read from told. Between a transition and its document stands its
text, where functions appear by name. A transition has one text, which it is shown with and which it
is found from, by a registry that knows its functions.
-/

namespace Statechart

open Json

-----------------------------------------------------------------------------------------
-- Transitions and texts
-----------------------------------------------------------------------------------------

/-- A registry knows the functions of an alternative when it finds them by their own names. -/
structure Registry.Knows (registry : Registry) (alternative : Alternative) : Prop where
  predicate
    : ∀ predicate,
        alternative.predicate = some predicate
        → registry.predicate? predicate.name = some predicate
  action
    : ∀ action,
        alternative.action = some action → registry.action? action.name = some action

/-- All functions of a chart are registered under their own names. -/
def Chart.Registered (registry : Registry) (chart : Chart) : Prop :=
  ∀ transition ∈ chart.transitions,
    ∀ alternative ∈ transition.alternatives, registry.Knows alternative

section Names

variable {registry : Registry} {source : String} {kind : FunctionKind} {name shown : String}

theorem Diagram.functionName_eq_ok (named : functionName source kind name = .ok shown)
    : shown = name := by
  rw [functionName] at named
  split at named
  · cases named
  · exact (Except.ok.inj named).symm

theorem Diagram.actionName_eq_ok {action : Option Action} {shown : Option String}
    (named
      : action.mapM (fun action => functionName source .action action.name) = .ok shown)
    : shown = action.map (·.name) := by
  cases action with
  | none => exact (Except.ok.inj named).symm
  | some action =>
      obtain ⟨name, isName, rfl⟩ := map_eq_ok_iff.mp named
      exact congrArg some (functionName_eq_ok isName)

theorem Registry.name_of_findPredicate {predicate : Predicate}
    (found : registry.findPredicate name = .ok predicate)
    : name = predicate.name := by
  rw [findPredicate] at found
  split at found
  · rename_i known
    cases found
    have named : predicate.name = name := by simpa using List.find?_some known
    exact named.symm
  · cases found

theorem Registry.name_of_findAction {name : Option String} {action : Option Action}
    (found : registry.findAction name = .ok action)
    : name = action.map (·.name) := by
  cases name with
  | none =>
      cases found
      rfl
  | some name =>
      rw [findAction] at found
      split at found
      · rename_i action known
        cases found
        have named : action.name = name := by simpa using List.find?_some known
        exact congrArg some named.symm
      · cases found

theorem Registry.findPredicate_name {predicate : Predicate}
    (known : registry.predicate? predicate.name = some predicate)
    : registry.findPredicate predicate.name = .ok predicate := by
  rw [findPredicate, known]

theorem Registry.findAction_name {action : Option Action}
    (known
      : ∀ function, action = some function → registry.action? function.name = some function)
    : registry.findAction (action.map (·.name)) = .ok action := by
  cases action with
  | none => rfl
  | some action => simp only [Option.map_some, findAction, known action rfl]

end Names

namespace ClauseText

/-- A clause with its functions by name. -/
def named (clause : Clause) : ClauseText :=
  ⟨clause.predicate.name, clause.target, clause.action.map (·.name)⟩

theorem eq_named_of_ofClause {source : String} {clause : Clause} {text : ClauseText}
    (shown : ofClause source clause = .ok text)
    : text = named clause := by
  obtain ⟨predicate, isPredicate, shown⟩ := bind_eq_ok_iff.mp shown
  obtain ⟨action, isAction, shown⟩ := bind_eq_ok_iff.mp shown
  cases shown
  rw [named, Diagram.functionName_eq_ok isPredicate, Diagram.actionName_eq_ok isAction]

theorem eq_named_of_resolve {registry : Registry} {text : ClauseText} {clause : Clause}
    (found : text.resolve registry = .ok clause)
    : text = named clause := by
  obtain ⟨predicate, isPredicate, found⟩ := bind_eq_ok_iff.mp found
  obtain ⟨action, isAction, found⟩ := bind_eq_ok_iff.mp found
  cases found
  rw [named, ← Registry.name_of_findPredicate isPredicate,
    ← Registry.name_of_findAction isAction]

/-- A clause is found again by the names of functions that are known. -/
theorem resolve_named {registry : Registry} {clause : Clause}
    (known : registry.Knows clause.alternative)
    : (named clause).resolve registry = .ok clause := by
  obtain ⟨predicate, target, action⟩ := clause
  have isPredicate := Registry.findPredicate_name (known.predicate predicate rfl)
  have isAction : registry.findAction (action.map (·.name)) = .ok action :=
    Registry.findAction_name known.action
  simp only [resolve, named, isPredicate, isAction, bind, Except.bind, pure, Except.pure]

end ClauseText

namespace TransitionText

/-- A transition with its functions by name. -/
def named (transition : Transition) : TransitionText :=
  match transition.reaction with
  | .always target action =>
      ⟨transition.source, transition.event, target, action.map (·.name), none⟩
  | .guarded clauses =>
      ⟨transition.source, transition.event, none, none, some (clauses.map ClauseText.named)⟩

theorem eq_named_of_ofTransition {transition : Transition} {text : TransitionText}
    (shown : ofTransition transition = .ok text)
    : text = named transition := by
  obtain ⟨source, event, reaction⟩ := transition
  cases reaction with
  | always target action =>
      obtain ⟨name, isName, shown⟩ := bind_eq_ok_iff.mp shown
      cases shown
      rw [named, Diagram.actionName_eq_ok isName]
  | guarded clauses =>
      obtain ⟨texts, areTexts, shown⟩ := bind_eq_ok_iff.mp shown
      cases shown
      rw [named, eq_map_of_mapM (fun _ _ => ClauseText.eq_named_of_ofClause) areTexts]

theorem eq_named_of_resolve {registry : Registry} {text : TransitionText}
    {transition : Transition} (found : text.resolve registry = .ok transition)
    : text = named transition := by
  obtain ⟨source, event, target, action, guards⟩ := text
  cases guards with
  | none =>
      obtain ⟨function, isFunction, found⟩ := bind_eq_ok_iff.mp found
      cases found
      obtain rfl := Registry.name_of_findAction isFunction
      rfl
  | some guards =>
      simp only [resolve] at found
      split at found
      · cases found
      · rename_i direct
        obtain ⟨rfl, rfl⟩ : target = none ∧ action = none := by simpa using direct
        obtain ⟨clauses, areClauses, found⟩ := bind_eq_ok_iff.mp found
        cases found
        obtain rfl := eq_map_of_mapM_back (fun _ _ => ClauseText.eq_named_of_resolve) areClauses
        rfl

theorem resolve_named {registry : Registry} {transition : Transition}
    (known : ∀ alternative ∈ transition.alternatives, registry.Knows alternative)
    : (named transition).resolve registry = .ok transition := by
  obtain ⟨source, event, reaction⟩ := transition
  cases reaction with
  | always target action =>
      have isAction : registry.findAction (action.map (·.name)) = .ok action :=
        Registry.findAction_name (known _ (List.mem_singleton_self _)).action
      simp only [resolve, named, isAction, bind, Except.bind, pure, Except.pure]
  | guarded clauses =>
      have areClauses
          : (clauses.map ClauseText.named).mapM (ClauseText.resolve registry) = .ok clauses := by
        refine mapM_map_eq_ok (fun clause member => ?_)
        exact ClauseText.resolve_named (known _ (List.mem_map_of_mem member))
      simp [resolve, named, areClauses, bind, Except.bind, pure, Except.pure]

end TransitionText

-----------------------------------------------------------------------------------------
-- Charts
-----------------------------------------------------------------------------------------

namespace Chart

/-- A document of a chart in which the chart, its transitions and their guards are objects. -/
structure WrittenAsObjects (document : Json) : Prop where
  chart : document.isObject = true
  transitions : ∀ transition ∈ document.itemsUnder "transitions", transition.isObject = true
  guards
    : ∀ transition ∈ document.itemsUnder "transitions",
        ∀ clause ∈ transition.itemsUnder "guards", clause.isObject = true

theorem transitions_of_ofChart {chart : Chart} {document : ChartDocument}
    (shown : ChartDocument.ofChart chart = .ok document)
    : document.transitions = chart.transitions.map TransitionText.named := by
  obtain ⟨texts, areTexts, shown⟩ := bind_eq_ok_iff.mp shown
  cases shown
  exact eq_map_of_mapM (fun _ _ => TransitionText.eq_named_of_ofTransition) areTexts

/-- Texts of transitions are read back from beside the states. -/
theorem parts?_written (states : Json) (texts : List TransitionText)
    : parts?
          (.object
            [("states", states), ("transitions", .array (texts.map TransitionText.json))])
      = some (states, texts) := by
  have fields
      : fields? ["states", "transitions"] 1
            (.object
              [("states", states), ("transitions", .array (texts.map TransitionText.json))])
        = some [some states, some (.array (texts.map TransitionText.json))] :=
    rfl
  have readTexts := mapM_map_eq_some (fun text (_ : text ∈ texts) => text.ofJson?_json)
  simp only [parts?, fields, transitionTexts?, items?, readTexts, bind, Option.bind_some, pure]

/-- The transitions of a chart are read from the array that its document has for them. -/
theorem texts_of_parts? {document states : Json} {texts : List TransitionText}
    (object : document.isObject = true) (read : parts? document = some (states, texts))
    : (document.itemsUnder "transitions").mapM TransitionText.ofJson? = some texts := by
  obtain ⟨members, rfl⟩ := exists_members_of_isObject object
  simp only [parts?, fields?, Record.ofMembers?, bind, Option.bind_eq_some_iff,
    mapM_eq_some_iff, List.forall₂_cons_left_iff, List.forall₂_nil_left_iff] at read
  obtain ⟨_, ⟨states, _, _, ⟨transitions, _, foundTransitions, rfl, rfl⟩, rfl⟩, read⟩ := read
  cases states with
  | none => cases read
  | some states =>
      obtain ⟨texts, areTexts, read⟩ := Option.bind_eq_some_iff.mp read
      cases read
      rw [itemsUnder_of_field? foundTransitions]
      cases transitions with
      | none => exact areTexts
      | some transitions =>
          obtain ⟨items, isArray, areTexts⟩ := Option.bind_eq_some_iff.mp areTexts
          rwa [Option.bind_some, isArray]

/-- The transitions of a chart that was read are those of its document, found by name. -/
theorem parts?_of_ofJson {registry : Registry} {document : Json} {chart : Chart}
    (read : ofJson registry document = .ok chart)
    : ∃ states, parts? document = some (states, chart.transitions.map TransitionText.named) := by
  rw [ofJson] at read
  split at read
  · cases read
  · rename_i states texts parts
    obtain ⟨forest, isForest, read⟩ := bind_eq_ok_iff.mp read
    obtain ⟨transitions, areTransitions, read⟩ := bind_eq_ok_iff.mp read
    cases read
    have named := eq_map_of_mapM_back (fun _ _ => TransitionText.eq_named_of_resolve) areTransitions
    exact ⟨states, named ▸ parts⟩

/-- The transitions that a chart's document shows load back as those of the chart, beside the states
as they are written; and they tell what the document told that the chart was read from. Both ways go
by way of the texts of the transitions, which have the functions by name.
-/
theorem exported_transitions_load_back (registry : Registry)
    : (∀ chart document,
        Registered registry chart
        → chart.states.Distinct
        → chart.states.Filled
        → ChartDocument.ofChart chart = .ok document
        → ofJson registry
              (.object
                [("states", chart.states.json),
                  ("transitions", .array (document.transitions.map TransitionText.json))])
            = .ok chart)
      ∧ ∀ value chart document,
          WrittenAsObjects value
          → ofJson registry value = .ok chart
          → ChartDocument.ofChart chart = .ok document
          → same (.array (document.transitions.map TransitionText.json))
                (.array ((value.itemsUnder "transitions").map TransitionText.bare))
              = true := by
  constructor
  · intro chart document registered distinct filled shown
    have transitions
        : document.transitions.mapM (TransitionText.resolve registry) = .ok chart.transitions := by
      rw [transitions_of_ofChart shown]
      exact mapM_map_eq_ok (fun transition member =>
        TransitionText.resolve_named (registered transition member))
    simp only [ofJson, parts?_written, Forest.ofJson_json distinct filled, transitions, bind,
      Except.bind, pure, Except.pure]
  · intro value chart document objects read shown
    obtain ⟨states, parts⟩ := parts?_of_ofJson read
    rw [← transitions_of_ofChart shown] at parts
    refine same_array (texts_of_parts? objects.chart parts) ?_
    intro item member text readText
    exact TransitionText.same_bare (objects.transitions item member) (objects.guards item member)
      readText

/-- Whether something is shown that looks like a ticket. -/
def hasTicket : Predicate where
  name := "hasTicket"
  holds := fun _ payload _ => payload.isObject

def greet : Action where
  name := "greet"
  run := fun model _ _ => { output := model }

/-- A gate that opens for those who have a ticket, and takes no notice of what they do then. -/
def gateChart : Chart where
  states := .compound "closed" (.leaf "idle" (.leaf "asking" .nil)) (.leaf "open" .nil)
  transitions :=
    [⟨rootName, some entryEvent, .always (some "closed") none⟩,
      ⟨"closed", none, .always (some "idle") none⟩,
      ⟨"idle", some "knock", .guarded [⟨hasTicket, some "open", some greet⟩]⟩,
      ⟨"open", some "wave", .guarded []⟩,
      ⟨"open", some "leave", .always (some (historyOf "closed")) (some greet)⟩]

def gateRegistry : Registry :=
  (({} : Registry).addPredicate hasTicket).addAction greet

def gateDiagram : ChartDocument where
  states := .compound rootName (Shape.ofForest gateChart.states)
  transitions := gateChart.transitions.map TransitionText.named

/-- The gate with remarks, and with nulls in place of what is not there. -/
def gateDocument : Json :=
  .object
    [("title", .string "gate"),
      ("transitions",
        .array
          [.object
            [("event", .string entryEvent), ("to", .string "closed"), ("guards", .null),
              ("from", .string rootName)],
            .object [("event", .null), ("from", .string "closed"), ("to", .string "idle")],
            .object
              [("from", .string "idle"), ("event", .string "knock"), ("to", .null),
                ("guards",
                  .array
                    [.object
                      [("action", .string "greet"), ("to", .string "open"), ("else", .null),
                        ("predicate", .string "hasTicket")]])],
            .object
              [("guards", .array []), ("from", .string "open"), ("event", .string "wave")],
            .object
              [("from", .string "open"), ("event", .string "leave"), ("color", .integer 3),
                ("action", .string "greet"), ("to", .string (historyOf "closed"))]]),
      ("states",
        .object
          [("closed", .object [("idle", .string ""), ("asking", .null)]), ("open", .null)])]

theorem gateChart_loads_back
    : ofJson gateRegistry
            (.object
              [("states", gateChart.states.json),
                ("transitions", .array (gateDiagram.transitions.map TransitionText.json))])
          = .ok gateChart
      ∧ same (.array (gateDiagram.transitions.map TransitionText.json))
            (.array ((gateDocument.itemsUnder "transitions").map TransitionText.bare))
          = true := by
  have shown : ChartDocument.ofChart gateChart = .ok gateDiagram := rfl
  have read : ofJson gateRegistry gateDocument = .ok gateChart := rfl
  have registered : Registered gateRegistry gateChart := by
    intro transition listed alternative one
    have ticket : ∀ predicate, some hasTicket = some predicate
        → gateRegistry.predicate? predicate.name = some predicate := by
      intro predicate isTicket
      cases isTicket
      rfl
    have greets : ∀ action, some greet = some action
        → gateRegistry.action? action.name = some action := by
      intro action isGreet
      cases isGreet
      rfl
    simp only [gateChart, List.mem_cons, List.not_mem_nil, or_false] at listed
    rcases listed with rfl | rfl | rfl | rfl | rfl
    · cases List.mem_singleton.mp one
      exact ⟨nofun, nofun⟩
    · cases List.mem_singleton.mp one
      exact ⟨nofun, nofun⟩
    · cases List.mem_singleton.mp one
      exact ⟨ticket, greets⟩
    · cases one
    · cases List.mem_singleton.mp one
      exact ⟨nofun, greets⟩
  have objects : WrittenAsObjects gateDocument := ⟨rfl, by decide, by decide⟩
  have ⟨loads, tells⟩ := exported_transitions_load_back gateRegistry
  exact ⟨loads gateChart gateDiagram registered (by decide) (by decide) shown,
    tells gateDocument gateChart gateDiagram objects read shown⟩

end Chart

end Statechart
