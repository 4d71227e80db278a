import Statechart.Diagram.Shape
import Statechart.Diagram.PlantUml
import Statechart.Chart.Reader

/-! Charts as documents of states and transitions, for programs that draw them. The
functions of a transition appear by name; history targets and explicit events are kept as
declared.
-/

namespace Statechart

/-- The document of a chart. -/
structure ChartDocument where
  states : Shape
  transitions : List TransitionText

namespace ClauseText

/-- The names of a clause's functions and its target. -/
def ofClause (source : String) (clause : Clause) : Except Problem ClauseText := do
  let predicate ← Diagram.functionName source .predicate clause.predicate.name
  let action ← clause.action.mapM (fun action => Diagram.functionName source .action action.name)
  return { predicate, target := clause.target, action }

/-- Writes a clause without its absent fields. -/
def json (clause : ClauseText) : Json :=
  .object
    ([("predicate", .string clause.predicate)]
      ++ (clause.target.map (fun target => ("to", .string target))).toList
      ++ (clause.action.map (fun action => ("action", .string action))).toList)

/-- Reads a clause from a document, where only the predicate must be there. -/
def ofDocument? (document : Json) : Option ClauseText := do
  match ← document.fields? ["predicate", "to", "action"] 1 with
  | [some predicate, target, action] =>
      let predicate ← predicate.string?
      let target ← Json.optional? Json.string? target
      let action ← Json.optional? Json.string? action
      return { predicate, target, action }
  | _ => none

end ClauseText

namespace TransitionText

/-- A transition with its functions by name. -/
def ofTransition (transition : Transition) : Except Problem TransitionText :=
  match transition.reaction with
  | .always target action => do
      let action ←
        action.mapM (fun action => Diagram.functionName transition.source .action action.name)
      return ⟨transition.source, transition.event, target, action, none⟩
  | .guarded clauses => do
      let guards ← clauses.mapM (ClauseText.ofClause transition.source)
      return ⟨transition.source, transition.event, none, none, some guards⟩

/-- Writes a transition without its absent fields. -/
def json (transition : TransitionText) : Json :=
  .object
    ([("from", .string transition.source)]
      ++ (transition.target.map (fun target => ("to", .string target))).toList
      ++ (transition.event.map (fun event => ("event", .string event))).toList
      ++ (transition.action.map (fun action => ("action", .string action))).toList
      ++ (transition.guards.map
        (fun guards => ("guards", .array (guards.map ClauseText.json)))).toList)

/-- Reads a transition from a document, where only the source must be there. -/
def ofDocument? (document : Json) : Option TransitionText := do
  match ← document.fields? ["from", "to", "event", "action", "guards"] 1 with
  | [some source, target, event, action, guards] =>
      let source ← source.string?
      let target ← Json.optional? Json.string? target
      let event ← Json.optional? Json.string? event
      let action ← Json.optional? Json.string? action
      let guards ←
        Json.optional? (fun guards => guards.items?.bind (·.mapM ClauseText.ofDocument?)) guards
      return { source, event, target, action, guards }
  | _ => none

end TransitionText

namespace ChartDocument

/-- The document of a chart: the root around the states, and all transitions in order. -/
def ofChart (chart : Chart) : Except Problem ChartDocument := do
  let transitions ← chart.transitions.mapM TransitionText.ofTransition
  return { states := .compound rootName (Shape.ofForest chart.states), transitions }

def json (document : ChartDocument) : Json :=
  .object
    [("states", document.states.json),
      ("transitions", .array (document.transitions.map TransitionText.json))]

/-- Reads a document. -/
def ofJson? (document : Json) : Option ChartDocument := do
  match ← document.fields? ["states", "transitions"] 2 with
  | [some states, some transitions] =>
      let states ← Shape.ofJson? states
      let transitions ← transitions.items?.bind (·.mapM TransitionText.ofDocument?)
      return { states, transitions }
  | _ => none

end ChartDocument

end Statechart
