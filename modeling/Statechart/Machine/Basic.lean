import Statechart.Chart.Routes
import Statechart.Memory.History
import Statechart.Memory.Log
import Statechart.Patch.Apply

/-! Machines: a sound chart with an initial model and settings. What changes while a machine
runs is a value of its own, so that every call takes the state it starts from and gives the
state it ends in.
-/

namespace Statechart

/-- A sound chart that is ready to run. -/
structure Machine where
  chart : Chart
  outline : Outline
  accepted : chart.validate = .ok outline
  /-- Where the transitions of the chart are found. -/
  routes : RouteTable := .ofTransitions outline chart.transitions
  routed : routes = .ofTransitions outline chart.transitions := by rfl
  initialModel : Json
  /-- What every predicate and action sees besides the model and the payload. -/
  settings : Json
  /-- How many records the log keeps, if it is bounded. -/
  capacity : Option Nat := none

/-- What a running machine remembers from one call to the next. -/
structure Machine.State where
  model : Json
  /-- The active leaf, once the machine is initialized. -/
  active : Option String
  history : History
  log : Log

/-- What a call gives back. -/
structure Outcome where
  model : Json
  state : String
  /-- The outputs of all actions run, in order. -/
  outputs : List Json

/-- Why a call fails. -/
inductive Failure where
  | chart (problem : Problem)
  | reservedEvent (event : String)
  /-- The edits that an action gave are not well written. -/
  | malformedUpdate (action : String) (error : PatchError)
  /-- The edits that an action gave cannot be carried out. -/
  | failedUpdate (action : String) (error : PatchError)
  | notInitialized

namespace Failure

def message : Failure → String
  | .chart problem => problem.message
  | .reservedEvent event =>
      s!"Event '{event}' is reserved for state entry and cannot be dispatched"
  | .malformedUpdate action error =>
      s!"Action '{action}' returned a malformed model update: " ++ error.message
  | .failedUpdate action error =>
      s!"Model update of action '{action}' could not be applied: " ++ error.message
  | .notInitialized => "Interpreter must be initialized before events are dispatched"

end Failure

namespace Machine

/-- The machine of a chart, or the problems with the chart. -/
def ofChart (chart : Chart) (initialModel settings : Json) (capacity : Option Nat := none)
    : Except Problems Machine :=
  match h : chart.validate with
  | .ok outline => .ok { chart, outline, accepted := h, initialModel, settings, capacity }
  | .error problems => .error problems

/-- The transition for an event on a state, at the position that the table tells. -/
def route? (machine : Machine) (state event : String) : Option Transition :=
  (machine.routes.position? state event).bind (machine.chart.transitions[·]?)

/-- It is the first one declared on the state for the event, where the state is known. -/
theorem route?_of_has (machine : Machine) (state event : String)
    : machine.route? state event
      = if machine.outline.has state then machine.chart.route? state event else none := by
  rw [route?, machine.routed, RouteTable.ofTransitions_bind_getElem?]
  rfl

/-- The transition found for a state and an event is declared on that state for that event. -/
theorem route?_spec {machine : Machine} {state event : String} {transition : Transition}
    (h : machine.route? state event = some transition)
    : transition ∈ machine.chart.transitions
      ∧ transition.source = state
      ∧ transition.trigger = event := by
  rw [route?_of_has] at h
  split at h
  · exact Chart.route?_spec h
  · cases h

def emptyLog (machine : Machine) : Log :=
  { capacity := machine.capacity }

/-- The state before a machine is initialized. -/
def fresh (machine : Machine) : State :=
  { model := machine.initialModel, active := none, history := {}, log := machine.emptyLog }

end Machine

end Statechart
