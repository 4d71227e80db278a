import Statechart.Draft.Transition
import Statechart.Chart.Basic

/-! Drafts of charts, filled in transition by transition. A finished chart has a transition
and is sound.
-/

namespace Statechart

/-- Why a draft cannot be finished as a chart. -/
inductive ChartFault where
  | transition (fault : TransitionFault)
  | noTransitions
  | chart (problems : Problems)

namespace ChartFault

def message : ChartFault → String
  | .transition fault => fault.message
  | .noTransitions => "No transitions defined. Add at least one transition"
  | .chart problems => problems.message

end ChartFault

/-- A chart that is still being described. -/
structure ChartDraft where
  states : Forest := .nil
  transitions : List Transition := []

namespace ChartDraft

def withStates (draft : ChartDraft) (states : Forest) : ChartDraft :=
  { draft with states }

/-- Adds transitions after those that are there. -/
def append (draft : ChartDraft) (transitions : List Transition) : ChartDraft :=
  { draft with transitions := draft.transitions ++ transitions }

/-- Adds a transition after those that are there. -/
def add (draft : ChartDraft) (transition : Transition) : ChartDraft :=
  draft.append [transition]

/-- Finishes the draft of a transition and adds it. -/
def addDraft (draft : ChartDraft) (transition : TransitionDraft) : Except ChartFault ChartDraft :=
  match transition.finish with
  | .ok transition => .ok (draft.add transition)
  | .error fault => .error (.transition fault)

/-- The chart that a draft describes. -/
def finish (draft : ChartDraft) : Except ChartFault Chart :=
  if draft.transitions.isEmpty then .error .noTransitions
  else
    let chart : Chart := { states := draft.states, transitions := draft.transitions }
    match chart.validate with
    | .ok _ => .ok chart
    | .error problems => .error (.chart problems)

end ChartDraft

end Statechart
