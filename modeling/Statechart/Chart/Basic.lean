import Statechart.Chart.Transition
import Statechart.State.Outline
import Statechart.Text.Blank

/-! Charts: a forest of states and the transitions declared on them. A chart is sound when
its states have an outline and every transition finds what it names; checking one tells all
problems in order of declaration.
-/

namespace Statechart

/-- The states of a chart and its transitions, in order of declaration. -/
structure Chart where
  states : Forest := .nil
  transitions : List Transition := []

namespace Chart

/-- The transitions declared on a state. -/
def transitionsFrom (chart : Chart) (state : String) : List Transition :=
  chart.transitions.filter (·.source = state)

/-- The first transition declared on a state for an event. -/
def route? (chart : Chart) (state event : String) : Option Transition :=
  chart.transitions.find? (fun t => t.source = state && t.trigger = event)

/-- The transition found for a state and an event is declared on that state for that event. -/
theorem route?_spec {chart : Chart} {state event : String} {transition : Transition}
    (h : chart.route? state event = some transition)
    : transition ∈ chart.transitions
      ∧ transition.source = state
      ∧ transition.trigger = event := by
  refine ⟨List.mem_of_find?_eq_some h, ?_⟩
  simpa only [Bool.and_eq_true, decide_eq_true_eq] using List.find?_some h

/-- Whether a transition enters a compound state at one inside it. -/
def isEntry (outline : Outline) (transition : Transition) : Bool :=
  transition.isAutomatic && outline.has transition.source
    && outline.isCompound transition.source

/-- The state that a target leads to: itself, or the owner of a history target. -/
def targetState (target : String) : String :=
  (historyOwner? target).getD target

/-- Whether a target can be found: a state, or the history of a compound state. -/
def isTarget (outline : Outline) (target : String) : Bool :=
  match historyOwner? target with
  | some owner => outline.has owner && outline.isCompound owner
  | none => outline.has target

/-- What a target that cannot be found is called. -/
def targetProblem (target : String) : Problem :=
  if isHistoryTarget target then .invalidHistoryTarget target else .unknownState target

/-- A function must have a name that shows. -/
def nameProblems (source : String) (kind : FunctionKind) : Option String → List Problem
  | none => []
  | some name => Problem.unlessHolds (!isBlankText name) (.anonymousFunction source kind)

/-- The problems with where an alternative of a transition leads. -/
def targetProblems (outline : Outline) (transition : Transition) : Option String → List Problem
  | none =>
      Problem.unlessHolds (!isEntry outline transition) (.entryWithoutTarget transition.source)
  | some target =>
      Problem.unlessHolds (isTarget outline target) (targetProblem target)
        ++ if isTarget outline target && isEntry outline transition then
            Problem.unlessHolds (outline.contains transition.source (targetState target))
              (.entryOutside transition.source target)
          else []

def alternativeProblems (outline : Outline) (transition : Transition)
    (alternative : Alternative)
    : List Problem :=
  nameProblems transition.source .predicate (alternative.predicate.map (·.name))
    ++ nameProblems transition.source .action (alternative.action.map (·.name))
    ++ targetProblems outline transition alternative.target

def transitionProblems (outline : Outline) (transition : Transition) : List Problem :=
  Problem.unlessHolds (outline.has transition.source) (.unknownState transition.source)
    ++ transition.alternatives.flatMap (alternativeProblems outline transition)

/-- A compound state needs a transition that enters it. -/
def entryProblems (chart : Chart) (state : String) : List Problem :=
  Problem.unlessHolds (chart.transitions.any (fun t => t.source = state && t.isAutomatic))
    (.missingEntry state)

/-- The problems of a chart whose states have the given outline. -/
def problems (chart : Chart) (outline : Outline) : List Problem :=
  Problem.unlessHolds (!outline.isEmpty) .emptyChart
    ++ chart.transitions.flatMap (transitionProblems outline)
    ++ outline.compounds.flatMap chart.entryProblems

/-- The outline of a sound chart, or all problems with the chart. -/
def validate (chart : Chart) : Except Problems Outline := do
  let outline ← Outline.ofForest chart.states
  Problems.check outline (chart.problems outline)

end Chart

end Statechart
