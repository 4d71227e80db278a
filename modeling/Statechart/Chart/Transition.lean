import Statechart.Chart.Function
import Statechart.State.Name

/-! Declared transitions. A transition without an event answers the event of entering a
state: it enters a compound state at one inside it, and leaves a leaf as soon as that is
reached.
-/

namespace Statechart

/-- One of the alternatives of a guarded transition. -/
structure Clause where
  predicate : Predicate
  /-- The state to go to; a clause without one stays where it is. -/
  target : Option String := none
  action : Option Action := none

/-- What a transition does once its event is there. -/
inductive Reaction where
  /-- Always taken. -/
  | always (target : Option String) (action : Option Action)
  /-- The first clause whose predicate holds is taken. -/
  | guarded (clauses : List Clause)

/-- A transition declared on a state. -/
structure Transition where
  source : String
  event : Option String
  reaction : Reaction

/-- One way in which a transition can be taken. -/
structure Alternative where
  predicate : Option Predicate
  target : Option String
  action : Option Action

namespace Clause

def alternative (clause : Clause) : Alternative :=
  ⟨some clause.predicate, clause.target, clause.action⟩

end Clause

namespace Alternative

/-- Whether an alternative may be taken; one without a predicate always may. -/
def holds (alternative : Alternative) (model payload settings : Json) : Bool :=
  match alternative.predicate with
  | some predicate => predicate.holds model payload settings
  | none => true

end Alternative

/-- The ways in which a reaction can be taken, in the order in which they are tried. -/
def Reaction.alternatives : Reaction → List Alternative
  | .always target action => [⟨none, target, action⟩]
  | .guarded clauses => clauses.map Clause.alternative

namespace Transition

/-- The event that a transition answers. -/
def trigger (transition : Transition) : String :=
  transition.event.getD entryEvent

/-- Whether a transition is taken on entering its state rather than on an event from outside. -/
def isAutomatic (transition : Transition) : Bool :=
  transition.trigger == entryEvent

def isFromRoot (transition : Transition) : Bool :=
  transition.source == rootName

def isGuarded (transition : Transition) : Bool :=
  match transition.reaction with
  | .guarded _ => true
  | .always _ _ => false

def alternatives (transition : Transition) : List Alternative :=
  transition.reaction.alternatives

/-- The names of all targets, those of history targets among them. -/
def targets (transition : Transition) : List String :=
  transition.alternatives.filterMap (·.target)

def hasHistoryTarget (transition : Transition) : Bool :=
  transition.targets.any isHistoryTarget

/-- The first alternative that may be taken. -/
def select? (transition : Transition) (model payload settings : Json) : Option Alternative :=
  transition.alternatives.find? (·.holds model payload settings)

end Transition

end Statechart
