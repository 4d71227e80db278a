import Statechart.Chart.Transition

/-! Drafts of transitions, filled in step by step, and the transitions of the most common
shapes. A finished transition has a source and either clauses or a target or an action.
-/

namespace Statechart

/-- Why a draft cannot be finished as a transition. -/
inductive TransitionFault where
  | missingSource
  | nothingToDo (source : String)
  | conflictingTargets (source : String)
deriving DecidableEq, Repr

namespace TransitionFault

def message : TransitionFault → String
  | .missingSource => "Transition source state not specified. Call .from(state)"
  | .nothingToDo source =>
      s!"Transition from '{source}' has neither a target, an action nor guards"
  | .conflictingTargets source =>
      s!"Transition from '{source}' mixes guards with a direct target or action"

end TransitionFault

/-- A transition that is still being described. -/
structure TransitionDraft where
  source : Option String := none
  event : Option String := none
  target : Option String := none
  action : Option Action := none
  clauses : List Clause := []

namespace TransitionDraft

/-- Sets the state on which the transition is declared. -/
def leaving (draft : TransitionDraft) (state : String) : TransitionDraft :=
  { draft with source := some state }

/-- Sets the event; without one the transition is automatic. -/
def on (draft : TransitionDraft) (event : String) : TransitionDraft :=
  { draft with event := some event }

/-- Makes the transition the one that enters its source. -/
def onEntry (draft : TransitionDraft) : TransitionDraft :=
  draft.on entryEvent

def goingTo (draft : TransitionDraft) (state : String) : TransitionDraft :=
  { draft with target := some state }

/-- Makes the transition go back to where a compound state was left. -/
def goingBackTo (draft : TransitionDraft) (compound : String) : TransitionDraft :=
  draft.goingTo (historyOf compound)

def doing (draft : TransitionDraft) (action : Action) : TransitionDraft :=
  { draft with action := some action }

/-- Adds a clause after those that are there. -/
def clause (draft : TransitionDraft) (clause : Clause) : TransitionDraft :=
  { draft with clauses := draft.clauses ++ [clause] }

/-- Adds a clause with a target. -/
def guard (draft : TransitionDraft) (predicate : Predicate) (target : String)
    (action : Option Action)
    : TransitionDraft :=
  draft.clause { predicate, target := some target, action }

/-- The transition that a draft describes. -/
def finish (draft : TransitionDraft) : Except TransitionFault Transition :=
  match draft.source with
  | none => .error .missingSource
  | some source =>
      match draft.target.isSome || draft.action.isSome, draft.clauses.isEmpty with
      | true, false => .error (.conflictingTargets source)
      | false, true => .error (.nothingToDo source)
      | true, true =>
          .ok ⟨source, draft.event, .always draft.target draft.action⟩
      | false, false => .ok ⟨source, draft.event, .guarded draft.clauses⟩

end TransitionDraft

namespace Transition

/-- A transition to a state, without an action. -/
def simple (source event target : String) : Transition :=
  ⟨source, some event, .always (some target) none⟩

/-- The transition that enters a state at one inside it. -/
def entry (source target : String) : Transition :=
  simple source entryEvent target

/-- A transition whose clauses are tried in order. -/
def guarded (source event : String) (clauses : List Clause) : Transition :=
  ⟨source, some event, .guarded clauses⟩

end Transition

end Statechart
