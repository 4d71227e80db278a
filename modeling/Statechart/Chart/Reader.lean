import Statechart.Chart.Basic

/-! Reading a chart from a document of states and transitions. Functions appear in it by
name and are found in a registry.
-/

namespace Statechart

/-- A clause as written, with its functions by name. -/
structure ClauseText where
  predicate : String
  target : Option String
  action : Option String

/-- A transition as written, with its functions by name. -/
structure TransitionText where
  source : String
  event : Option String
  target : Option String
  action : Option String
  guards : Option (List ClauseText)

namespace ClauseText

def ofJson? (document : Json) : Option ClauseText := do
  match ← document.fields? ["predicate", "to", "action"] 3 with
  | [some predicate, target, action] =>
      let predicate ← predicate.string?
      let target ← Json.optional? Json.string? target
      let action ← Json.optional? Json.string? action
      return { predicate, target, action }
  | _ => none

end ClauseText

namespace Registry

def findPredicate (registry : Registry) (name : String) : Except Problem Predicate :=
  match registry.predicate? name with
  | some predicate => .ok predicate
  | none => .error (.unknownFunction name .predicate)

def findAction (registry : Registry) : Option String → Except Problem (Option Action)
  | none => .ok none
  | some name =>
      match registry.action? name with
      | some action => .ok (some action)
      | none => .error (.unknownFunction name .action)

end Registry

/-- Finds the functions of a clause. -/
def ClauseText.resolve (registry : Registry) (clause : ClauseText) : Except Problem Clause := do
  let predicate ← registry.findPredicate clause.predicate
  let action ← registry.findAction clause.action
  return { predicate, target := clause.target, action }

namespace TransitionText

def ofJson? (document : Json) : Option TransitionText := do
  match ← document.fields? ["from", "event", "to", "action", "guards"] 5 with
  | [some source, event, target, action, guards] =>
      let source ← source.string?
      let event ← Json.optional? Json.string? event
      let target ← Json.optional? Json.string? target
      let action ← Json.optional? Json.string? action
      let guards ←
        Json.optional? (fun guards => guards.items?.bind (·.mapM ClauseText.ofJson?)) guards
      return { source, event, target, action, guards }
  | _ => none

/-- Finds the functions of a transition, which has guards or one target and action. -/
def resolve (registry : Registry) (transition : TransitionText) : Except Problem Transition := do
  let { source, event, target, action, guards } := transition
  match guards with
  | some guards =>
      if target.isSome || action.isSome then throw (.mixedTargets source)
      let clauses ← guards.mapM (ClauseText.resolve registry)
      return { source, event, reaction := .guarded clauses }
  | none =>
      let action ← registry.findAction action
      return { source, event, reaction := .always target action }

end TransitionText

namespace Chart

/-- The transitions as written; none if they are absent. -/
def transitionTexts? : Option Json → Option (List TransitionText)
  | none => some []
  | some document => document.items?.bind (·.mapM TransitionText.ofJson?)

/-- The two parts of a chart as written. -/
def parts? (document : Json) : Option (Json × List TransitionText) := do
  match ← document.fields? ["states", "transitions"] 1 with
  | [some states, transitions] =>
      let transitions ← transitionTexts? transitions
      return (states, transitions)
  | _ => none

/-- Reads a chart. Its shape is looked at first, then its states, then its transitions. -/
def ofJson (registry : Registry) (document : Json) : Except Problem Chart :=
  match parts? document with
  | none => .error .malformedChart
  | some (states, transitions) => do
      let states ← Forest.ofJson states
      let transitions ← transitions.mapM (TransitionText.resolve registry)
      return { states, transitions }

end Chart

end Statechart
