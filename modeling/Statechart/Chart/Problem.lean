import Statechart.Json.Printer

/-! What can be wrong with a chart, as it is written or as it is entered while it runs.
Checking a chart reports all its problems together.
-/

namespace Statechart

/-- The two kinds of functions that a chart names. -/
inductive FunctionKind where
  | predicate
  | action
deriving DecidableEq, Repr

def FunctionKind.name : FunctionKind → String
  | .predicate => "predicate"
  | .action => "action"

/-- One thing that is wrong with a chart. -/
inductive Problem where
  | duplicateState (name : String)
  | reservedName (name : String)
  | unknownState (name : String)
  /-- A history target of something that is not a compound state. -/
  | invalidHistoryTarget (target : String)
  | missingEntry (state : String)
  /-- No guard of an entry transition held. -/
  | unresolvedEntry (state : String)
  | entryOutside (state target : String)
  | entryWithoutTarget (state : String)
  | anonymousFunction (source : String) (kind : FunctionKind)
  | unknownFunction (name : String) (kind : FunctionKind)
  /-- Automatic transitions lead back to a state that they left. -/
  | automaticCycle (state : String)
  | emptyChart
  /-- A document that does not have the shape of a chart. -/
  | malformedChart
  /-- A state that is given as something other than nothing or an object. -/
  | malformedState (name : String) (found : Json)
  /-- A transition with guards and with a target or an action of its own. -/
  | mixedTargets (source : String)

namespace Problem

def malformedMark : String :=
  "Malformed definition: "

def message : Problem → String
  | .duplicateState name => s!"State '{name}' is declared more than once"
  | .reservedName name => s!"State name '{name}' is reserved"
  | .unknownState name => s!"Transition references unknown state '{name}'"
  | .invalidHistoryTarget target =>
      s!"History target '{target}' does not name a compound state"
  | .missingEntry state => s!"Compound state '{state}' has no entry transition"
  | .unresolvedEntry state => s!"No entry guard of compound state '{state}' was satisfied"
  | .entryOutside state target =>
      s!"Entry transition of '{state}' must target a descendant, found '{target}'"
  | .entryWithoutTarget state => s!"Entry transition of '{state}' has no target state"
  | .anonymousFunction source kind =>
      "Anonymous " ++ kind.name
        ++ s!" on transition from '{source}'; a name is required"
  | .unknownFunction name kind => "No " ++ kind.name ++ s!" registered under the name '{name}'"
  | .automaticCycle state => s!"Automatic transitions loop back into state '{state}'"
  | .emptyChart => "State tree declares no states"
  | .malformedChart => malformedMark ++ "not an object of states and transitions"
  | .malformedState name found =>
      malformedMark ++ s!"state '{name}' must be an empty string or an object, found "
        ++ found.text
  | .mixedTargets source =>
      malformedMark ++ s!"transition from '{source}' declares both guards and a direct target"

/-- Nothing if a condition holds, and the problem if not. -/
def unlessHolds (holds : Bool) (problem : Problem) : List Problem :=
  if holds then [] else [problem]

end Problem

/-- Problems found together, at least one. -/
structure Problems where
  first : Problem
  others : List Problem := []

namespace Problems

def toList (problems : Problems) : List Problem :=
  problems.first :: problems.others

/-- A lone problem speaks for itself; several are counted and listed. -/
def message (problems : Problems) : String :=
  match problems.others with
  | [] => problems.first.message
  | _ =>
      "Definition has " ++ toString problems.toList.length ++ " problems: "
        ++ String.intercalate "; " (problems.toList.map Problem.message)

end Problems

/-- A value, unless there are problems with it. -/
def Problems.check (value : α) : List Problem → Except Problems α
  | [] => .ok value
  | problem :: others => .error ⟨problem, others⟩

end Statechart
