import Statechart.Patch.Edit

/-! The named functions of a chart. Predicates decide whether a guarded alternative is
taken; actions give edits of the model and an output. Both see the model, the payload of the
event and the settings of the machine. A registry finds them by name.
-/

namespace Statechart

/-- A predicate, called with the model, the payload and the settings. -/
structure Predicate where
  name : String
  holds : (model payload settings : Json) → Bool

/-- What an action gives: the edits to make to the model, and an output. -/
structure ActionResult where
  update : List Edit := []
  output : Json := .null

/-- An action, called with the model before its own update, the payload and the settings. -/
structure Action where
  name : String
  run : (model payload settings : Json) → ActionResult

/-- A name in quotes, with quotes and backslashes in it escaped. -/
def quotedName (name : String) : String :=
  let escaped := name.toList.flatMap (fun c => if c = '"' || c = '\\' then ['\\', c] else [c])
  String.ofList ('"' :: escaped ++ ['"'])

/-- A predicate shows its name only. -/
def Predicate.describe (predicate : Predicate) : String :=
  "Predicate(" ++ quotedName predicate.name ++ ")"

/-- An action shows its name only. -/
def Action.describe (action : Action) : String :=
  "Action(" ++ quotedName action.name ++ ")"

/-- Functions by their names, the latest registered first. -/
structure Registry where
  predicates : List Predicate := []
  actions : List Action := []

namespace Registry

/-- Registers a predicate under its name, in place of an earlier one. -/
def addPredicate (registry : Registry) (predicate : Predicate) : Registry :=
  { registry with predicates := predicate :: registry.predicates }

/-- Registers an action under its name, in place of an earlier one. -/
def addAction (registry : Registry) (action : Action) : Registry :=
  { registry with actions := action :: registry.actions }

def predicate? (registry : Registry) (name : String) : Option Predicate :=
  registry.predicates.find? (·.name = name)

def action? (registry : Registry) (name : String) : Option Action :=
  registry.actions.find? (·.name = name)

end Registry

end Statechart
