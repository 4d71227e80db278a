import Statechart.State.Name
import Statechart.Chart.Problem

/-! Forests of states: the states of one level in their order of declaration, each a leaf or
a compound state around a forest of its own. The states of a chart are a forest whose top
level lies inside the root.
-/

namespace Statechart

/-- States side by side, each with the states after it. -/
inductive Forest where
  | nil
  /-- A state that can be active, and the states after it. -/
  | leaf (name : String) (rest : Forest)
  /-- A state around others, and the states after it. -/
  | compound (name : String) (inside rest : Forest)
deriving DecidableEq, Repr, Inhabited

namespace Forest

/-- The state with a name and what lies inside it, before other states. It is a leaf if
nothing does.
-/
def state (name : String) (inside rest : Forest) : Forest :=
  match inside with
  | .nil => .leaf name rest
  | inside => .compound name inside rest

/-- The states of the top level, with what lies inside them or nothing for a leaf. -/
def top : Forest → List (String × Option Forest)
  | .nil => []
  | .leaf name rest => (name, none) :: rest.top
  | .compound name inside rest => (name, some inside) :: rest.top

/-- The names of all states, each before those inside it, in order of declaration. -/
def names : Forest → List String
  | .nil => []
  | .leaf name rest => name :: rest.names
  | .compound name inside rest => name :: inside.names ++ rest.names

/-- The members that write the states: a leaf is an empty string, a compound state an object. -/
def members : Forest → List (String × Json)
  | .nil => []
  | .leaf name rest => (name, .string "") :: rest.members
  | .compound name inside rest =>
      (name, .object (Json.collect inside.members)) :: rest.members

/-- The document of a forest. Of states with the same name on one level the last is kept. -/
def json (forest : Forest) : Json :=
  .object (Json.collect forest.members)

/-- The document of a forest as it is written, with the top level state by state. -/
def writtenJson (forest : Forest) : Json :=
  .object forest.members

mutual
/-- Reads what lies inside a state: nothing for null and an empty string. -/
def inside (name : String) : Json → Except Problem Forest
  | .null => .ok .nil
  | .string text =>
      if text = "" then .ok .nil else .error (.malformedState name (.string text))
  | .object members => ofMembers members
  | other => .error (.malformedState name other)

/-- Reads the states that members of an object declare. -/
def ofMembers : List (String × Json) → Except Problem Forest
  | [] => .ok .nil
  | (name, value) :: rest => do
      let inner ← inside name value
      let rest ← ofMembers rest
      return state name inner rest
end

/-- Reads the states of a chart. -/
def ofJson (document : Json) : Except Problem Forest :=
  inside rootName document

end Forest

end Statechart
