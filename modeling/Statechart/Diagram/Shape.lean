import Statechart.State.Forest
import Statechart.Json.Record

/-! The hierarchy of states as a document shows it: a leaf is its name, and a compound state
is an array of its name and the array of what lies inside it.
-/

namespace Statechart

/-- A state and what lies inside it. -/
inductive Shape where
  | leaf (name : String)
  | compound (name : String) (inside : List Shape)
deriving Repr, Inhabited

namespace Shape

/-- The shapes of the states of a forest. -/
def ofForest : Forest → List Shape
  | .nil => []
  | .leaf name rest => .leaf name :: ofForest rest
  | .compound name inside rest => .compound name (ofForest inside) :: ofForest rest

def name : Shape → String
  | .leaf name => name
  | .compound name _ => name

mutual
/-- The name of a state and of all states inside it, each before those inside it. -/
def names : Shape → List String
  | .leaf name => [name]
  | .compound name inside => name :: namesOf inside

def namesOf : List Shape → List String
  | [] => []
  | shape :: shapes => names shape ++ namesOf shapes
end

mutual
/-- How many levels of states lie inside a state; a compound state counts one for its own. -/
def depth : Shape → Nat
  | .leaf _ => 0
  | .compound _ inside => depthOf inside + 1

def depthOf : List Shape → Nat
  | [] => 0
  | shape :: shapes => max (depth shape) (depthOf shapes)
end

mutual
def json : Shape → Json
  | .leaf name => .string name
  | .compound name inside => .array [.string name, .array (jsonOf inside)]

def jsonOf : List Shape → List Json
  | [] => []
  | shape :: shapes => json shape :: jsonOf shapes
end

mutual
/-- Reads a shape. -/
def ofJson? : Json → Option Shape
  | .string name => some (.leaf name)
  | .array [.string name, .array inside] => (shapesOf? inside).map (.compound name)
  | _ => none

def shapesOf? : List Json → Option (List Shape)
  | [] => some []
  | document :: documents => do
      let shape ← ofJson? document
      let shapes ← shapesOf? documents
      return shape :: shapes
end

end Shape

end Statechart
