import Statechart.State.Forest

/-! The flat form of a forest: the root and then every state, each with the states around
it. A forest has one when its states are told apart by their names.
-/

namespace Statechart

/-- A state and the states around it, from the innermost to the root. -/
structure Outline.Entry where
  name : String
  enclosing : List String
deriving DecidableEq, Repr

/-- The states of a chart in order of declaration, the root first. -/
structure Outline where
  entries : List Outline.Entry
deriving DecidableEq, Repr

-----------------------------------------------------------------------------------------
-- From forests to entries
-----------------------------------------------------------------------------------------

namespace Forest

/-- The entries of all states, given the states around the top level. -/
def entries (enclosing : List String) : Forest → List Outline.Entry
  | .nil => []
  | .leaf name rest => ⟨name, enclosing⟩ :: rest.entries enclosing
  | .compound name inside rest =>
      ⟨name, enclosing⟩ :: inside.entries (name :: enclosing) ++ rest.entries enclosing

/-- What is wrong with declaring a state after others. -/
def rejection? (seen : List String) (name : String) : Option Problem :=
  if isReservedName name then some (.reservedName name)
  else if seen.contains name then some (.duplicateState name)
  else none

/-- The problems of declaring all states in order, and the names taken after that. Nothing
inside a state that cannot be declared is looked at.
-/
def declare (seen : List String) : Forest → List Problem × List String
  | .nil => ([], seen)
  | .leaf name rest =>
      match rejection? seen name with
      | some problem =>
          let (problems, seen) := rest.declare seen
          (problem :: problems, seen)
      | none => rest.declare (name :: seen)
  | .compound name inside rest =>
      match rejection? seen name with
      | some problem =>
          let (problems, seen) := rest.declare seen
          (problem :: problems, seen)
      | none =>
          let (inner, seen) := inside.declare (name :: seen)
          let (outer, seen) := rest.declare seen
          (inner ++ outer, seen)

end Forest

-----------------------------------------------------------------------------------------
-- Looking up states
-----------------------------------------------------------------------------------------

namespace Outline

/-- The flat form of a forest, or the problems with its names. -/
def ofForest (forest : Forest) : Except Problems Outline :=
  Problems.check ⟨⟨rootName, []⟩ :: forest.entries [rootName]⟩ (forest.declare [rootName]).1

def names (outline : Outline) : List String :=
  outline.entries.map (·.name)

/-- The number of states, the root among them. -/
def size (outline : Outline) : Nat :=
  outline.entries.length

/-- Whether there is no state but the root. -/
def isEmpty (outline : Outline) : Bool :=
  outline.size == 1

def entry? (outline : Outline) (name : String) : Option Entry :=
  outline.entries.find? (·.name = name)

/-- Whether a name is that of the root or of a state. -/
def has (outline : Outline) (name : String) : Bool :=
  (outline.entry? name).isSome

/-- The states around a state, from the innermost to the root. -/
def enclosing (outline : Outline) (name : String) : List String :=
  ((outline.entry? name).map (·.enclosing)).getD []

/-- The state directly around a state. -/
def parent? (outline : Outline) (name : String) : Option String :=
  (outline.enclosing name).head?

/-- A state and the states around it. -/
def ancestors (outline : Outline) (name : String) : List String :=
  name :: outline.enclosing name

/-- The distance to the root. -/
def depth (outline : Outline) (name : String) : Nat :=
  (outline.enclosing name).length

/-- The states directly inside a state, in order of declaration. -/
def children (outline : Outline) (name : String) : List String :=
  (outline.entries.filter (fun entry => entry.enclosing.head? = some name)).map (·.name)

def isLeaf (outline : Outline) (name : String) : Bool :=
  (outline.children name).isEmpty

def isCompound (outline : Outline) (name : String) : Bool :=
  !outline.isLeaf name

/-- The compound states, the root among them, in order of declaration. -/
def compounds (outline : Outline) : List String :=
  outline.names.filter outline.isCompound

/-- Whether a state lies inside another, at any depth. One that is not deeper is ruled out
before the states around it are looked at.
-/
def contains (outline : Outline) (outer name : String) : Bool :=
  outline.depth outer < outline.depth name && (outline.enclosing name).contains outer

-----------------------------------------------------------------------------------------
-- Depth bounds every way down
-----------------------------------------------------------------------------------------

/-- The greatest distance of a state to the root. -/
def height (outline : Outline) : Nat :=
  outline.entries.foldr (fun entry height => max entry.enclosing.length height) 0

/-- No entry is further from the root than the greatest distance of them all. -/
theorem length_enclosing_le_foldr {entries : List Entry} {entry : Entry} (h : entry ∈ entries)
    : entry.enclosing.length
      ≤ entries.foldr (fun entry height => max entry.enclosing.length height) 0 := by
  induction entries with
  | nil => simp at h
  | cons first rest ih =>
      rcases List.mem_cons.mp h with rfl | h
      · simp only [List.foldr_cons]
        omega
      · have := ih h
        simp only [List.foldr_cons]
        omega

/-- No state is deeper than the outline is high. -/
theorem depth_le_height (outline : Outline) (name : String)
    : outline.depth name ≤ outline.height := by
  unfold depth enclosing
  cases h : outline.entry? name with
  | none => simp
  | some entry => exact length_enclosing_le_foldr (List.mem_of_find?_eq_some h)

/-- A state inside another is deeper. -/
theorem depth_lt_of_contains {outline : Outline} {outer name : String}
    (h : outline.contains outer name = true)
    : outline.depth outer < outline.depth name := by
  simp only [contains, Bool.and_eq_true, decide_eq_true_eq] at h
  exact h.1

end Outline

end Statechart
