import Statechart.State.Outline

/-! Tables of states: the root and every state of a forest has a number, in order of declaration,
and is told by it the number of the state around it and of those directly inside it. A table grows
state by state. A state that cannot be declared is left out with all that is inside it.
-/

namespace Statechart

/-- A state in a table. The states around it and inside it are given by their numbers. -/
structure StateTable.Row where
  name : String
  parent : Option Nat
  children : List Nat := []
  depth : Nat
deriving DecidableEq, Repr

/-- States by their numbers, and the numbers by the names of the states. -/
structure StateTable where
  rows : List StateTable.Row
  numbers : List (String × Nat)
  /-- A state comes after the one around it. -/
  parent_lt
    : ∀ (number : Nat) (row : StateTable.Row) (parent : Nat),
        rows[number]? = some row → row.parent = some parent → parent < number

namespace StateTable

-----------------------------------------------------------------------------------------
-- Looking up states
-----------------------------------------------------------------------------------------

/-- The number of states, the root among them. -/
def size (table : StateTable) : Nat :=
  table.rows.length

/-- Whether there is no state but the root. -/
def isEmpty (table : StateTable) : Bool :=
  table.size == 1

def number? (table : StateTable) (name : String) : Option Nat :=
  table.numbers.lookup name

/-- The names that are taken. -/
def taken (table : StateTable) : List String :=
  table.numbers.map (·.1)

def name (table : StateTable) (number : Nat) : String :=
  (table.rows[number]?.map (·.name)).getD ""

/-- The state directly around a state. -/
def parent? (table : StateTable) (number : Nat) : Option Nat :=
  table.rows[number]?.bind (·.parent)

/-- The states directly inside a state. -/
def children (table : StateTable) (number : Nat) : List Nat :=
  (table.rows[number]?.map (·.children)).getD []

/-- The distance to the root. -/
def depth (table : StateTable) (number : Nat) : Nat :=
  (table.rows[number]?.map (·.depth)).getD 0

def isLeaf (table : StateTable) (number : Nat) : Bool :=
  (table.children number).isEmpty

def isCompound (table : StateTable) (number : Nat) : Bool :=
  !table.isLeaf number

/-- The compound states, the root among them, in order of declaration. -/
def compounds (table : StateTable) : List Nat :=
  (List.range table.size).filter table.isCompound

theorem lt_of_parent? {table : StateTable} {number parent : Nat}
    (found : table.parent? number = some parent)
    : parent < number := by
  obtain ⟨row, there, above⟩ := Option.bind_eq_some_iff.mp found
  exact table.parent_lt number row parent there above

/-- A state, the one around it, and so on up to the root. -/
def ancestors (table : StateTable) (number : Nat) : List Nat :=
  match found : table.parent? number with
  | none => [number]
  | some parent =>
      have : parent < number := lt_of_parent? found
      number :: table.ancestors parent

/-- Whether a state lies inside another, at any depth. One that is not deeper is ruled out
before the states around it are looked at.
-/
def contains (table : StateTable) (outer number : Nat) : Bool :=
  table.depth outer < table.depth number && (table.ancestors number).tail.contains outer

/-- Each state by its name, with the names of the states around it. -/
def outline (table : StateTable) : Outline :=
  ⟨(List.range table.size).map
    (fun number => ⟨table.name number, (table.ancestors number).tail.map table.name⟩)⟩

-----------------------------------------------------------------------------------------
-- Growing
-----------------------------------------------------------------------------------------

/-- The table of the root alone. -/
def root : StateTable where
  rows := [{ name := rootName, parent := none, depth := 0 }]
  numbers := [(rootName, 0)]
  parent_lt := by
    intro number row parent there above
    cases number with
    | zero =>
        cases there
        cases above
    | succ number => cases there

/-- A state with one more directly inside it. -/
def Row.adopt (row : Row) (child : Nat) : Row :=
  { row with children := row.children ++ [child] }

/-- The rows after a state has been entered directly inside another. -/
def rowsWith (table : StateTable) (parent : Nat) (name : String) : List Row :=
  table.rows.modify parent (·.adopt table.size)
    ++ [{ name, parent := some parent, depth := table.depth parent + 1 }]

/-- A state that was there keeps its row, but for the children of the one that is around the new
state; the new one comes last.
-/
theorem getElem?_rowsWith (table : StateTable) (parent : Nat) (name : String) (number : Nat)
    : (table.rowsWith parent name)[number]?
      = if number < table.size then
          table.rows[number]?.map (fun row => if parent = number then row.adopt table.size else row)
        else if number = table.size then
          some { name, parent := some parent, depth := table.depth parent + 1 }
        else none := by
  rw [rowsWith, List.getElem?_append, List.length_modify, List.getElem?_modify,
    List.getElem?_singleton]
  by_cases old : number < table.size
  · have within : number < table.rows.length := old
    rw [if_pos within, if_pos old]
    cases table.rows[number]? <;> rfl
  · have beyond : ¬ number < table.rows.length := old
    have last : number - table.rows.length = 0 ↔ number = table.size := by
      rw [size]
      omega
    rw [if_neg beyond, if_neg old]
    simp only [last]

/-- Enters a state directly inside another, with the next number. -/
def enter (table : StateTable) (parent : Nat) (known : parent < table.size) (name : String)
    : StateTable where
  rows := table.rowsWith parent name
  numbers := (name, table.size) :: table.numbers
  parent_lt := by
    intro number row outer there above
    rw [getElem?_rowsWith] at there
    split at there
    · obtain ⟨old, before, rfl⟩ := Option.map_eq_some_iff.mp there
      refine table.parent_lt number old outer before ?_
      split at above <;> exact above
    · split at there
      · cases there
        cases above
        omega
      · cases there

theorem size_enter (table : StateTable) (parent : Nat) (known : parent < table.size)
    (name : String)
    : (table.enter parent known name).size = table.size + 1 := by
  simp [size, enter, rowsWith]

theorem lt_size_enter (table : StateTable) (parent : Nat) (known : parent < table.size)
    (name : String)
    : table.size < (table.enter parent known name).size := by
  rw [size_enter]
  exact Nat.lt_succ_self _

theorem parent_lt_size_enter (table : StateTable) (parent : Nat) (known : parent < table.size)
    (name : String)
    : parent < (table.enter parent known name).size :=
  Nat.lt_trans known (table.lt_size_enter parent known name)

-----------------------------------------------------------------------------------------
-- Declaring states
-----------------------------------------------------------------------------------------

/-- What comes of declaring states one after the other: the problems, and the grown table. -/
structure Declared (table : StateTable) where
  problems : List Problem
  grown : StateTable
  size_le : table.size ≤ grown.size

namespace Declared

variable {table : StateTable}

/-- A state that was there is there afterwards. -/
theorem lt_size (declared : Declared table) {number : Nat} (known : number < table.size)
    : number < declared.grown.size :=
  Nat.lt_of_lt_of_le known declared.size_le

def nothing (table : StateTable) : Declared table :=
  ⟨[], table, Nat.le_refl _⟩

/-- One state cannot be declared, before the others. -/
def refused (problem : Problem) (after : Declared table) : Declared table :=
  ⟨problem :: after.problems, after.grown, after.size_le⟩

/-- One state is entered, before the others. -/
def entered {parent : Nat} {known : parent < table.size} {name : String}
    (after : Declared (table.enter parent known name))
    : Declared table where
  problems := after.problems
  grown := after.grown
  size_le := Nat.le_of_lt (after.lt_size (table.lt_size_enter parent known name))

/-- Some states are declared after others. -/
def followed (before : Declared table) (after : Declared before.grown) : Declared table :=
  ⟨before.problems ++ after.problems, after.grown, Nat.le_trans before.size_le after.size_le⟩

end Declared

/-- Enters the states of a forest directly inside a state, each followed by those inside it. A
state with a name that is reserved or taken is told and left out.
-/
def declare (table : StateTable) (parent : Nat) (known : parent < table.size)
    : Forest → Declared table
  | .nil => .nothing table
  | .leaf name rest =>
      match Forest.rejection? table.taken name with
      | some problem => .refused problem (table.declare parent known rest)
      | none =>
          have still := table.parent_lt_size_enter parent known name
          .entered ((table.enter parent known name).declare parent still rest)
  | .compound name inside rest =>
      match Forest.rejection? table.taken name with
      | some problem => .refused problem (table.declare parent known rest)
      | none =>
          let grown := table.enter parent known name
          have last : table.size < grown.size := table.lt_size_enter parent known name
          have still : parent < grown.size := table.parent_lt_size_enter parent known name
          let within := grown.declare table.size last inside
          have later := within.lt_size still
          .entered (within.followed (within.grown.declare parent later rest))

/-- The table of a forest, or the problems with its names. -/
def ofForest (forest : Forest) : Except Problems StateTable :=
  let declared := root.declare 0 Nat.one_pos forest
  Problems.check declared.grown declared.problems

end StateTable

end Statechart
