import Statechart.State.Table

/-! How a table of states grows. Entering a state leaves the others as they are, but for the
children of the one around it; so declaring a forest tells the problems of its names, and without
one the outline of the table goes on with the entries of the forest.
-/

namespace Statechart

namespace StateTable

-----------------------------------------------------------------------------------------
-- Entering a state
-----------------------------------------------------------------------------------------

section Enter

variable (table : StateTable) (parent : Nat) (known : parent < table.size) (name : String)
  {number : Nat}

/-- Afterwards there are the states that were there and the new one. -/
theorem old_or_new (there : number < (table.enter parent known name).size)
    : number < table.size ∨ number = table.size := by
  rw [size_enter] at there
  exact Nat.lt_or_eq_of_le (Nat.le_of_lt_succ there)

theorem row_enter_old (old : number < table.size)
    : ∃ row,
        table.rows[number]? = some row
        ∧ (table.enter parent known name).rows[number]?
          = some (if parent = number then row.adopt table.size else row) := by
  have there := List.getElem?_eq_getElem old
  refine ⟨_, there, ?_⟩
  rw [enter, getElem?_rowsWith, if_pos old, there, Option.map_some]

theorem row_enter_new
    : (table.enter parent known name).rows[table.size]?
      = some { name, parent := some parent, depth := table.depth parent + 1 } := by
  rw [enter, getElem?_rowsWith, if_neg (Nat.lt_irrefl _), if_pos rfl]

theorem name_enter_old (old : number < table.size)
    : (table.enter parent known name).name number = table.name number := by
  obtain ⟨row, before, after⟩ := row_enter_old table parent known name old
  rw [StateTable.name, StateTable.name, before, after]
  split <;> rfl

theorem parent?_enter_old (old : number < table.size)
    : (table.enter parent known name).parent? number = table.parent? number := by
  obtain ⟨row, before, after⟩ := row_enter_old table parent known name old
  rw [parent?, parent?, before, after]
  split <;> rfl

theorem depth_enter_old (old : number < table.size)
    : (table.enter parent known name).depth number = table.depth number := by
  obtain ⟨row, before, after⟩ := row_enter_old table parent known name old
  rw [depth, depth, before, after]
  split <;> rfl

theorem children_enter_old (old : number < table.size)
    : (table.enter parent known name).children number
      = table.children number ++ if parent = number then [table.size] else [] := by
  obtain ⟨row, before, after⟩ := row_enter_old table parent known name old
  rw [children, children, before, after]
  split <;> simp [Row.adopt]

theorem name_enter_new : (table.enter parent known name).name table.size = name := by
  rw [StateTable.name, row_enter_new]
  rfl

theorem parent?_enter_new : (table.enter parent known name).parent? table.size = some parent := by
  rw [parent?, row_enter_new]
  rfl

theorem depth_enter_new
    : (table.enter parent known name).depth table.size = table.depth parent + 1 := by
  rw [depth, row_enter_new]
  rfl

theorem children_enter_new : (table.enter parent known name).children table.size = [] := by
  rw [children, row_enter_new]
  rfl

theorem taken_enter : (table.enter parent known name).taken = name :: table.taken :=
  rfl

theorem number?_enter (other : String)
    : (table.enter parent known name).number? other
      = if other = name then some table.size else table.number? other :=
  Json.lookup_cons_eq name table.size table.numbers other

end Enter

-----------------------------------------------------------------------------------------
-- Ways to the root
-----------------------------------------------------------------------------------------

theorem ancestors_of_parent? {table : StateTable} {number parent : Nat}
    (above : table.parent? number = some parent)
    : table.ancestors number = number :: table.ancestors parent := by
  rw [ancestors]
  split
  · rename_i none
    rw [none] at above
    cases above
  · rename_i other found
    rw [found] at above
    cases above
    rfl

theorem ancestors_of_none {table : StateTable} {number : Nat} (top : table.parent? number = none)
    : table.ancestors number = [number] := by
  rw [ancestors]
  split
  · rfl
  · rename_i found
    rw [top] at found
    cases found

/-- What holds of states with none around them, and of a state if it does of the one around it, holds
of all; by strong induction on the number, since the one around has a smaller one.
-/
theorem up_induction (table : StateTable) {holds : Nat → Prop}
    (top : ∀ number, table.parent? number = none → holds number)
    (inner
      : ∀ number parent, table.parent? number = some parent → holds parent → holds number)
    (number : Nat)
    : holds number := by
  induction number using Nat.strongRecOn with
  | ind number ih =>
      cases above : table.parent? number with
      | none => exact top number above
      | some parent => exact inner number parent above (ih parent (lt_of_parent? above))

/-- A way up does not lead to greater numbers. -/
theorem le_of_mem_ancestors {table : StateTable} {outer number : Nat}
    (inside : outer ∈ table.ancestors number)
    : outer ≤ number := by
  induction number using table.up_induction with
  | top number above =>
      rw [ancestors_of_none above] at inside
      exact Nat.le_of_eq (List.mem_singleton.mp inside)
  | inner number parent above ih =>
      rw [ancestors_of_parent? above] at inside
      rcases List.mem_cons.mp inside with rfl | inside
      · exact Nat.le_refl _
      · exact Nat.le_trans (ih inside) (Nat.le_of_lt (lt_of_parent? above))

/-- The names of a state and of those around it. -/
def path (table : StateTable) (number : Nat) : List String :=
  (table.ancestors number).map table.name

theorem path_of_parent? {table : StateTable} {number parent : Nat}
    (above : table.parent? number = some parent)
    : table.path number = table.name number :: table.path parent := by
  rw [path, ancestors_of_parent? above, List.map_cons, path]

theorem path_of_none {table : StateTable} {number : Nat} (top : table.parent? number = none)
    : table.path number = [table.name number] := by
  rw [path, ancestors_of_none top, List.map_singleton]

theorem head?_path (table : StateTable) (number : Nat)
    : (table.path number).head? = some (table.name number) := by
  cases above : table.parent? number with
  | none => rw [path_of_none above, List.head?_cons]
  | some parent => rw [path_of_parent? above, List.head?_cons]

/-- A state is not reached by ways up from smaller numbers, so that these stay as they are when it
is entered.
-/
theorem path_enter_old (table : StateTable) (parent : Nat) (known : parent < table.size)
    (name : String) {number : Nat} (old : number < table.size)
    : (table.enter parent known name).path number = table.path number := by
  induction number using table.up_induction with
  | top number above =>
      have same := parent?_enter_old table parent known name old
      rw [path_of_none above, path_of_none (same.trans above),
        name_enter_old table parent known name old]
  | inner number outer above ih =>
      have same := parent?_enter_old table parent known name old
      rw [path_of_parent? above, path_of_parent? (same.trans above),
        name_enter_old table parent known name old, ih (Nat.lt_trans (lt_of_parent? above) old)]

theorem path_enter_new (table : StateTable) (parent : Nat) (known : parent < table.size)
    (name : String)
    : (table.enter parent known name).path table.size = name :: table.path parent := by
  rw [path_of_parent? (parent?_enter_new table parent known name), name_enter_new,
    path_enter_old table parent known name known]

/-- The outline of a table tells of each state its name and the names around it. -/
theorem entries_outline (table : StateTable)
    : table.outline.entries
      = (List.range table.size).map
        (fun number => ⟨table.name number, (table.path number).tail⟩) := by
  rw [outline]
  simp only [path, List.map_tail]

/-- A state that is entered comes last in the outline, and the others are as before. -/
theorem entries_outline_enter (table : StateTable) (parent : Nat) (known : parent < table.size)
    (name : String)
    : (table.enter parent known name).outline.entries
      = table.outline.entries ++ [⟨name, table.path parent⟩] := by
  rw [entries_outline, entries_outline, size_enter, List.range_succ, List.map_append,
    List.map_singleton, name_enter_new, path_enter_new, List.tail_cons]
  congr 1
  refine List.map_congr_left fun number inside => ?_
  have old := List.mem_range.mp inside
  rw [name_enter_old table parent known name old, path_enter_old table parent known name old]

-----------------------------------------------------------------------------------------
-- Declaring a forest
-----------------------------------------------------------------------------------------

/-- What entering a state with a free name keeps, declaring a forest keeps; by induction on it. -/
theorem declare_keeps {holds : StateTable → Prop}
    (keeps
      : ∀ table parent known name,
          Forest.rejection? table.taken name = none
          → holds table
          → holds (table.enter parent known name))
    {table : StateTable} {parent : Nat} (known : parent < table.size) (forest : Forest)
    (before : holds table)
    : holds (table.declare parent known forest).grown := by
  induction forest generalizing table parent with
  | nil => exact before
  | leaf name rest ih =>
      cases free : Forest.rejection? table.taken name with
      | some problem =>
          simp only [declare, free, Declared.refused]
          exact ih known before
      | none =>
          simp only [declare, free, Declared.entered]
          exact ih _ (keeps table parent known name free before)
  | compound name inside rest ihInside ihRest =>
      cases free : Forest.rejection? table.taken name with
      | some problem =>
          simp only [declare, free, Declared.refused]
          exact ihRest known before
      | none =>
          simp only [declare, free, Declared.entered, Declared.followed]
          exact ihRest _ (ihInside _ (keeps table parent known name free before))

/-- The problems that are told are those of the forest's names, and the names of the states that are
entered are taken in the same order; by induction on the forest.
-/
theorem declare_told (table : StateTable) (parent : Nat) (known : parent < table.size)
    (forest : Forest)
    : forest.declare table.taken
      = ((table.declare parent known forest).problems,
          (table.declare parent known forest).grown.taken) := by
  induction forest generalizing table parent with
  | nil => rfl
  | leaf name rest ih =>
      cases free : Forest.rejection? table.taken name with
      | some problem =>
          simp only [declare, Forest.declare, free, ih table parent known, Declared.refused]
      | none =>
          have after := ih _ parent (table.parent_lt_size_enter parent known name)
          rw [taken_enter] at after
          simp only [declare, Forest.declare, free, after, Declared.entered]
  | compound name inside rest ihInside ihRest =>
      cases free : Forest.rejection? table.taken name with
      | some problem =>
          simp only [declare, Forest.declare, free, ihRest table parent known, Declared.refused]
      | none =>
          have last := table.lt_size_enter parent known name
          have still := table.parent_lt_size_enter parent known name
          have within := ihInside _ table.size last
          have after := ihRest _ parent ((declare _ table.size last inside).lt_size still)
          rw [taken_enter] at within
          simp only [declare, Forest.declare, free, within, after, Declared.entered,
            Declared.followed]

theorem problems_declare (table : StateTable) (parent : Nat) (known : parent < table.size)
    (forest : Forest)
    : (table.declare parent known forest).problems = (forest.declare table.taken).1 :=
  (congrArg Prod.fst (declare_told table parent known forest)).symm

/-- The ways up from the states that are there stay as they are. -/
theorem path_declare {table : StateTable} {parent : Nat} (known : parent < table.size)
    (forest : Forest) {number : Nat} (old : number < table.size)
    : (table.declare parent known forest).grown.path number = table.path number := by
  have kept (grown : StateTable) (outer : Nat) (there : outer < grown.size) (name : String)
      (_ : Forest.rejection? grown.taken name = none)
      (before : number < grown.size ∧ grown.path number = table.path number)
      : number < (grown.enter outer there name).size
        ∧ (grown.enter outer there name).path number = table.path number := by
    rw [size_enter, path_enter_old grown outer there name before.1]
    exact ⟨Nat.lt_succ_of_lt before.1, before.2⟩
  exact (declare_keeps kept known forest ⟨old, rfl⟩).2

/-- Declared without a problem, the states of a forest come after the others in the outline, each
with the names around it; by induction on the forest.
-/
theorem entries_outline_declare {table : StateTable} {parent : Nat} (known : parent < table.size)
    {forest : Forest} (told : (table.declare parent known forest).problems = [])
    : (table.declare parent known forest).grown.outline.entries
      = table.outline.entries ++ forest.entries (table.path parent) := by
  induction forest generalizing table parent with
  | nil => rw [declare, Declared.nothing, Forest.entries, List.append_nil]
  | leaf name rest ih =>
      cases free : Forest.rejection? table.taken name with
      | some problem => simp [declare, free, Declared.refused] at told
      | none =>
          simp only [declare, free, Declared.entered] at told ⊢
          rw [ih _ told, entries_outline_enter, path_enter_old table parent known name known,
            Forest.entries, List.append_assoc, List.singleton_append]
  | compound name inside rest ihInside ihRest =>
      cases free : Forest.rejection? table.taken name with
      | some problem => simp [declare, free, Declared.refused] at told
      | none =>
          simp only [declare, free, Declared.entered, Declared.followed,
            List.append_eq_nil_iff] at told ⊢
          have still := table.parent_lt_size_enter parent known name
          rw [ihRest _ told.2, ihInside _ told.1, entries_outline_enter, path_enter_new,
            path_declare _ inside still, path_enter_old table parent known name known,
            Forest.entries]
          simp only [List.append_assoc, List.cons_append, List.nil_append]

end StateTable

end Statechart
