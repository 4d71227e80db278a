import Statechart.Diagram.PlantUml

/-! The text of a diagram row by row. A block opens with a row that names its state and closes with
another; between them are the rows of the blocks inside it and one row for each of its lines. After
the blocks and an empty row comes one row for each line of the diagram.
-/

namespace Statechart

/-- Joining joined groups joins all that is in them, as no group is empty; by induction. -/
theorem intercalate_map_intercalate (separator : String) {groups : List (List String)}
    (filled : ∀ group ∈ groups, group ≠ [])
    : separator.intercalate (groups.map separator.intercalate)
      = separator.intercalate groups.flatten := by
  induction groups with
  | nil => rfl
  | cons first rest ih =>
      obtain ⟨some, others⟩ := List.forall_mem_cons.mp filled
      cases rest with
      | nil => simp
      | cons second rest =>
          have later : (second :: rest).flatten ≠ [] := by
            simp [others second List.mem_cons_self]
          rw [List.flatten_cons, String.intercalate_append_of_ne_nil some later, ← ih others,
            List.map_cons, String.intercalate_cons_of_ne_nil (by simp)]

namespace Diagram

/-- A row of the text of a diagram. -/
inductive Row where
  /-- The beginning of the block of a state. -/
  | opening (depth : Nat) (name : String) (isLeaf : Bool)
  | drawn (depth : Nat) (line : Line)
  /-- The end of a block. -/
  | closing (depth : Nat)
  | empty
deriving DecidableEq, Repr

def Row.text : Row → String
  | .opening depth name isLeaf =>
      header depth name ++ if isLeaf then " <<NoContent>> \x7b" else " \x7b"
  | .drawn depth line => indent depth ++ line.text
  | .closing depth => indent depth ++ "\x7d"
  | .empty => ""

/-- The line that stands in a row. -/
def Row.line? : Row → Option Line
  | .drawn _ line => some line
  | _ => none

/-- The rows as one text. -/
def joined (rows : List Row) : String :=
  String.intercalate "\n" (rows.map Row.text)

/-- Rows, or an empty one if there are none. -/
def orEmpty (rows : List Row) : List Row :=
  if rows = [] then [.empty] else rows

/-- The rows of each block: those inside it come before its own lines. -/
def Blocks.groups (depth : Nat) : Blocks → List (List Row)
  | .nil => []
  | .leaf name rest => [.opening depth name true, .closing depth] :: rest.groups depth
  | .compound name inside entries rest =>
      (.opening depth name false
        :: orEmpty ((inside.groups (depth + 1)).flatten ++ entries.map (.drawn (depth + 1)))
        ++ [.closing depth])
        :: rest.groups depth

/-- The lines inside blocks, in the order of the text. -/
def Blocks.lines : Blocks → List Line
  | .nil => []
  | .leaf _ rest => rest.lines
  | .compound _ inside entries rest => inside.lines ++ entries ++ rest.lines

/-- The rows of a diagram: the blocks and, after an empty row, the lines. -/
def rows (diagram : Diagram) : List Row :=
  orEmpty (diagram.blocks.groups 0).flatten
    ++ if diagram.lines = [] then [] else .empty :: diagram.lines.map (.drawn 0)

-----------------------------------------------------------------------------------------
-- Joining rows
-----------------------------------------------------------------------------------------

theorem joined_append {rows others : List Row} (some : rows ≠ []) (more : others ≠ [])
    : joined (rows ++ others) = joined rows ++ "\n" ++ joined others := by
  rw [joined, List.map_append, String.intercalate_append_of_ne_nil]
  · rfl
  · exact mt List.map_eq_nil_iff.mp some
  · exact mt List.map_eq_nil_iff.mp more

theorem joined_cons (row : Row) {rows : List Row} (more : rows ≠ [])
    : joined (row :: rows) = row.text ++ "\n" ++ joined rows := by
  rw [← List.singleton_append, joined_append (List.cons_ne_nil _ _) more]
  rfl

theorem orEmpty_ne_nil (rows : List Row) : orEmpty rows ≠ [] := by
  rw [orEmpty]
  split
  · exact List.cons_ne_nil _ _
  · assumption

theorem joined_orEmpty (rows : List Row) : joined (orEmpty rows) = joined rows := by
  rw [orEmpty]
  split
  · rename_i none
    simp [none, joined, Row.text]
  · rfl

/-- Groups that are not empty are joined one by one. -/
theorem joined_flatten {groups : List (List Row)} (filled : ∀ group ∈ groups, group ≠ [])
    : joined groups.flatten = String.intercalate "\n" (groups.map joined) := by
  have texts : ∀ group ∈ groups.map (List.map Row.text), group ≠ [] := by
    intro group member
    obtain ⟨rows, found, rfl⟩ := List.mem_map.mp member
    exact mt List.map_eq_nil_iff.mp (filled rows found)
  rw [joined, List.map_flatten, ← intercalate_map_intercalate "\n" texts, List.map_map]
  rfl

-----------------------------------------------------------------------------------------
-- The rows of blocks
-----------------------------------------------------------------------------------------

theorem Blocks.groups_ne_nil (blocks : Blocks) (depth : Nat)
    : ∀ group ∈ blocks.groups depth, group ≠ [] := by
  induction blocks generalizing depth with
  | nil => exact fun _ member => absurd member List.not_mem_nil
  | leaf name rest ih =>
      exact List.forall_mem_cons.mpr ⟨List.cons_ne_nil _ _, ih depth⟩
  | compound name inside entries rest _ ih =>
      exact List.forall_mem_cons.mpr ⟨List.cons_ne_nil _ _, ih depth⟩

/-- The text of each block is that of its rows; by induction on the blocks. -/
theorem Blocks.texts_eq (blocks : Blocks) (depth : Nat)
    : blocks.texts depth = (blocks.groups depth).map joined := by
  induction blocks generalizing depth with
  | nil => rfl
  | leaf name rest ih =>
      rw [texts, groups, List.map_cons, ih depth, joined_cons _ (List.cons_ne_nil _ _)]
      simp [joined, Row.text, String.append_assoc]
  | compound name inside entries rest ihInside ihRest =>
      let own := entries.map (Row.drawn (depth + 1))
      have content
          : inside.texts (depth + 1) ++ entries.map (fun line => indent (depth + 1) ++ line.text)
            = (inside.groups (depth + 1) ++ own.map (fun row => [row])).map joined := by
        rw [ihInside, List.map_append, List.map_map, List.map_map]
        refine congrArg _ (List.map_congr_left fun line _ => ?_)
        simp [joined, Row.text]
      have filled
          : ∀ group ∈ inside.groups (depth + 1) ++ own.map (fun row => [row]), group ≠ [] := by
        intro group member
        rcases List.mem_append.mp member with member | member
        · exact inside.groups_ne_nil _ group member
        · obtain ⟨row, _, rfl⟩ := List.mem_map.mp member
          exact List.cons_ne_nil _ _
      have body := joined_flatten filled
      rw [List.flatten_append, ← List.flatMap_def, List.flatMap_singleton'] at body
      rw [texts, groups, List.map_cons, ihRest depth, content, ← body, List.cons_append,
        joined_cons _ (by simp), joined_append (orEmpty_ne_nil _) (List.cons_ne_nil _ _),
        joined_orEmpty]
      simp [joined, Row.text, String.append_assoc, own]

/-- The text of a diagram is that of its rows. -/
theorem text_eq (diagram : Diagram) : diagram.text = joined diagram.rows := by
  have filled := diagram.blocks.groups_ne_nil 0
  rw [text, rows, Blocks.texts_eq, ← joined_flatten filled]
  split
  · rename_i none
    rw [if_pos (List.isEmpty_iff.mp none), List.append_nil, joined_orEmpty]
  · rename_i some
    have some := mt List.isEmpty_iff.mpr some
    rw [if_neg some, joined_append (orEmpty_ne_nil _) (List.cons_ne_nil _ _), joined_orEmpty,
      joined_cons _ (mt List.map_eq_nil_iff.mp some)]
    have plain : Row.text ∘ Row.drawn 0 = Line.text := by
      funext line
      simp [Row.text, indent]
    simp [joined, Row.text, String.append_assoc, plain]
    rfl

-----------------------------------------------------------------------------------------
-- The lines in rows
-----------------------------------------------------------------------------------------

theorem filterMap_line?_orEmpty (rows : List Row)
    : (orEmpty rows).filterMap Row.line? = rows.filterMap Row.line? := by
  rw [orEmpty]
  split <;> simp_all [Row.line?]

theorem line?_comp_drawn (depth : Nat) : Row.line? ∘ Row.drawn depth = some :=
  rfl

theorem Blocks.filterMap_line?_groups (blocks : Blocks) (depth : Nat)
    : (blocks.groups depth).flatten.filterMap Row.line? = blocks.lines := by
  induction blocks generalizing depth with
  | nil => rfl
  | leaf name rest ih => simp [groups, lines, List.filterMap_cons, Row.line?, ih]
  | compound name inside entries rest ihInside ihRest =>
      simp [groups, lines, List.filterMap_cons, Row.line?, ihInside, ihRest,
        filterMap_line?_orEmpty, line?_comp_drawn]

/-- There is one row for each line, first those inside blocks. -/
theorem filterMap_line?_rows (diagram : Diagram)
    : diagram.rows.filterMap Row.line? = diagram.blocks.lines ++ diagram.lines := by
  rw [rows, List.filterMap_append, filterMap_line?_orEmpty, Blocks.filterMap_line?_groups]
  split
  · rename_i none
    rw [none]
    rfl
  · rw [List.filterMap_cons_none rfl, List.filterMap_map, line?_comp_drawn, List.filterMap_some]

end Diagram

end Statechart
