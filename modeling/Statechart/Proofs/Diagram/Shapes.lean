import Statechart.Proofs.Diagram.Texts
import Statechart.Proofs.State.Rereading

/-! What the document of a chart keeps. Its shapes mirror the tree of the chart, state by state, so
that they tell its names, how deep it is, and in the end the tree itself. Shapes and documents are
read back from what writes them; a shape is read from just those documents that write one.
-/

namespace Statechart

open Json

-----------------------------------------------------------------------------------------
-- Shapes of a tree
-----------------------------------------------------------------------------------------

/-- A way down from the top level of a forest, by the names of its states. -/
inductive Forest.Descends : Forest → List String → Prop
  | leaf {name rest} : Descends (.leaf name rest) [name]
  | compound {name inside rest} : Descends (.compound name inside rest) [name]
  | inside {name inside rest path} (down : Descends inside path)
    : Descends (.compound name inside rest) (name :: path)
  | afterLeaf {name rest path} (down : Descends rest path) : Descends (.leaf name rest) path
  | afterCompound {name inside rest path} (down : Descends rest path)
    : Descends (.compound name inside rest) path

namespace Shape

/-- One shape for each state of a level: a leaf for a leaf, and for a compound state one around
those of the states inside it.
-/
inductive Mirrors : Forest → List Shape → Prop
  | nil : Mirrors .nil []
  | leaf {name rest shapes} (after : Mirrors rest shapes)
    : Mirrors (.leaf name rest) (.leaf name :: shapes)
  | compound {name inside rest inner shapes} (within : Mirrors inside inner)
    (after : Mirrors rest shapes)
    : Mirrors (.compound name inside rest) (.compound name inner :: shapes)

theorem mirrors_ofForest (forest : Forest) : Mirrors forest (ofForest forest) := by
  induction forest with
  | nil => exact .nil
  | leaf name rest ih => exact .leaf ih
  | compound name inside rest ihInside ihRest => exact .compound ihInside ihRest

namespace Mirrors

variable {forest : Forest} {shapes : List Shape}

/-- Shapes mirror one tree only; by induction on the first. -/
theorem unique {other : Forest} (mirrors : Mirrors forest shapes) (again : Mirrors other shapes)
    : forest = other := by
  induction mirrors generalizing other with
  | nil =>
      cases again
      rfl
  | leaf _ ih =>
      cases again with
      | leaf after => rw [ih after]
  | compound _ _ ihInside ihRest =>
      cases again with
      | compound within after => rw [ihInside within, ihRest after]

theorem names_eq (mirrors : Mirrors forest shapes) : namesOf shapes = forest.names := by
  induction mirrors with
  | nil => rfl
  | leaf _ ih => simp [namesOf, names, Forest.names, ih]
  | compound _ _ ihInside ihRest => simp [namesOf, names, Forest.names, ihInside, ihRest]

/-- No way down is longer than the shapes are deep, counting the top level; by induction on the
way.
-/
theorem length_le (mirrors : Mirrors forest shapes) {path : List String}
    (down : forest.Descends path)
    : path.length ≤ depthOf shapes + 1 := by
  induction down generalizing shapes with
  | leaf | compound => exact Nat.succ_le_succ (Nat.zero_le _)
  | inside _ ih =>
      cases mirrors with
      | compound within after =>
          have deep := ih within
          simp only [depthOf, depth, List.length_cons]
          omega
  | afterLeaf _ ih =>
      cases mirrors with
      | leaf after =>
          have deep := ih after
          simp only [depthOf, depth]
          omega
  | afterCompound _ ih =>
      cases mirrors with
      | compound within after =>
          have deep := ih after
          simp only [depthOf, depth]
          omega

/-- Some way down is as long as the shapes are deep, if every compound state has something inside
it; by induction on the forest, into the deepest state of each level.
-/
theorem exists_descends (mirrors : Mirrors forest shapes) (some : forest ≠ .nil)
    (filled : forest.Filled)
    : ∃ path, forest.Descends path ∧ path.length = depthOf shapes + 1 := by
  induction mirrors with
  | nil => exact absurd rfl some
  | @leaf name rest shapes after ih =>
      by_cases last : rest = .nil
      · subst last
        cases after
        exact ⟨[name], .leaf, rfl⟩
      · obtain ⟨path, down, long⟩ := ih last filled
        refine ⟨path, .afterLeaf down, ?_⟩
        simp only [depthOf, depth]
        omega
  | @compound name inside rest inner shapes _ after ihInside ihRest =>
      obtain ⟨someInside, filledInside, filledRest⟩ := filled
      rcases Nat.lt_or_ge (depthOf inner + 1) (depthOf shapes) with later | here
      · have more : rest ≠ .nil := by
          rintro rfl
          cases after
          exact absurd later (Nat.not_lt_zero _)
        obtain ⟨path, down, long⟩ := ihRest more filledRest
        refine ⟨path, .afterCompound down, ?_⟩
        simp only [depthOf, depth]
        omega
      · obtain ⟨path, down, long⟩ := ihInside someInside filledInside
        refine ⟨name :: path, .inside down, ?_⟩
        simp only [depthOf, depth, List.length_cons]
        omega

end Mirrors

-----------------------------------------------------------------------------------------
-- Reading shapes
-----------------------------------------------------------------------------------------

/-- A document of a shape: a text, or an array of a text and an array of such documents. -/
inductive Readable : Json → Prop
  | name (text : String) : Readable (.string text)
  | around (text : String) {documents : List Json}
    (inside : ∀ document ∈ documents, Readable document)
    : Readable (.array [.string text, .array documents])

mutual
/-- A shape is read back from its document; by recursion on the shape. -/
theorem ofJson?_json : (shape : Shape) → ofJson? shape.json = some shape
  | .leaf name => rfl
  | .compound name inside => by rw [json, ofJson?, shapesOf?_jsonOf inside, Option.map_some]

theorem shapesOf?_jsonOf : (shapes : List Shape) → shapesOf? (jsonOf shapes) = some shapes
  | [] => rfl
  | shape :: shapes => by
      rw [jsonOf, shapesOf?, ofJson?_json shape, shapesOf?_jsonOf shapes]
      rfl
end

mutual
/-- A shape is read from no document but its own; by recursion on the shape. -/
theorem eq_json_of_ofJson? {document : Json}
    : (shape : Shape) → ofJson? document = some shape → document = shape.json
  | .leaf name, read => by
      rw [ofJson?.eq_def] at read
      split at read
      · cases read
        rfl
      · obtain ⟨_, _, same⟩ := Option.map_eq_some_iff.mp read
        cases same
      · cases read
  | .compound name inside, read => by
      rw [ofJson?.eq_def] at read
      split at read
      · cases read
      · obtain ⟨shapes, readInside, same⟩ := Option.map_eq_some_iff.mp read
        cases same
        rw [json, eq_jsonOf_of_shapesOf? inside readInside]
      · cases read

theorem eq_jsonOf_of_shapesOf? {documents : List Json}
    : (shapes : List Shape) → shapesOf? documents = some shapes → documents = jsonOf shapes
  | [], read => by
      cases documents with
      | nil => rfl
      | cons document rest => simp [shapesOf?, bind, Option.bind_eq_some_iff] at read
  | shape :: shapes, read => by
      cases documents with
      | nil => cases read
      | cons document rest =>
          simp only [shapesOf?, bind, Option.bind_eq_some_iff, pure] at read
          obtain ⟨first, readFirst, others, readOthers, same⟩ := read
          cases same
          rw [jsonOf, ← eq_json_of_ofJson? shape readFirst,
            ← eq_jsonOf_of_shapesOf? shapes readOthers]
end

mutual
theorem readable_json : (shape : Shape) → Readable shape.json
  | .leaf name => .name name
  | .compound name inside => .around name (readable_of_mem_jsonOf inside)

theorem readable_of_mem_jsonOf
    : (shapes : List Shape) → ∀ document ∈ jsonOf shapes, Readable document
  | [] => fun _ member => absurd member List.not_mem_nil
  | shape :: shapes =>
      List.forall_mem_cons.mpr ⟨readable_json shape, readable_of_mem_jsonOf shapes⟩
end

/-- Documents that can all be read are read one by one; by induction on the list. -/
theorem exists_shapesOf? {documents : List Json}
    (each : ∀ document ∈ documents, ∃ shape, ofJson? document = some shape)
    : ∃ shapes, shapesOf? documents = some shapes := by
  induction documents with
  | nil => exact ⟨[], rfl⟩
  | cons document rest ih =>
      obtain ⟨⟨shape, read⟩, others⟩ := List.forall_mem_cons.mp each
      obtain ⟨shapes, readRest⟩ := ih others
      exact ⟨shape :: shapes, by simp [shapesOf?, read, readRest]⟩

/-- The documents from which a shape is read; one way by the shape, the other by induction on how
they are made.
-/
theorem exists_ofJson?_iff {document : Json}
    : (∃ shape, ofJson? document = some shape) ↔ Readable document := by
  constructor
  · rintro ⟨shape, read⟩
    rw [eq_json_of_ofJson? shape read]
    exact readable_json shape
  · intro readable
    induction readable with
    | name text => exact ⟨.leaf text, rfl⟩
    | around text _ ih =>
        obtain ⟨shapes, read⟩ := exists_shapesOf? ih
        exact ⟨.compound text shapes, by rw [ofJson?, read, Option.map_some]⟩

end Shape

-----------------------------------------------------------------------------------------
-- Reading documents
-----------------------------------------------------------------------------------------

theorem ClauseText.ofDocument?_json (clause : ClauseText)
    : ofDocument? clause.json = some clause := by
  obtain ⟨predicate, target, action⟩ := clause
  cases target <;> cases action <;> rfl

theorem TransitionText.ofDocument?_json (transition : TransitionText)
    : ofDocument? transition.json = some transition := by
  obtain ⟨source, event, target, action, guards⟩ := transition
  have found
      : fields? ["from", "to", "event", "action", "guards"] 1
            (json ⟨source, event, target, action, guards⟩)
        = some
            [some (.string source), target.map .string, event.map .string, action.map .string,
              guards.map (fun guards => .array (guards.map ClauseText.json))] := by
    cases event <;> cases target <;> cases action <;> cases guards <;> rfl
  have guarded := optional?_guards ClauseText.ofDocument?_json guards
  simp only [ofDocument?, found, string?, optional?_string, guarded, bind, Option.bind_some, pure]

namespace ChartDocument

/-- A document is read back from what writes it. -/
theorem ofJson?_json (document : ChartDocument) : ofJson? document.json = some document := by
  obtain ⟨states, transitions⟩ := document
  have found
      : fields? ["states", "transitions"] 2 (json ⟨states, transitions⟩)
        = some [some states.json, some (.array (transitions.map TransitionText.json))] :=
    rfl
  have each : (transitions.map TransitionText.json).mapM TransitionText.ofDocument?
      = some transitions :=
    mapM_map_eq_some (fun transition _ => transition.ofDocument?_json)
  simp only [ofJson?, found, states.ofJson?_json, items?, each, bind, Option.bind_some, pure]

/-- A document whose shapes tell the tree of a chart, its names and how deep it is. -/
structure Shows (document : ChartDocument) (chart : Chart) : Prop where
  mirrors
    : ∃ shapes,
        document.states = .compound rootName shapes ∧ Shape.Mirrors chart.states shapes
  names : document.states.names = rootName :: chart.states.names
  depth_max : ∀ path, chart.states.Descends path → path.length ≤ document.states.depth
  depth_reached
    : chart.states ≠ .nil
      → chart.states.Filled
      → ∃ path, chart.states.Descends path ∧ path.length = document.states.depth
  only
    : ∀ other shown,
        ofChart other = .ok shown
        → shown.states = document.states
        → other.states = chart.states

/-- The shapes of a document are those of the chart around which it puts the root. -/
theorem states_of_ofChart {chart : Chart} {document : ChartDocument}
    (shown : ofChart chart = .ok document)
    : document.states = .compound rootName (Shape.ofForest chart.states) := by
  obtain ⟨_, _, result⟩ := bind_eq_ok_iff.mp shown
  cases result
  rfl

theorem shows_of_ofChart {chart : Chart} {document : ChartDocument}
    (shown : ofChart chart = .ok document)
    : document.Shows chart := by
  have mirrors := Shape.mirrors_ofForest chart.states
  have states := states_of_ofChart shown
  refine ⟨⟨_, states, mirrors⟩, ?_, ?_, ?_, ?_⟩
  · rw [states, Shape.names, mirrors.names_eq]
  · intro path down
    rw [states, Shape.depth]
    exact mirrors.length_le down
  · intro some filled
    rw [states, Shape.depth]
    exact mirrors.exists_descends some filled
  · intro other otherDocument otherShown same
    rw [states, states_of_ofChart otherShown] at same
    have again := Shape.mirrors_ofForest other.states
    rw [(Shape.compound.inj same).2] at again
    exact again.unique mirrors

/-- The document of a chart shows its tree, and documents are read back: shapes and documents from
what writes them, and a shape from just those documents that write one.
-/
theorem document_lossless
    : (∀ chart document, ofChart chart = .ok document → document.Shows chart)
      ∧ (∀ shape : Shape, Shape.ofJson? shape.json = some shape)
      ∧ (∀ document : ChartDocument, ofJson? document.json = some document)
      ∧ (∀ json, (∃ shape, Shape.ofJson? json = some shape) ↔ Shape.Readable json)
      ∧ ∀ json shape, Shape.ofJson? json = some shape → shape.json = json :=
  ⟨fun _ _ => shows_of_ofChart, Shape.ofJson?_json, ofJson?_json,
    fun _ => Shape.exists_ofJson?_iff, fun _ shape read => (shape.eq_json_of_ofJson? read).symm⟩

/-- A shutter that is wide open or ajar, or shut. -/
def shutter : Chart where
  states := .compound "open" (.leaf "wide" (.leaf "ajar" .nil)) (.leaf "shut" .nil)
  transitions :=
    [⟨rootName, none, .always (some "open") none⟩, ⟨"open", none, .always (some "wide") none⟩,
      ⟨"open", some "close", .always (some "shut") none⟩]

theorem shutter_lossless
    : ∃ document,
        ofChart shutter = .ok document
        ∧ document.Shows shutter
        ∧ ofJson? document.json = some document
        ∧ Shape.Readable document.states.json := by
  obtain ⟨shows, _, reads, readable, _⟩ := document_lossless
  exact ⟨_, rfl, shows _ _ rfl, reads _, (readable _).mp ⟨_, document_lossless.2.1 _⟩⟩

end ChartDocument

end Statechart
