import Statechart.Proofs.Chart.WellFormed
import Statechart.Proofs.Diagram.Naming
import Statechart.Proofs.Diagram.Rows
import Statechart.Proofs.State.Nodes

/-! Where a diagram draws the alternatives of a chart. The automatic ones of a state with others
inside it stand in its block, all others after the blocks, and each once. Only those of a state that
is declared around others without having any are drawn in both places: its block takes it for a
compound state, and the list after the blocks for a leaf.
-/

namespace Statechart

-----------------------------------------------------------------------------------------
-- Parts of a list put together again
-----------------------------------------------------------------------------------------

/-- What passes one of two tests that exclude each other passes the one or the other. -/
theorem filter_append_filter_perm {α : Type} {test other : α → Bool}
    (exclusive : ∀ element, test element = true → other element = false) (list : List α)
    : (list.filter test ++ list.filter other).Perm
        (list.filter (fun element => test element || other element)) := by
  have split :=
    List.filter_append_perm test (list.filter (fun element => test element || other element))
  rw [List.filter_filter, List.filter_filter] at split
  have first : (fun element => test element && (test element || other element)) = test := by
    funext element
    cases test element <;> rfl
  have second : (fun element => !test element && (test element || other element)) = other := by
    funext element
    cases passes : test element
    · rfl
    · rw [exclusive element passes]
      rfl
  rwa [first, second] at split

/-- Elements are parted by a key, if each key is given once; by induction on the keys. -/
theorem flatMap_filter_perm {α κ : Type} [DecidableEq κ] (key : α → κ) (test : α → Bool)
    {keys : List κ} (distinct : keys.Nodup) (list : List α)
    : (keys.flatMap
          (fun one => list.filter (fun element => test element && key element = one))).Perm
        (list.filter (fun element => test element && decide (key element ∈ keys))) := by
  induction keys with
  | nil => simp
  | cons first rest ih =>
      obtain ⟨absent, distinct⟩ := List.nodup_cons.mp distinct
      rw [List.flatMap_cons]
      refine ((ih distinct).append_left _).trans ?_
      refine (filter_append_filter_perm (fun element passes => ?_) list).trans (.of_eq ?_)
      · obtain ⟨_, here⟩ := Bool.and_eq_true_iff.mp passes
        obtain rfl := of_decide_eq_true here
        simp [absent]
      · refine List.filter_congr fun element _ => ?_
        rw [← Bool.and_or_distrib_left, Bool.eq_iff_iff]
        simp

-----------------------------------------------------------------------------------------
-- States that are declared around others
-----------------------------------------------------------------------------------------

namespace Forest

/-- The states that are declared around others, with what lies inside them, each after those inside
it.
-/
def compounds : Forest → List (String × Forest)
  | .nil => []
  | .leaf _ rest => rest.compounds
  | .compound name inside rest => inside.compounds ++ (name, inside) :: rest.compounds

theorem mem_nodes_of_mem_compounds {forest : Forest} {node : String × Forest}
    (member : node ∈ forest.compounds)
    : node ∈ forest.nodes := by
  induction forest with
  | nil => cases member
  | leaf name rest ih => exact List.mem_cons_of_mem _ (ih member)
  | compound name inside rest ihInside ihRest =>
      simp only [compounds, List.mem_append, List.mem_cons] at member
      simp only [nodes, List.cons_append, List.mem_cons, List.mem_append]
      rcases member with member | here | member
      · exact Or.inr (Or.inl (ihInside member))
      · exact Or.inl here
      · exact Or.inr (Or.inr (ihRest member))

/-- A state with others inside it is declared around them. -/
theorem mem_compounds_of_mem_nodes {forest inside : Forest} {name : String}
    (member : (name, inside) ∈ forest.nodes) (filled : inside ≠ .nil)
    : (name, inside) ∈ forest.compounds := by
  induction forest with
  | nil => cases member
  | leaf other rest ih =>
      rcases List.mem_cons.mp member with same | member
      · cases same
        exact absurd rfl filled
      · exact ih member
  | compound other within rest ihInside ihRest =>
      simp only [nodes, List.cons_append, List.mem_cons, List.mem_append] at member
      simp only [compounds, List.mem_append, List.mem_cons]
      rcases member with here | member | member
      · exact Or.inr (Or.inl here)
      · exact Or.inl (ihInside member)
      · exact Or.inr (Or.inr (ihRest member))

theorem mem_names_of_mem_compounds {forest : Forest} {name : String}
    (member : name ∈ forest.compounds.map (·.1))
    : name ∈ forest.names := by
  obtain ⟨⟨_, inside⟩, found, rfl⟩ := List.mem_map.mp member
  exact mem_names_of_mem_nodes (mem_nodes_of_mem_compounds found)

/-- States with different names are each declared once; by induction on the forest. -/
theorem nodup_compounds {forest : Forest} (distinct : forest.names.Nodup)
    : (forest.compounds.map (·.1)).Nodup := by
  induction forest with
  | nil => exact List.nodup_nil
  | leaf name rest ih => exact ih (List.nodup_cons.mp distinct).2
  | compound name inside rest ihInside ihRest =>
      simp only [names, List.cons_append, List.nodup_cons, List.mem_append, not_or,
        List.nodup_append] at distinct
      obtain ⟨⟨absentInside, absentRest⟩, distinctInside, distinctRest, apart⟩ := distinct
      simp only [compounds, List.map_append, List.map_cons]
      refine List.nodup_append.mpr ⟨ihInside distinctInside, ?_, ?_⟩
      · refine List.nodup_cons.mpr ⟨?_, ihRest distinctRest⟩
        exact fun member => absentRest (mem_names_of_mem_compounds member)
      · rintro inner memberInside outer member rfl
        have within := mem_names_of_mem_compounds memberInside
        rcases List.mem_cons.mp member with rfl | member
        · exact absentInside within
        · exact apart inner within inner (mem_names_of_mem_compounds member) rfl

end Forest

-----------------------------------------------------------------------------------------
-- Ways to take the transitions of a chart
-----------------------------------------------------------------------------------------

/-- The functions of an alternative have names that show. -/
structure Alternative.Named (alternative : Alternative) : Prop where
  predicate : ∀ predicate ∈ alternative.predicate, isBlankText predicate.name = false
  action : ∀ action ∈ alternative.action, isBlankText action.name = false

instance (alternative : Alternative) : Decidable alternative.Named :=
  decidable_of_iff
    ((∀ predicate ∈ alternative.predicate, isBlankText predicate.name = false)
      ∧ ∀ action ∈ alternative.action, isBlankText action.name = false)
    ⟨fun ⟨predicate, action⟩ => ⟨predicate, action⟩, fun named => ⟨named.predicate, named.action⟩⟩

/-- The functions of an alternative have names that show if there is no problem with them. -/
theorem Alternative.named_iff {alternative : Alternative} (source : String)
    : alternative.Named ↔ ∀ problem, ¬ alternative.Nameless source problem := by
  constructor
  · intro named problem nameless
    cases nameless with
    | predicate uses blank => simp [named.predicate _ uses] at blank
    | action uses blank => simp [named.action _ uses] at blank
  · intro none
    refine ⟨fun predicate uses => ?_, fun action uses => ?_⟩
    · by_contra blank
      exact none _ (.predicate uses (by simpa using blank))
    · by_contra blank
      exact none _ (.action uses (by simpa using blank))

namespace Chart

open scoped List

/-- The functions of a chart have names that show. -/
def Named (chart : Chart) : Prop :=
  ∀ transition ∈ chart.transitions, ∀ alternative ∈ transition.alternatives, alternative.Named

instance (chart : Chart) : Decidable chart.Named :=
  inferInstanceAs
    (Decidable
      (∀ transition ∈ chart.transitions,
        ∀ alternative ∈ transition.alternatives, alternative.Named))

/-- Transitions with each of their alternatives, in order of declaration. -/
def ways (transitions : List Transition) : List (Transition × Alternative) :=
  transitions.flatMap (fun transition => transition.alternatives.map (transition, ·))

/-- The automatic transitions of a state, in order of declaration. -/
def automaticFrom (chart : Chart) (state : String) : List Transition :=
  (chart.transitionsFrom state).filter (·.isAutomatic)

/-- Whether a transition is an automatic one of a state with others inside it. -/
def goesInside (chart : Chart) (transition : Transition) : Bool :=
  transition.isAutomatic
    && chart.states.nodes.any (fun node => node.1 = transition.source && node.2 ≠ .nil)

/-- The automatic alternatives of the states that are declared around others. -/
def waysInBlocks (chart : Chart) (forest : Forest) : List (Transition × Alternative) :=
  forest.compounds.flatMap (fun state => ways (chart.automaticFrom state.1))

/-- The alternatives that are not automatic ones of a state with others inside it. -/
def waysOutside (chart : Chart) : List (Transition × Alternative) :=
  ways (chart.transitions.filter (fun transition => !chart.goesInside transition))

/-- The automatic alternatives of the states that are declared around others without having any. -/
def waysOfHollow (chart : Chart) : List (Transition × Alternative) :=
  (chart.states.compounds.filter (fun state => state.2 = .nil)).flatMap
    (fun state => ways (chart.automaticFrom state.1))

theorem ways_append (transitions others : List Transition)
    : ways (transitions ++ others) = ways transitions ++ ways others :=
  List.flatMap_append

theorem ways_perm {transitions others : List Transition} (same : transitions.Perm others)
    : (ways transitions).Perm (ways others) :=
  same.flatMap_right _

variable {chart : Chart}

/-- The states with others inside them are those declared around others, but for the hollow ones. -/
theorem goesInside_iff {transition : Transition}
    : chart.goesInside transition = true
      ↔ transition.isAutomatic = true
        ∧ transition.source
          ∈ (chart.states.compounds.filter (fun state => state.2 ≠ .nil)).map (·.1) := by
  rw [goesInside, Bool.and_eq_true_iff, List.any_eq_true]
  refine and_congr_right fun _ => ?_
  simp only [Bool.and_eq_true, decide_eq_true_eq, List.mem_map, List.mem_filter, Prod.exists]
  constructor
  · rintro ⟨_, inside, node, rfl, filled⟩
    exact ⟨_, inside, ⟨Forest.mem_compounds_of_mem_nodes node filled, filled⟩, rfl⟩
  · rintro ⟨_, inside, ⟨member, filled⟩, rfl⟩
    exact ⟨_, inside, Forest.mem_nodes_of_mem_compounds member, rfl, filled⟩

/-- The automatic transitions of different states are parts of all of them. -/
theorem flatMap_automaticFrom_perm {states : List String} (distinct : states.Nodup)
    : (states.flatMap chart.automaticFrom).Perm
        (chart.transitions.filter
          (fun transition => transition.isAutomatic && decide (transition.source ∈ states))) := by
  have each : chart.automaticFrom
      = fun state =>
          chart.transitions.filter
            (fun transition => transition.isAutomatic && transition.source = state) := by
    funext state
    rw [automaticFrom, transitionsFrom, List.filter_filter]
  rw [each]
  exact flatMap_filter_perm Transition.source Transition.isAutomatic distinct chart.transitions

/-- The alternatives in blocks and those outside are all there are, and those of the hollow states
once more.
-/
theorem waysInBlocks_append_waysOutside (distinct : chart.states.names.Nodup)
    : (chart.waysInBlocks chart.states ++ chart.waysOutside).Perm
        (ways chart.transitions ++ chart.waysOfHollow) := by
  -- The blocks of states with others inside them and those of the hollow ones are apart.
  let filled := chart.states.compounds.filter (fun state => state.2 ≠ .nil)
  have parted : (filled.flatMap (fun state => ways (chart.automaticFrom state.1))
        ++ chart.waysOfHollow).Perm
      (chart.waysInBlocks chart.states) := by
    have split := List.filter_append_perm (fun state => decide (state.2 ≠ .nil))
      chart.states.compounds
    have whole := split.flatMap_right (fun state => ways (chart.automaticFrom state.1))
    rw [List.flatMap_append] at whole
    simpa only [ne_eq, decide_not, Bool.not_not, filled, waysOfHollow, waysInBlocks] using whole
  have inside : (filled.flatMap (fun state => ways (chart.automaticFrom state.1))).Perm
      (ways (chart.transitions.filter chart.goesInside)) := by
    have different : (filled.map (·.1)).Nodup :=
      (Forest.nodup_compounds distinct).sublist (List.filter_sublist.map _)
    have together : filled.flatMap (fun state => ways (chart.automaticFrom state.1))
        = ways ((filled.map (·.1)).flatMap chart.automaticFrom) := by
      rw [ways, List.flatMap_assoc, List.flatMap_map]
      rfl
    rw [together]
    refine (ways_perm (flatMap_automaticFrom_perm different)).trans (.of_eq (congrArg ways ?_))
    refine List.filter_congr fun transition _ => ?_
    rw [Bool.eq_iff_iff, goesInside_iff, Bool.and_eq_true_iff, decide_eq_true_eq]
  have all := ways_perm (List.filter_append_perm chart.goesInside chart.transitions)
  rw [ways_append] at all
  calc chart.waysInBlocks chart.states ++ chart.waysOutside
    _ ~ (ways (chart.transitions.filter chart.goesInside) ++ chart.waysOfHollow)
          ++ chart.waysOutside := (parted.symm.trans (inside.append_right _)).append_right _
    _ ~ (ways (chart.transitions.filter chart.goesInside) ++ chart.waysOutside)
          ++ chart.waysOfHollow := by
        rw [List.append_assoc, List.append_assoc]
        exact List.perm_append_comm.append_left _
    _ ~ ways chart.transitions ++ chart.waysOfHollow := all.append_right _

/-- The tree tells which transitions the outline places inside blocks. -/
theorem isNested_eq {outline : Outline} (built : Outline.ofForest chart.states = .ok outline)
    (transition : Transition)
    : Diagram.isNested outline transition = chart.goesInside transition := by
  have distinct := Outline.nodup_names_of_ofForest built
  have compound {inside : Forest} (node : (transition.source, inside) ∈ chart.states.nodes)
      : outline.isCompound transition.source = true ↔ inside ≠ .nil := by
    rw [Outline.isCompound, Outline.isLeaf,
      Outline.children_of_ofForest built (List.mem_cons_of_mem _ node), ne_eq,
      ← Forest.siblings_eq_nil_iff]
    simp
  rw [Bool.eq_iff_iff]
  simp only [Diagram.isNested, isEntry, goesInside, Bool.and_eq_true, Bool.not_eq_true',
    Transition.isFromRoot, beq_eq_false_iff_ne, List.any_eq_true, decide_eq_true_eq, Prod.exists,
    has_iff built]
  constructor
  · rintro ⟨inner, ⟨automatic, known⟩, filled⟩
    have member := known.resolve_left inner
    rw [← Forest.map_fst_nodes] at member
    obtain ⟨⟨name, inside⟩, node, rfl⟩ := List.mem_map.mp member
    exact ⟨automatic, _, inside, node, rfl, (compound node).mp filled⟩
  · rintro ⟨automatic, _, inside, node, rfl, filled⟩
    have member := Forest.mem_names_of_mem_nodes node
    refine ⟨?_, ⟨automatic, Or.inr member⟩, (compound node).mpr filled⟩
    intro isRoot
    exact (List.nodup_cons.mp distinct).1 (isRoot ▸ member)

end Chart

-----------------------------------------------------------------------------------------
-- Lines and blocks that draw alternatives
-----------------------------------------------------------------------------------------

namespace Diagram

/-- What a line draws: an alternative as an arrow to its target, or one without a target as a
description of its state.
-/
inductive Line.Draws (origin : Origin) (way : Transition × Alternative) : Line → Prop
  | arrow {target text} (leads : way.2.target = some target)
    (labelled : label way.1 way.2 = .ok text)
    : Draws origin way (.arrow origin (drawnTarget way.1.source target) text)
  | description {text} (stays : way.2.target = none) (labelled : label way.1 way.2 = .ok text)
    : Draws origin way (.description way.1.source (String.ofList (trimStart text.toList)))

/-- One block for each state, nested as the states are. In the block of a state that is declared
around others come first their blocks, then one line for each of its automatic alternatives.
-/
inductive Blocks.Draws (chart : Chart) : Forest → Blocks → Prop
  | nil : Draws chart .nil .nil
  | leaf {name rest blocks} (after : Draws chart rest blocks)
    : Draws chart (.leaf name rest) (.leaf name blocks)
  | compound {name inside rest inner entries blocks} (within : Draws chart inside inner)
    (entering
      : List.Forall₂ (Line.Draws .entryMark) (Chart.ways (chart.automaticFrom name)) entries)
    (after : Draws chart rest blocks)
    : Draws chart (.compound name inside rest) (.compound name inner entries blocks)

/-- A diagram with a block for each state of a chart and a line for each of the alternatives that
are placed inside and outside the blocks. These are all there are, and those of the hollow states
once more. Each line has one row of the text.
-/
structure Draws (diagram : Diagram) (chart : Chart) : Prop where
  blocks : Blocks.Draws chart chart.states diagram.blocks
  inside
    : List.Forall₂ (Line.Draws .entryMark) (chart.waysInBlocks chart.states) diagram.blocks.lines
  outside
    : List.Forall₂ (fun way => Line.Draws (outerOrigin way.1) way) chart.waysOutside diagram.lines
  complete
    : (chart.waysInBlocks chart.states ++ chart.waysOutside).Perm
        (Chart.ways chart.transitions ++ chart.waysOfHollow)
  text : diagram.text = String.intercalate "\n" (diagram.rows.map Row.text)
  rows : diagram.rows.filterMap Row.line? = diagram.blocks.lines ++ diagram.lines

/-- Each alternative of a chart is drawn by one line of a diagram. -/
def DrawsOnce (diagram : Diagram) (chart : Chart) : Prop :=
  ∃ drawn : List (Transition × Alternative),
    drawn.Perm (Chart.ways chart.transitions)
    ∧ List.Forall₂ (fun way line => ∃ origin, Line.Draws origin way line) drawn
        (diagram.blocks.lines ++ diagram.lines)

/-- Each alternative is drawn by one line just if the hollow states have no automatic ones: with
them there are more lines than alternatives.
-/
theorem Draws.drawsOnce_iff {diagram : Diagram} {chart : Chart} (drawn : diagram.Draws chart)
    : diagram.DrawsOnce chart ↔ chart.waysOfHollow = [] := by
  have together : List.Forall₂ (fun way line => ∃ origin, Line.Draws origin way line)
      (chart.waysInBlocks chart.states ++ chart.waysOutside)
      (diagram.blocks.lines ++ diagram.lines) :=
    List.rel_append (drawn.inside.imp fun _ _ draws => ⟨_, draws⟩)
      (drawn.outside.imp fun _ _ draws => ⟨_, draws⟩)
  constructor
  · rintro ⟨once, all, lines⟩
    have lengths := lines.length_eq.trans together.length_eq.symm
    rw [all.length_eq, drawn.complete.length_eq, List.length_append] at lengths
    exact List.eq_nil_of_length_eq_zero (by omega)
  · intro none
    have complete := drawn.complete
    rw [none, List.append_nil] at complete
    exact ⟨_, complete, together⟩

/-- An alternative whose functions have names has a label. -/
theorem exists_label {alternative : Alternative} (named : alternative.Named)
    (transition : Transition)
    : ∃ text, label transition alternative = .ok text :=
  (label_refuses transition alternative).exists_ok_iff.mpr ((Alternative.named_iff _).mp named)

/-- An alternative whose functions have names is drawn by a line. -/
theorem Line.exists_ofAlternative {alternative : Alternative} (named : alternative.Named)
    (origin : Origin) (transition : Transition)
    : ∃ line,
        ofAlternative origin transition alternative = .ok line
        ∧ Draws origin (transition, alternative) line := by
  obtain ⟨text, labelled⟩ := exists_label named transition
  rw [ofAlternative, labelled]
  cases target : alternative.target with
  | none => exact ⟨_, rfl, .description target labelled⟩
  | some target => exact ⟨_, rfl, .arrow ‹_› labelled⟩

/-- The lines of transitions draw their alternatives, from the origin of each transition. -/
theorem Line.exists_ofTransitions (origin : Transition → Origin) {transitions : List Transition}
    (named
      : ∀ transition ∈ transitions,
          ∀ alternative ∈ transition.alternatives, alternative.Named)
    : ∃ drawn,
        transitions.mapM (fun transition => ofTransition (origin transition) transition) = .ok drawn
        ∧ List.Forall₂ (fun way => Draws (origin way.1) way) (Chart.ways transitions)
            drawn.flatten := by
  have each
      : ∀ transition ∈ transitions,
          ∃ lines,
            ofTransition (origin transition) transition = .ok lines
            ∧ List.Forall₂ (fun way => Draws (origin way.1) way)
                (transition.alternatives.map (transition, ·)) lines := by
    intro transition member
    simp only [List.forall₂_map_left_iff]
    exact mapM_fulfills fun alternative inside =>
      exists_ofAlternative (named transition member alternative inside) _ transition
  obtain ⟨drawn, computed, good⟩ := mapM_fulfills each
  refine ⟨drawn, computed, ?_⟩
  rw [Chart.ways, List.flatMap_def]
  exact List.rel_flatten (List.forall₂_map_left_iff.mpr good)

variable {chart : Chart}

theorem exists_entryLines (named : chart.Named) (state : String)
    : ∃ entries,
        entryLines chart state = .ok entries
        ∧ List.Forall₂ (Line.Draws .entryMark) (Chart.ways (chart.automaticFrom state))
            entries := by
  have some : ∀ transition ∈ chart.automaticFrom state,
      ∀ alternative ∈ transition.alternatives, alternative.Named := fun transition member =>
    named transition (List.mem_of_mem_filter (List.mem_of_mem_filter member))
  obtain ⟨drawn, computed, good⟩ := Line.exists_ofTransitions (fun _ => .entryMark) some
  refine ⟨drawn.flatten, ?_, good⟩
  rw [Chart.automaticFrom] at computed
  simp only [entryLines, computed, bind, Except.bind, pure, Except.pure]

/-- Each state has its block; by induction on the forest. -/
theorem Blocks.exists_ofForest (named : chart.Named) (forest : Forest)
    : ∃ blocks, ofForest chart forest = .ok blocks ∧ Draws chart forest blocks := by
  induction forest with
  | nil => exact ⟨.nil, rfl, .nil⟩
  | leaf name rest ih =>
      obtain ⟨blocks, computed, drawn⟩ := ih
      refine ⟨.leaf name blocks, ?_, .leaf drawn⟩
      simp only [ofForest, computed, bind, Except.bind, pure, Except.pure]
  | compound name inside rest ihInside ihRest =>
      obtain ⟨inner, computedInside, drawnInside⟩ := ihInside
      obtain ⟨entries, computed, drawn⟩ := exists_entryLines named name
      obtain ⟨blocks, computedRest, drawnRest⟩ := ihRest
      refine ⟨.compound name inner entries blocks, ?_, .compound drawnInside drawn drawnRest⟩
      simp only [ofForest, computedInside, computed, computedRest, bind, Except.bind, pure,
        Except.pure]

/-- The lines inside blocks draw the automatic alternatives of the states that are declared around
others; by induction on the blocks.
-/
theorem Blocks.Draws.lines {forest : Forest} {blocks : Blocks} (drawn : Draws chart forest blocks)
    : List.Forall₂ (Line.Draws .entryMark) (chart.waysInBlocks forest) blocks.lines := by
  induction drawn with
  | nil => exact .nil
  | leaf _ ih => exact ih
  | compound _ entering _ ihInside ihRest =>
      rw [Chart.waysInBlocks, Forest.compounds, List.flatMap_append, List.flatMap_cons,
        Blocks.lines, List.append_assoc]
      exact List.rel_append ihInside (List.rel_append entering ihRest)

theorem exists_outerLines {outline : Outline} (built : Outline.ofForest chart.states = .ok outline)
    (named : chart.Named)
    : ∃ lines,
        outerLines chart outline = .ok lines
        ∧ List.Forall₂ (fun way => Line.Draws (outerOrigin way.1) way) chart.waysOutside lines := by
  let outside := chart.transitions.filter (fun transition => !chart.goesInside transition)
  have some : ∀ transition ∈ outside,
      ∀ alternative ∈ transition.alternatives, alternative.Named := fun transition member =>
    named transition (List.mem_of_mem_filter member)
  obtain ⟨drawn, computed, good⟩ := Line.exists_ofTransitions outerOrigin some
  refine ⟨drawn.flatten, ?_, good⟩
  simp only [outerLines, Chart.isNested_eq built, bind, Except.bind, pure, Except.pure]
  rw [computed]

/-- A chart whose tree has an outline and whose functions have names is drawn, with each
alternative in its place. Each is drawn once just if no state that is declared around others without
having any has an automatic alternative.
-/
theorem alternatives_drawn {outline : Outline}
    (built : Outline.ofForest chart.states = .ok outline) (named : chart.Named)
    : ∃ diagram,
        ofChart chart = .ok diagram
        ∧ diagram.Draws chart
        ∧ (diagram.DrawsOnce chart ↔ chart.waysOfHollow = []) := by
  obtain ⟨blocks, computedBlocks, inside⟩ := Blocks.exists_ofForest named chart.states
  obtain ⟨lines, computedLines, outside⟩ := exists_outerLines built named
  have distinct := (List.nodup_cons.mp (Outline.nodup_names_of_ofForest built)).2
  have drawn : Draws ⟨blocks, lines⟩ chart :=
    { blocks := inside
      inside := inside.lines
      outside
      complete := Chart.waysInBlocks_append_waysOutside distinct
      text := text_eq _
      rows := filterMap_line?_rows _ }
  refine ⟨⟨blocks, lines⟩, ?_, drawn, drawn.drawsOnce_iff⟩
  rw [ofChart, built]
  simp only [computedBlocks, computedLines, bind, Except.bind, pure, Except.pure, Except.mapError]

/-- A house that is entered at the hall while it is open. -/
def house : Chart where
  states := .compound "house" (.leaf "hall" (.leaf "attic" .nil)) .nil
  transitions :=
    [⟨rootName, none, .always (some "house") none⟩,
      ⟨"house", none, .guarded [⟨⟨"isOpen", fun _ _ _ => true⟩, some "hall", none⟩]⟩,
      ⟨"hall", some "climb", .always (some "attic") none⟩,
      ⟨"attic", some "sing", .always none (some ⟨"sing", fun _ _ _ => {}⟩)⟩]

theorem house_drawn
    : ∃ diagram,
        ofChart house = .ok diagram ∧ diagram.Draws house ∧ diagram.DrawsOnce house := by
  obtain ⟨outline, built⟩ : ∃ outline, Outline.ofForest house.states = .ok outline := ⟨_, rfl⟩
  obtain ⟨diagram, shown, drawn, once⟩ := alternatives_drawn built (by decide)
  exact ⟨diagram, shown, drawn, once.mpr rfl⟩

/-- A room that is left for the hall at once, declared around others without having any. -/
def hollowRoom : Chart where
  states := .compound "room" .nil (.leaf "hall" .nil)
  transitions :=
    [⟨rootName, some "init", .always (some "room") none⟩,
      ⟨"room", none, .always (some "hall") none⟩]

/-- The way out of the hollow room is drawn in its block and after the blocks. -/
theorem hollowRoom_drawn_twice
    : (∃ outline, Outline.ofForest hollowRoom.states = .ok outline)
      ∧ hollowRoom.Named
      ∧ ∃ diagram,
          ofChart hollowRoom = .ok diagram
          ∧ diagram.blocks.lines = [.arrow .entryMark "hall" ""]
          ∧ diagram.lines = [.arrow .entryMark "room" "", .arrow (.state "room") "hall" ""]
          ∧ diagram.text
            = "state \"room\" as room \x7b\n  [*] --> hall\n\x7d\n"
              ++ "state \"hall\" as hall <<NoContent>> \x7b\n\x7d\n\n"
              ++ "[*] --> room\nroom --> hall"
          ∧ ¬ diagram.DrawsOnce hollowRoom := by
  refine ⟨⟨_, rfl⟩, by decide, _, rfl, rfl, rfl, rfl, ?_⟩
  rintro ⟨drawn, all, lines⟩
  exact absurd (lines.length_eq.symm.trans all.length_eq) (by decide)

end Diagram

end Statechart
