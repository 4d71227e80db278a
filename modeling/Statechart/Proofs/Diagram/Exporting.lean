import Statechart.Diagram.Document
import Statechart.Draft.Chart
import Statechart.Draft.Machine
import Statechart.Proofs.Chart.Validation
import Statechart.Proofs.Diagram.Placement

/-! Which charts are shown as documents and drawn as diagrams: those whose functions all have names
that show and, for diagrams, whose trees have outlines. Each step of showing or drawing refuses just
the functions that it meets, and together the steps meet all of them: the entries that are left out
after the blocks are met inside them. Accepted charts have such names and trees.
-/

namespace Statechart

theorem Chart.named_iff {chart : Chart} : chart.Named ↔ ∀ problem, ¬ chart.Nameless problem := by
  constructor
  · intro named problem ⟨transition, declared, alternative, offered, nameless⟩
    exact (Alternative.named_iff _).mp (named transition declared alternative offered) _ nameless
  · intro none transition declared alternative offered
    refine (Alternative.named_iff transition.source).mpr fun problem nameless => ?_
    exact none problem ⟨transition, declared, alternative, offered, nameless⟩

-----------------------------------------------------------------------------------------
-- Documents
-----------------------------------------------------------------------------------------

theorem ClauseText.ofClause_refuses (source : String) (clause : Clause)
    : Refuses (clause.alternative.Nameless source) (ofClause source clause) := by
  have predicate := Diagram.functionName_refuses source .predicate clause.predicate.name
  have action := Diagram.optionalName_refuses source .action Action.name clause.action
  refine (predicate.bind fun _ => action.bind_ok fun _ => ⟨_, rfl⟩).congr fun problem => ?_
  simp [Alternative.nameless_iff, Clause.alternative]

theorem TransitionText.ofTransition_refuses (transition : Transition)
    : Refuses transition.Nameless (ofTransition transition) := by
  obtain ⟨source, event, reaction⟩ := transition
  cases reaction with
  | always target action =>
      have name := Diagram.optionalName_refuses source .action Action.name action
      refine (name.bind_ok fun _ => ⟨_, rfl⟩).congr fun problem => ?_
      simp [Transition.Nameless, Transition.alternatives, Reaction.alternatives,
        Alternative.nameless_iff]
  | guarded clauses =>
      have guards
          : Refuses
              (fun problem => ∃ clause ∈ clauses, clause.alternative.Nameless source problem)
              (clauses.mapM (ClauseText.ofClause source)) :=
        .mapM fun clause _ => ClauseText.ofClause_refuses source clause
      refine (guards.bind_ok fun _ => ⟨_, rfl⟩).congr fun problem => ?_
      simp [Transition.Nameless, Transition.alternatives, Reaction.alternatives]

theorem ChartDocument.ofChart_refuses (chart : Chart)
    : Refuses chart.Nameless (ofChart chart) := by
  have transitions : Refuses chart.Nameless
      (chart.transitions.mapM TransitionText.ofTransition) :=
    .mapM fun transition _ => TransitionText.ofTransition_refuses transition
  exact transitions.bind_ok fun _ => ⟨_, rfl⟩

-----------------------------------------------------------------------------------------
-- Diagrams
-----------------------------------------------------------------------------------------

namespace Diagram

theorem Line.ofAlternative_refuses (origin : Origin) (transition : Transition)
    (alternative : Alternative)
    : Refuses (alternative.Nameless transition.source)
        (ofAlternative origin transition alternative) := by
  refine (label_refuses transition alternative).bind_ok fun text => ?_
  cases alternative.target with
  | none => exact ⟨_, rfl⟩
  | some target => exact ⟨_, rfl⟩

theorem Line.ofTransition_refuses (origin : Origin) (transition : Transition)
    : Refuses transition.Nameless (ofTransition origin transition) :=
  .mapM fun alternative _ => ofAlternative_refuses origin transition alternative

variable {chart : Chart}

theorem entryLines_refuses (chart : Chart) (state : String)
    : Refuses
        (fun problem => ∃ transition ∈ chart.automaticFrom state, transition.Nameless problem)
        (entryLines chart state) := by
  have transitions
      : Refuses
          (fun problem => ∃ transition ∈ chart.automaticFrom state, transition.Nameless problem)
          ((chart.automaticFrom state).mapM (Line.ofTransition .entryMark)) :=
    .mapM fun transition _ => Line.ofTransition_refuses .entryMark transition
  exact transitions.bind_ok fun _ => ⟨_, rfl⟩

/-- The blocks refuse the entries of the states that are declared around others; by induction on the
forest.
-/
theorem Blocks.ofForest_refuses (chart : Chart) (forest : Forest)
    : Refuses
        (fun problem =>
          ∃ state ∈ forest.compounds,
            ∃ transition ∈ chart.automaticFrom state.1, transition.Nameless problem)
        (ofForest chart forest) := by
  induction forest with
  | nil => exact .ok (by simp [Forest.compounds])
  | leaf name rest ih => exact ih.bind_ok fun _ => ⟨_, rfl⟩
  | compound name inside rest ihInside ihRest =>
      refine (ihInside.bind fun _ =>
        (entryLines_refuses chart name).bind fun _ => ihRest.bind_ok fun _ => ⟨_, rfl⟩).congr ?_
      simp only [Forest.compounds, List.mem_append, List.mem_cons, or_and_right, exists_or,
        exists_eq_left, implies_true]

theorem outerLines_refuses {outline : Outline} (built : Outline.ofForest chart.states = .ok outline)
    : Refuses
        (fun problem =>
          ∃ transition ∈ chart.transitions.filter (fun transition => !chart.goesInside transition),
            transition.Nameless problem)
        (outerLines chart outline) := by
  have each : isNested outline = chart.goesInside := funext (Chart.isNested_eq built)
  rw [outerLines, each]
  exact (Refuses.mapM fun transition _ => Line.ofTransition_refuses _ transition).bind_ok
    fun _ => ⟨_, rfl⟩

/-- A function without a name is met inside the blocks or after them: a transition that is left out
after the blocks is an entry of a state that is declared around others.
-/
theorem nameless_iff {problem : Problem}
    : chart.Nameless problem
      ↔ (∃ state ∈ chart.states.compounds,
            ∃ transition ∈ chart.automaticFrom state.1, transition.Nameless problem)
        ∨ ∃ transition ∈ chart.transitions.filter (fun transition => !chart.goesInside transition),
            transition.Nameless problem := by
  constructor
  · intro ⟨transition, declared, nameless⟩
    by_cases inside : chart.goesInside transition = true
    · obtain ⟨automatic, source⟩ := Chart.goesInside_iff.mp inside
      obtain ⟨state, member, here⟩ := List.mem_map.mp source
      have entering : transition ∈ chart.automaticFrom state.1 := by
        simp [Chart.automaticFrom, Chart.transitionsFrom, declared, here, automatic]
      exact Or.inl ⟨state, List.mem_of_mem_filter member, transition, entering, nameless⟩
    · have outside : (!chart.goesInside transition) = true := by simpa using inside
      exact Or.inr ⟨transition, List.mem_filter.mpr ⟨declared, outside⟩, nameless⟩
  · intro met
    rcases met with ⟨_, _, transition, entering, nameless⟩ | ⟨transition, outside, nameless⟩
    · exact ⟨transition, List.mem_of_mem_filter (List.mem_of_mem_filter entering), nameless⟩
    · exact ⟨transition, List.mem_of_mem_filter outside, nameless⟩

/-- A chart whose tree has an outline is drawn unless a function has no name. -/
theorem ofChart_refuses {outline : Outline} (built : Outline.ofForest chart.states = .ok outline)
    : Refuses
        (fun problems => ∃ problem, chart.Nameless problem ∧ Problems.mk problem [] = problems)
        (ofChart chart) := by
  have drawn :=
    (Blocks.ofForest_refuses chart chart.states).bind fun blocks =>
      (outerLines_refuses built).bind_ok fun lines => ⟨Diagram.mk blocks lines, rfl⟩
  rw [ofChart, built]
  exact (drawn.congr fun _ => nameless_iff.symm).mapError _

end Diagram

-----------------------------------------------------------------------------------------
-- Accepted charts
-----------------------------------------------------------------------------------------

/-- A chart that is shown as a document and drawn as a diagram. -/
structure Chart.Exportable (chart : Chart) : Prop where
  document : ∃ document, ChartDocument.ofChart chart = .ok document
  diagram : ∃ diagram, Diagram.ofChart chart = .ok diagram

theorem ChartDocument.exists_ofChart_iff {chart : Chart}
    : (∃ document, ofChart chart = .ok document) ↔ chart.Named := by
  rw [(ofChart_refuses chart).exists_ok_iff, Chart.named_iff]

theorem Diagram.exists_ofChart_iff {chart : Chart}
    : (∃ diagram, ofChart chart = .ok diagram)
      ↔ chart.Named ∧ ∃ outline, Outline.ofForest chart.states = .ok outline := by
  cases built : Outline.ofForest chart.states with
  | error problems => simp [ofChart, built]
  | ok outline => simp [(ofChart_refuses built).exists_ok_iff, Chart.named_iff]

theorem Diagram.nameless_of_ofChart {chart : Chart} {problems : Problems}
    (failed : ofChart chart = .error problems)
    : Outline.ofForest chart.states = .error problems
      ∨ ∃ problem, chart.Nameless problem ∧ Problems.mk problem [] = problems := by
  cases built : Outline.ofForest chart.states with
  | error others =>
      simp only [ofChart, built] at failed
      rw [Except.error.inj failed]
      exact Or.inl rfl
  | ok outline => exact Or.inr ((ofChart_refuses built).fault_of_error failed)

namespace Chart

variable {chart : Chart}

theorem WellFormed.named (wf : chart.WellFormed) : chart.Named :=
  fun _ declared _ offered =>
    { predicate := wf.predicates _ declared _ offered
      action := wf.actions _ declared _ offered }

theorem exportable_of_validate {outline : Outline} (accepted : chart.validate = .ok outline)
    : chart.Exportable := by
  obtain ⟨built, wf⟩ := validate_eq_ok_iff.mp accepted
  exact
    { document := ChartDocument.exists_ofChart_iff.mpr wf.named
      diagram := Diagram.exists_ofChart_iff.mpr ⟨wf.named, outline, built⟩ }

end Chart

theorem ChartDraft.exportable {draft : ChartDraft} {chart : Chart}
    (finished : draft.finish = .ok chart)
    : chart.Exportable := by
  unfold finish at finished
  split at finished
  · cases finished
  · dsimp only at finished
    split at finished
    · rename_i accepted
      cases finished
      exact Chart.exportable_of_validate accepted
    · cases finished

theorem Machine.exportable {chart : Chart} {initialModel settings : Json} {capacity : Option Nat}
    {machine : Machine} (built : ofChart chart initialModel settings capacity = .ok machine)
    : chart.Exportable := by
  unfold ofChart at built
  split at built
  · rename_i accepted
    exact Chart.exportable_of_validate accepted
  · cases built

theorem MachineDraft.exportable {draft : MachineDraft} {chart : Chart} {machine : Machine}
    (given : draft.chart = some chart) (finished : draft.finish = .ok machine)
    : chart.Exportable := by
  rw [finish, given] at finished
  dsimp only at finished
  split at finished
  · rename_i built
    exact Machine.exportable built
  · cases finished

/-- A chart is shown as a document just if its functions all have names that show, and drawn just if
its tree has an outline as well. What it fails with is the problem with the outline, or with one of
the functions that have none. A chart that is accepted is shown and drawn, whether it is checked by
itself, finished from a draft or made into a machine.
-/
theorem exportable_as_validated (chart : Chart)
    : ((∃ document, ChartDocument.ofChart chart = .ok document) ↔ chart.Named)
      ∧ ((∃ diagram, Diagram.ofChart chart = .ok diagram)
        ↔ chart.Named ∧ ∃ outline, Outline.ofForest chart.states = .ok outline)
      ∧ (∀ problem, ChartDocument.ofChart chart = .error problem → chart.Nameless problem)
      ∧ (∀ problems,
          Diagram.ofChart chart = .error problems
          → Outline.ofForest chart.states = .error problems
            ∨ ∃ problem, chart.Nameless problem ∧ Problems.mk problem [] = problems)
      ∧ (∀ outline, chart.validate = .ok outline → chart.Exportable)
      ∧ (∀ draft : ChartDraft, draft.finish = .ok chart → chart.Exportable)
      ∧ (∀ initialModel settings capacity machine,
          Machine.ofChart chart initialModel settings capacity = .ok machine
          → chart.Exportable)
      ∧ ∀ (draft : MachineDraft) machine,
          draft.chart = some chart → draft.finish = .ok machine → chart.Exportable := by
  refine ⟨ChartDocument.exists_ofChart_iff, Diagram.exists_ofChart_iff, ?_, ?_, ?_, ?_, ?_, ?_⟩
  · intro problem failed
    exact (ChartDocument.ofChart_refuses chart).fault_of_error failed
  · intro problems failed
    exact Diagram.nameless_of_ofChart failed
  · intro outline accepted
    exact Chart.exportable_of_validate accepted
  · intro draft finished
    exact ChartDraft.exportable finished
  · intro initialModel settings capacity machine built
    exact Machine.exportable built
  · intro draft machine given finished
    exact MachineDraft.exportable given finished

/-- A greenhouse that is entered where it is misty while it is hot. -/
def greenhouse (guard : String) : Chart where
  states := .compound "greenhouse" (.leaf "misty" (.leaf "dry" .nil)) .nil
  transitions :=
    [⟨rootName, none, .always (some "greenhouse") none⟩,
      ⟨"greenhouse", none,
        .guarded
          [⟨⟨guard, fun _ _ settings => settings.same (.string "hot")⟩, some "misty", none⟩,
            ⟨⟨"otherwise", fun _ _ _ => true⟩, some "dry", none⟩]⟩]

/-- It is accepted and exported if its guard has a name. Without one it is neither shown nor drawn,
though the guard is met inside the block of the greenhouse only.
-/
theorem greenhouse_exportable
    : (∃ outline, (greenhouse "isHot").validate = .ok outline)
      ∧ (∃ draft : ChartDraft, draft.finish = .ok (greenhouse "isHot"))
      ∧ (∃ machine, Machine.ofChart (greenhouse "isHot") .null .null none = .ok machine)
      ∧ (∃ draft : MachineDraft, ∃ machine,
          draft.chart = some (greenhouse "isHot") ∧ draft.finish = .ok machine)
      ∧ (greenhouse "isHot").Exportable
      ∧ (∃ problem,
          ChartDocument.ofChart (greenhouse " ") = .error problem
          ∧ (greenhouse " ").Nameless problem)
      ∧ ∃ problem,
          Diagram.ofChart (greenhouse " ") = .error ⟨problem, []⟩
          ∧ (greenhouse " ").Nameless problem := by
  have accepted : ∃ outline, (greenhouse "isHot").validate = .ok outline := ⟨_, rfl⟩
  have finished : ∃ draft : ChartDraft, draft.finish = .ok (greenhouse "isHot") :=
    ⟨⟨(greenhouse "isHot").states, (greenhouse "isHot").transitions⟩, rfl⟩
  have built : ∃ machine, Machine.ofChart (greenhouse "isHot") .null .null none = .ok machine :=
    ⟨_, rfl⟩
  have described : ∃ draft : MachineDraft, ∃ machine,
      draft.chart = some (greenhouse "isHot") ∧ draft.finish = .ok machine :=
    ⟨{ chart := some (greenhouse "isHot") }, _, rfl, rfl⟩
  have undrawn : Diagram.ofChart (greenhouse " ")
      = .error ⟨.anonymousFunction "greenhouse" .predicate, []⟩ := rfl
  obtain ⟨_, _, shownFault, drawnFault, _⟩ := exportable_as_validated (greenhouse " ")
  obtain ⟨_, _, _, _, exported, _⟩ := exportable_as_validated (greenhouse "isHot")
  refine ⟨accepted, finished, built, described, ?_, ⟨_, rfl, shownFault _ rfl⟩, _, undrawn, ?_⟩
  · obtain ⟨outline, accepted⟩ := accepted
    exact exported outline accepted
  · rcases drawnFault _ undrawn with unbuilt | ⟨problem, nameless, same⟩
    · cases unbuilt
    · cases same
      exact nameless

end Statechart
