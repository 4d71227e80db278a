import Statechart.Chart.Basic
import Statechart.Proofs.State.Containment

/-! What accepting a chart promises about running it. The check goes through the declared
transitions; the promises speak of the transition found for a state and an event, and of the
alternative of it that is selected.
-/

namespace Statechart

namespace Problem

/-- No problem is told exactly when the condition holds. -/
@[simp]
theorem unlessHolds_eq_nil_iff {holds : Bool} {problem : Problem}
    : unlessHolds holds problem = [] ↔ holds = true := by
  cases holds <;> simp [unlessHolds]

end Problem

namespace Transition

/-- What is selected is one of the alternatives. -/
theorem select?_mem {transition : Transition} {model payload settings : Json}
    {alternative : Alternative}
    (h : transition.select? model payload settings = some alternative)
    : alternative ∈ transition.alternatives :=
  List.mem_of_find?_eq_some h

/-- Nothing is selected exactly from guards that all fail: an alternative without a predicate
may always be taken.
-/
theorem select?_eq_none_iff {transition : Transition} {model payload settings : Json}
    : transition.select? model payload settings = none
      ↔ ∃ clauses,
          transition.reaction = .guarded clauses
          ∧ ∀ clause ∈ clauses, clause.predicate.holds model payload settings = false := by
  unfold select? alternatives
  cases transition.reaction with
  | always target action => simp [Reaction.alternatives, Alternative.holds]
  | guarded clauses =>
      simp [Reaction.alternatives, Clause.alternative, Alternative.holds]

end Transition

namespace Chart

-----------------------------------------------------------------------------------------
-- Sound charts
-----------------------------------------------------------------------------------------

/-- What running a chart relies on: sources and targets that can be found, and for every compound
state a transition that enters it at a state inside.
-/
structure Sound (chart : Chart) (outline : Outline) : Prop where
  wellFormed : outline.WellFormed
  populated : outline.isEmpty = false
  sources : ∀ transition ∈ chart.transitions, outline.has transition.source = true
  targets
    : ∀ transition ∈ chart.transitions,
      ∀ alternative ∈ transition.alternatives,
      ∀ target, alternative.target = some target → isTarget outline target = true
  entries
    : ∀ transition ∈ chart.transitions,
        isEntry outline transition = true
        → ∀ alternative ∈ transition.alternatives,
          ∃ target,
            alternative.target = some target
            ∧ outline.contains transition.source (targetState target) = true
  entered
    : ∀ state,
        outline.isCompound state = true
        → ∃ transition, chart.route? state entryEvent = some transition

/-- Accepting a chart means that its outline was built and no problem was found. -/
theorem validate_eq_ok {chart : Chart} {outline : Outline}
    (h : chart.validate = .ok outline)
    : Outline.ofForest chart.states = .ok outline ∧ chart.problems outline = [] := by
  unfold validate at h
  cases ho : Outline.ofForest chart.states with
  | error problems => simp [ho, bind, Except.bind] at h
  | ok built =>
      simp only [ho, bind, Except.bind] at h
      cases hp : chart.problems built with
      | cons problem others => simp [hp, Problems.check] at h
      | nil =>
          simp only [hp, Problems.check, Except.ok.injEq] at h
          subst h
          exact ⟨rfl, hp⟩

/-- An alternative without a problem leads to a state that can be found; one that enters a
compound state leads inside it. -/
theorem targetProblems_eq_nil {outline : Outline} {transition : Transition}
    {target : Option String} (h : targetProblems outline transition target = [])
    : (∀ name, target = some name → isTarget outline name = true)
      ∧ (isEntry outline transition = true
        → ∃ name,
            target = some name
            ∧ outline.contains transition.source (targetState name) = true) := by
  cases target with
  | none =>
      simp only [targetProblems, Problem.unlessHolds_eq_nil_iff, Bool.not_eq_true'] at h
      simp [h]
  | some name =>
      simp only [targetProblems, List.append_eq_nil_iff, Problem.unlessHolds_eq_nil_iff] at h
      obtain ⟨found, inside⟩ := h
      refine ⟨by simpa using found, fun entry => ⟨name, rfl, ?_⟩⟩
      simpa [found, entry] using inside

/-- An accepted chart is sound: each promise is the absence of one kind of problem. -/
theorem sound_of_validate {chart : Chart} {outline : Outline}
    (h : chart.validate = .ok outline)
    : chart.Sound outline := by
  obtain ⟨built, none⟩ := validate_eq_ok h
  have wf := Outline.wellFormed_of_ofForest built
  simp only [problems, List.append_eq_nil_iff, Problem.unlessHolds_eq_nil_iff,
    Bool.not_eq_true', List.flatMap_eq_nil_iff] at none
  obtain ⟨⟨populated, transitions⟩, compounds⟩ := none
  have clean {transition} (member : transition ∈ chart.transitions)
      : outline.has transition.source = true
        ∧ ∀ alternative ∈ transition.alternatives,
            alternativeProblems outline transition alternative = [] := by
    have clean := transitions transition member
    simpa only [transitionProblems, List.append_eq_nil_iff, List.flatMap_eq_nil_iff,
      Problem.unlessHolds_eq_nil_iff] using clean
  have alternatives {transition} (member : transition ∈ chart.transitions) {alternative}
      (choice : alternative ∈ transition.alternatives)
      : targetProblems outline transition alternative.target = [] := by
    have clean := (clean member).2 alternative choice
    simp only [alternativeProblems, List.append_eq_nil_iff] at clean
    exact clean.2
  refine {
    wellFormed := wf
    populated := populated
    sources := fun transition member => (clean member).1
    targets := ?_
    entries := ?_
    entered := ?_
  }
  · intro transition member alternative choice
    exact (targetProblems_eq_nil (alternatives member choice)).1
  · intro transition member entry alternative choice
    exact (targetProblems_eq_nil (alternatives member choice)).2 entry
  · intro state compound
    have named : state ∈ outline.compounds := by
      have member := wf.entry_of_has (wf.has_of_isCompound compound)
      exact List.mem_filter.mpr ⟨List.mem_map.mpr ⟨_, member, rfl⟩, compound⟩
    have clean := compounds state named
    simp only [entryProblems, Problem.unlessHolds_eq_nil_iff, List.any_eq_true] at clean
    obtain ⟨transition, member, declared⟩ := clean
    refine Option.isSome_iff_exists.mp (List.find?_isSome.mpr ⟨transition, member, ?_⟩)
    simpa [Transition.isAutomatic] using declared

/-- A target that can be found leads to a known state. -/
theorem has_targetState {outline : Outline} {target : String}
    (h : isTarget outline target = true)
    : outline.has (targetState target) = true := by
  unfold isTarget at h
  unfold targetState
  cases ho : historyOwner? target with
  | none => simpa [ho] using h
  | some owner =>
      simp only [ho, Bool.and_eq_true] at h
      simpa using h.1

end Chart

end Statechart
