import Statechart.Proofs.Chart.Soundness
import Statechart.Proofs.State.Nesting

/-! Well-formed charts, told by their trees and their transitions alone, and what is wrong with the
others, place by place. A chart whose tree is accepted is well formed exactly if nothing is wrong
with it.
-/

namespace Statechart

namespace Chart

-----------------------------------------------------------------------------------------
-- What the tree of a chart shows
-----------------------------------------------------------------------------------------

/-- The name of the root or of a declared state. -/
def Known (chart : Chart) (name : String) : Prop :=
  name = rootName ∨ name ∈ chart.states.names

/-- A state strictly inside another; every declared state lies inside the root. -/
def Inside (chart : Chart) (outer inner : String) : Prop :=
  outer = rootName ∧ inner ∈ chart.states.names ∨ chart.states.Nests outer inner

/-- A state with others inside it. -/
def Compound (chart : Chart) (state : String) : Prop :=
  ∃ inner, chart.Inside state inner

/-- Where a target leads: a known state to itself, a history target to the compound state that it
goes back to.
-/
inductive Leads (chart : Chart) : String → String → Prop
  | state {name} (known : chart.Known name) : Leads chart name name
  | history {owner} (compound : chart.Compound owner) : Leads chart (historyOf owner) owner

/-- An automatic transition of a compound state. -/
structure Enters (chart : Chart) (transition : Transition) : Prop where
  automatic : transition.isAutomatic = true
  compound : chart.Compound transition.source

/-- A chart of at least one state, whose transitions name what there is and whose compound states
are entered at states inside them.
-/
structure WellFormed (chart : Chart) : Prop where
  populated : chart.states.names ≠ []
  sources : ∀ transition ∈ chart.transitions, chart.Known transition.source
  predicates
    : ∀ transition ∈ chart.transitions, ∀ alternative ∈ transition.alternatives,
      ∀ predicate, alternative.predicate = some predicate → isBlankText predicate.name = false
  actions
    : ∀ transition ∈ chart.transitions, ∀ alternative ∈ transition.alternatives,
      ∀ action, alternative.action = some action → isBlankText action.name = false
  targets
    : ∀ transition ∈ chart.transitions, ∀ alternative ∈ transition.alternatives,
      ∀ target, alternative.target = some target → ∃ state, chart.Leads target state
  entries
    : ∀ transition ∈ chart.transitions,
        chart.Enters transition
        → ∀ alternative ∈ transition.alternatives,
          ∃ target,
            alternative.target = some target
            ∧ ∀ state, chart.Leads target state → chart.Inside transition.source state
  entered
    : ∀ state,
        chart.Compound state
        → ∃ transition ∈ chart.transitions,
            transition.source = state ∧ transition.isAutomatic = true

-----------------------------------------------------------------------------------------
-- Violations and their places
-----------------------------------------------------------------------------------------

/-- What an alternative of a transition can be wrong in, in the order of checking. -/
inductive Aspect where
  | predicate
  | action
  | target
deriving DecidableEq

/-- A place where a chart can be wrong: in having no states, at the source of a transition, in an
aspect of one of its alternatives, or at a state that lacks an entry. Transitions and alternatives
are told by their positions, states by theirs among the root and all states depth first.
-/
inductive Place where
  | states
  | source (position : Nat)
  | alternative (position choice : Nat) (aspect : Aspect)
  | entry (position : Nat)
deriving DecidableEq

def Aspect.rank : Aspect → Nat
  | .predicate => 0
  | .action => 1
  | .target => 2

/-- Numbers that are compared one after the other to tell which place comes first. -/
def Place.rank : Place → List Nat
  | .states => [0]
  | .source position => [1, position, 0]
  | .alternative position choice aspect => [1, position, 1, choice, aspect.rank]
  | .entry position => [2, position]

/-- What is wrong with an alternative of a transition. -/
inductive Flaw (chart : Chart) (transition : Transition) (alternative : Alternative)
    : Aspect → Problem → Prop
  | predicate {predicate} (uses : alternative.predicate = some predicate)
    (blank : isBlankText predicate.name = true)
    : Flaw chart transition alternative .predicate
        (.anonymousFunction transition.source .predicate)
  | action {action} (uses : alternative.action = some action)
    (blank : isBlankText action.name = true)
    : Flaw chart transition alternative .action (.anonymousFunction transition.source .action)
  | unknown {target} (aims : alternative.target = some target)
    (plain : ∀ owner, target ≠ historyOf owner) (unknown : ¬ chart.Known target)
    : Flaw chart transition alternative .target (.unknownState target)
  | simple {owner} (aims : alternative.target = some (historyOf owner))
    (simple : ¬ chart.Compound owner)
    : Flaw chart transition alternative .target (.invalidHistoryTarget (historyOf owner))
  | untargeted (enters : chart.Enters transition) (aims : alternative.target = none)
    : Flaw chart transition alternative .target (.entryWithoutTarget transition.source)
  | outside {target state} (enters : chart.Enters transition)
    (aims : alternative.target = some target) (leads : chart.Leads target state)
    (outside : ¬ chart.Inside transition.source state)
    : Flaw chart transition alternative .target (.entryOutside transition.source target)

/-- What is wrong with a chart at a place. -/
inductive Violates (chart : Chart) : Place → Problem → Prop
  | states (none : chart.states.names = []) : Violates chart .states .emptyChart
  | source {position transition} (declared : chart.transitions[position]? = some transition)
    (unknown : ¬ chart.Known transition.source)
    : Violates chart (.source position) (.unknownState transition.source)
  | alternative {position transition choice alternative aspect problem}
    (declared : chart.transitions[position]? = some transition)
    (offered : transition.alternatives[choice]? = some alternative)
    (flaw : chart.Flaw transition alternative aspect problem)
    : Violates chart (.alternative position choice aspect) problem
  | entry {position state} (named : (rootName :: chart.states.names)[position]? = some state)
    (compound : chart.Compound state)
    (unentered
      : ∀ transition ∈ chart.transitions,
          transition.source = state → transition.isAutomatic = false)
    : Violates chart (.entry position) (.missingEntry state)

section Accepted

variable {chart : Chart} {outline : Outline}

-----------------------------------------------------------------------------------------
-- The outline tells what the tree shows
-----------------------------------------------------------------------------------------

theorem has_iff (built : Outline.ofForest chart.states = .ok outline) {name : String}
    : outline.has name = true ↔ chart.Known name :=
  Outline.has_iff_of_ofForest built

theorem contains_iff (built : Outline.ofForest chart.states = .ok outline)
    {outer inner : String}
    : outline.contains outer inner = true ↔ chart.Inside outer inner :=
  Outline.contains_iff_of_ofForest built

theorem isCompound_iff (built : Outline.ofForest chart.states = .ok outline) {state : String}
    : outline.isCompound state = true ↔ chart.Compound state := by
  simp only [(Outline.wellFormed_of_ofForest built).isCompound_iff_exists, contains_iff built,
    Compound]

theorem known_of_compound (built : Outline.ofForest chart.states = .ok outline) {state : String}
    (compound : chart.Compound state)
    : chart.Known state :=
  (has_iff built).mp
    ((Outline.wellFormed_of_ofForest built).has_of_isCompound ((isCompound_iff built).mpr compound))

theorem isEntry_iff (built : Outline.ofForest chart.states = .ok outline)
    {transition : Transition}
    : isEntry outline transition = true ↔ chart.Enters transition := by
  simp only [isEntry, Bool.and_eq_true, has_iff built, isCompound_iff built]
  constructor
  · exact fun ⟨⟨automatic, _⟩, compound⟩ => ⟨automatic, compound⟩
  · exact fun ⟨automatic, compound⟩ =>
      ⟨⟨automatic, known_of_compound built compound⟩, compound⟩

/-- No known state is called like a history target. -/
theorem historyOwner?_of_known (built : Outline.ofForest chart.states = .ok outline)
    {name : String} (known : chart.Known name)
    : historyOwner? name = none := by
  rcases known with rfl | member
  · decide
  · have unreserved := Outline.not_isReservedName_of_ofForest built member
    simp only [isReservedName, isHistoryTarget, Bool.or_eq_false_iff] at unreserved
    simpa using unreserved.1.2

/-- A target that can be found leads to its state and nowhere else. -/
theorem leads_iff (built : Outline.ofForest chart.states = .ok outline) {target state : String}
    : chart.Leads target state ↔ isTarget outline target = true ∧ targetState target = state := by
  constructor
  · intro leads
    cases leads with
    | state known =>
        simp [isTarget, targetState, historyOwner?_of_known built known, has_iff built, known]
    | history compound =>
        simp [isTarget, targetState, historyOwner?_historyOf, has_iff built,
          isCompound_iff built, compound, known_of_compound built compound]
  · rintro ⟨found, rfl⟩
    unfold isTarget at found
    unfold targetState
    cases back : historyOwner? target with
    | none =>
        simp only [back] at found
        exact .state ((has_iff built).mp found)
    | some owner =>
        simp only [back, Bool.and_eq_true] at found
        obtain rfl := eq_historyOf_of_historyOwner? back
        exact .history ((isCompound_iff built).mp found.2)

/-- A target can be found when it leads somewhere. -/
theorem isTarget_iff (built : Outline.ofForest chart.states = .ok outline) {target : String}
    : isTarget outline target = true ↔ ∃ state, chart.Leads target state := by
  simp only [leads_iff built]
  exact ⟨fun found => ⟨_, found, rfl⟩, fun ⟨_, found, _⟩ => found⟩

-----------------------------------------------------------------------------------------
-- A well-formed chart violates nothing
-----------------------------------------------------------------------------------------

/-- No alternative of a well-formed chart has a flaw. -/
theorem WellFormed.not_flaw (wf : chart.WellFormed)
    (built : Outline.ofForest chart.states = .ok outline) {transition : Transition}
    (member : transition ∈ chart.transitions) {alternative : Alternative}
    (choice : alternative ∈ transition.alternatives) {aspect : Aspect} {problem : Problem}
    : ¬ chart.Flaw transition alternative aspect problem := by
  intro flaw
  cases flaw with
  | predicate uses blank => simp [wf.predicates _ member _ choice _ uses] at blank
  | action uses blank => simp [wf.actions _ member _ choice _ uses] at blank
  | unknown aims plain unknown =>
      obtain ⟨state, leads⟩ := wf.targets _ member _ choice _ aims
      cases leads with
      | state known => exact unknown known
      | history compound => exact plain _ rfl
  | simple aims simple =>
      obtain ⟨state, leads⟩ := wf.targets _ member _ choice _ aims
      obtain ⟨found, _⟩ := (leads_iff built).mp leads
      rw [isTarget, historyOwner?_historyOf, Bool.and_eq_true] at found
      exact simple ((isCompound_iff built).mp found.2)
  | untargeted enters aims =>
      obtain ⟨target, aims', _⟩ := wf.entries _ member enters _ choice
      simp [aims] at aims'
  | outside enters aims leads outside =>
      obtain ⟨target, aims', inside⟩ := wf.entries _ member enters _ choice
      obtain rfl := Option.some.inj (aims.symm.trans aims')
      exact outside (inside _ leads)

theorem WellFormed.not_violates (wf : chart.WellFormed)
    (built : Outline.ofForest chart.states = .ok outline) {place : Place} {problem : Problem}
    : ¬ chart.Violates place problem := by
  intro violates
  cases violates with
  | states none => exact wf.populated none
  | source declared unknown => exact unknown (wf.sources _ (List.mem_of_getElem? declared))
  | alternative declared offered flaw =>
      exact wf.not_flaw built (List.mem_of_getElem? declared) (List.mem_of_getElem? offered) flaw
  | entry named compound unentered =>
      obtain ⟨transition, member, source, automatic⟩ := wf.entered _ compound
      simp [unentered transition member source] at automatic

-----------------------------------------------------------------------------------------
-- A chart that violates nothing is well formed
-----------------------------------------------------------------------------------------

theorem not_flaw_of_not_violates (clean : ∀ place problem, ¬ chart.Violates place problem)
    {transition : Transition} (member : transition ∈ chart.transitions)
    {alternative : Alternative} (choice : alternative ∈ transition.alternatives)
    {aspect : Aspect} {problem : Problem}
    : ¬ chart.Flaw transition alternative aspect problem := by
  obtain ⟨position, declared⟩ := List.getElem?_of_mem member
  obtain ⟨number, offered⟩ := List.getElem?_of_mem choice
  exact fun flaw => clean _ _ (.alternative declared offered flaw)

/-- The target of an alternative without flaws leads somewhere: a history target would be flawed
by an owner that is not compound, any other by being unknown.
-/
theorem exists_leads_of_not_flaw {transition : Transition} {alternative : Alternative}
    (flawless : ∀ problem, ¬ chart.Flaw transition alternative .target problem)
    {target : String} (aims : alternative.target = some target)
    : ∃ state, chart.Leads target state := by
  by_contra nowhere
  by_cases back : ∃ owner, target = historyOf owner
  · obtain ⟨owner, rfl⟩ := back
    exact flawless _ (.simple aims fun compound => nowhere ⟨owner, .history compound⟩)
  · exact flawless _
      (.unknown aims (not_exists.mp back) fun known => nowhere ⟨target, .state known⟩)

/-- Where nothing is wrong, every compound state has a transition to enter it by. -/
theorem exists_entry_of_not_violates (built : Outline.ofForest chart.states = .ok outline)
    (clean : ∀ place problem, ¬ chart.Violates place problem) {state : String}
    (compound : chart.Compound state)
    : ∃ transition ∈ chart.transitions,
        transition.source = state ∧ transition.isAutomatic = true := by
  by_contra unentered
  have named : state ∈ rootName :: chart.states.names := by
    simpa [Known] using known_of_compound built compound
  obtain ⟨position, named⟩ := List.getElem?_of_mem named
  refine clean _ _ (.entry named compound ?_)
  intro transition member source
  by_contra automatic
  exact unentered ⟨transition, member, source, by simpa using automatic⟩

theorem wellFormed_of_not_violates (built : Outline.ofForest chart.states = .ok outline)
    (clean : ∀ place problem, ¬ chart.Violates place problem)
    : chart.WellFormed := by
  refine {
    populated := fun none => clean _ _ (.states none)
    sources := ?_
    predicates := ?_
    actions := ?_
    targets := ?_
    entries := ?_
    entered := fun _ compound => exists_entry_of_not_violates built clean compound
  }
  · intro transition member
    by_contra unknown
    obtain ⟨position, declared⟩ := List.getElem?_of_mem member
    exact clean _ _ (.source declared unknown)
  · intro transition member alternative choice predicate uses
    by_contra blank
    exact not_flaw_of_not_violates clean member choice (.predicate uses (by simpa using blank))
  · intro transition member alternative choice action uses
    by_contra blank
    exact not_flaw_of_not_violates clean member choice (.action uses (by simpa using blank))
  · intro transition member alternative choice target aims
    exact exists_leads_of_not_flaw (fun _ => not_flaw_of_not_violates clean member choice) aims
  · intro transition member enters alternative choice
    have flawless {problem : Problem} : ¬ chart.Flaw transition alternative .target problem :=
      not_flaw_of_not_violates clean member choice
    cases aims : alternative.target with
    | none => exact absurd (.untargeted enters aims) flawless
    | some target =>
        refine ⟨target, rfl, fun state leads => ?_⟩
        by_contra outside
        exact flawless (.outside enters aims leads outside)

/-- A chart whose tree is accepted is well formed exactly when nothing is wrong at any place. -/
theorem wellFormed_iff (built : Outline.ofForest chart.states = .ok outline)
    : chart.WellFormed ↔ ∀ place problem, ¬ chart.Violates place problem :=
  ⟨fun wf _ _ => wf.not_violates built, wellFormed_of_not_violates built⟩

end Accepted

end Chart

end Statechart
