import Statechart.Proofs.Machine.Choice

/-! Which transition answers an event, told by the order of declaration: the first one declared for
the event on the nearest state that declares any. Of its alternatives the first one that holds is
taken, and if none does nothing else is tried.
-/

namespace Statechart

/-- A transition declared on a state for an event. -/
structure Transition.Answers (transition : Transition) (state event : String) : Prop where
  source : transition.source = state
  trigger : transition.trigger = event

theorem Transition.answers_iff {transition : Transition} {state event : String}
    : (transition.source = state && transition.trigger = event : Bool) = true
      ↔ transition.Answers state event := by
  simp only [Bool.and_eq_true, decide_eq_true_eq]
  exact ⟨fun ⟨source, trigger⟩ => ⟨source, trigger⟩, fun ⟨source, trigger⟩ => ⟨source, trigger⟩⟩

namespace Chart

/-- A state with a transition for an event, whether or not its guards hold. -/
def Declares (chart : Chart) (state event : String) : Prop :=
  ∃ transition ∈ chart.transitions, transition.Answers state event

/-- The first transition declared on a state for an event. -/
structure First (chart : Chart) (state event : String) (transition : Transition) : Prop where
  answers : transition.Answers state event
  first
    : ∃ earlier later,
        chart.transitions = earlier ++ transition :: later
        ∧ ∀ other ∈ earlier, ¬ other.Answers state event

theorem route?_eq_some_iff {chart : Chart} {state event : String} {transition : Transition}
    : chart.route? state event = some transition ↔ chart.First state event transition := by
  simp only [route?, List.find?_eq_some_iff_append, Transition.answers_iff, Bool.not_eq_true',
    ← Bool.not_eq_true]
  exact ⟨fun ⟨answers, first⟩ => ⟨answers, first⟩, fun ⟨answers, first⟩ => ⟨answers, first⟩⟩

theorem route?_eq_none_iff {chart : Chart} {state event : String}
    : chart.route? state event = none ↔ ¬ chart.Declares state event := by
  simp only [route?, List.find?_eq_none, Transition.answers_iff, Declares, not_exists, not_and]

end Chart

/-- The first alternative of a transition that holds: none before it does. -/
structure Transition.Offers (transition : Transition) (model payload settings : Json)
    (alternative : Alternative)
    : Prop where
  holds : alternative.holds model payload settings = true
  first
    : ∃ earlier later,
        transition.alternatives = earlier ++ alternative :: later
        ∧ ∀ other ∈ earlier, other.holds model payload settings = false

theorem Transition.select?_eq_some_iff {transition : Transition} {model payload settings : Json}
    {alternative : Alternative}
    : transition.select? model payload settings = some alternative
      ↔ transition.Offers model payload settings alternative := by
  simp only [select?, List.find?_eq_some_iff_append, Bool.not_eq_true']
  exact ⟨fun ⟨holds, first⟩ => ⟨holds, first⟩, fun ⟨holds, first⟩ => ⟨holds, first⟩⟩

namespace Machine

/-- The nearest of a leaf and the states around it that declares an event, with its first
transition for the event.
-/
structure Handles (machine : Machine) (leaf event state : String) (transition : Transition)
    : Prop where
  nearest
    : ∃ inner outer,
        machine.outline.ancestors leaf = inner ++ state :: outer
        ∧ ∀ other ∈ inner, ¬ machine.chart.Declares other event
  first : machine.chart.First state event transition

theorem handler?_eq_some_iff {machine : Machine} {leaf event : String} {transition : Transition}
    : machine.handler? leaf event = some transition
      ↔ ∃ state, machine.Handles leaf event state transition := by
  simp only [handler?_eq, List.findSome?_eq_some_iff, Chart.route?_eq_some_iff,
    Chart.route?_eq_none_iff]
  constructor
  · rintro ⟨inner, state, outer, around, first, quiet⟩
    exact ⟨state, ⟨inner, outer, around, quiet⟩, first⟩
  · rintro ⟨state, ⟨inner, outer, around, quiet⟩, first⟩
    exact ⟨inner, state, outer, around, first, quiet⟩

theorem handler?_eq_none_iff {machine : Machine} {leaf event : String}
    : machine.handler? leaf event = none
      ↔ ∀ state ∈ machine.outline.ancestors leaf, ¬ machine.chart.Declares state event := by
  simp only [handler?_eq, List.findSome?_eq_none_iff, Chart.route?_eq_none_iff]

/-- An event gets no answer at a leaf when no state from there to the root declares it, or when no
alternative holds of the one transition that is considered.
-/
theorem answer?_eq_none_iff {machine : Machine} {state : State} {leaf event : String}
    {payload : Json}
    : machine.answer? state leaf event payload = none
      ↔ (∀ outer ∈ machine.outline.ancestors leaf, ¬ machine.chart.Declares outer event)
        ∨ ∃ outer transition,
            machine.Handles leaf event outer transition
            ∧ ∀ alternative ∈ transition.alternatives,
                alternative.holds state.model payload machine.settings = false := by
  rw [← handler?_eq_none_iff, answer?]
  cases handler : machine.handler? leaf event with
  | none => simp
  | some transition =>
      have considered {other : Transition} {outer : String}
          (handles : machine.Handles leaf event outer other)
          : other = transition :=
        Option.some.inj ((handler?_eq_some_iff.mpr ⟨outer, handles⟩).symm.trans handler)
      simp only [Option.bind_some, Transition.select?, List.find?_eq_none, Bool.not_eq_true,
        reduceCtorEq, false_or]
      constructor
      · intro fails
        obtain ⟨outer, handles⟩ := handler?_eq_some_iff.mp handler
        exact ⟨outer, transition, handles, fails⟩
      · rintro ⟨outer, other, handles, fails⟩
        exact considered handles ▸ fails

/-- An event is answered by the first alternative that holds of the one transition that is
considered.
-/
theorem answer?_eq_some_iff {machine : Machine} {state : State} {leaf event : String}
    {payload : Json} {alternative : Alternative}
    : machine.answer? state leaf event payload = some alternative
      ↔ ∃ outer transition,
          machine.Handles leaf event outer transition
          ∧ transition.Offers state.model payload machine.settings alternative := by
  simp only [answer?, Option.bind_eq_some_iff, handler?_eq_some_iff,
    Transition.select?_eq_some_iff]
  constructor
  · rintro ⟨transition, ⟨outer, handles⟩, offers⟩
    exact ⟨outer, transition, handles, offers⟩
  · rintro ⟨outer, transition, handles, offers⟩
    exact ⟨transition, ⟨outer, handles⟩, offers⟩

end Machine

end Statechart
