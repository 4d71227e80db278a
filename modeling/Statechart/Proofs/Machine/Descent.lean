import Statechart.Proofs.Machine.Choice

/-! The way down from a state to a leaf. Each step enters a compound state by its first
automatic transition; a way ends at a leaf, at guards that all fail, or at an action that
fails. Descending gives exactly what the end of the way gives.
-/

namespace Statechart

namespace Machine

/-- One step of the way down: a compound state is entered by an alternative, whose action
runs before its target is looked at.
-/
structure Enters (machine : Machine) (payload : Json) (run : Run) (state : String)
    (alternative : Alternative) (next : Run) (reached : String)
    : Prop where
  compound : machine.outline.isCompound state = true
  chosen : machine.automatic? payload run state = some alternative
  acted : machine.act payload run alternative.action = .ok next
  lands
    : ∃ target,
        alternative.target = some target
        ∧ machine.outline.contains state (Chart.targetState target) = true
        ∧ reached = landing next target

/-- The way down from a state, with the alternatives by which states are entered on it. -/
inductive Way (machine : Machine) (payload : Json)
    : Run → String → List Alternative → Run → String → Prop
  | here {run state} : Way machine payload run state [] run state
  | enter {run state alternative next reached alternatives later last}
    (step : machine.Enters payload run state alternative next reached)
    (rest : Way machine payload next reached alternatives later last)
    : Way machine payload run state (alternative :: alternatives) later last

/-- A compound state whose first automatic transition is guarded, with guards that all fail. -/
structure Unresolved (machine : Machine) (payload : Json) (run : Run) (state : String)
    : Prop where
  compound : machine.outline.isCompound state = true
  guarded
    : ∃ transition clauses,
        machine.chart.route? state entryEvent = some transition
        ∧ transition.reaction = .guarded clauses
        ∧ ∀ clause ∈ clauses,
            clause.predicate.holds run.model payload machine.settings = false

/-- What a descent gives where no further state is entered. -/
inductive DescentEnd (machine : Machine) (payload : Json) (run : Run) (state : String)
    : Except Failure (Run × String) → Prop
  | leaf (isLeaf : machine.isLeafState state = true)
    : DescentEnd machine payload run state (.ok (run, state))
  | unresolved (stuck : machine.Unresolved payload run state)
    : DescentEnd machine payload run state (.error (.chart (.unresolvedEntry state)))
  | failed {alternative failure}
    (chosen : machine.automatic? payload run state = some alternative)
    (acted : machine.act payload run alternative.action = .error failure)
    : DescentEnd machine payload run state (.error failure)

theorem Enters.history_eq {machine : Machine} {payload : Json} {run next : Run}
    {state reached : String} {alternative : Alternative}
    (step : machine.Enters payload run state alternative next reached)
    : next.history = run.history :=
  (act_keeps step.acted).1

theorem Enters.log_eq {machine : Machine} {payload : Json} {run next : Run}
    {state reached : String} {alternative : Alternative}
    (step : machine.Enters payload run state alternative next reached)
    : next.log = run.log :=
  (act_keeps step.acted).2

/-- A step leads to a leaf that was remembered, or to a state inside the one entered. -/
theorem Enters.reached_cases {machine : Machine} {payload : Json} {run next : Run}
    {state reached : String} {alternative : Alternative}
    (step : machine.Enters payload run state alternative next reached)
    (recalls : machine.Recalls run.history)
    : machine.isLeafState reached = true ∨ machine.outline.contains state reached = true := by
  obtain ⟨target, _, inside, rfl⟩ := step.lands
  rcases landing_cases next target with fresh | ⟨_, remembered⟩
  · exact Or.inr (fresh ▸ inside)
  · exact Or.inl (recalls _ _ (step.history_eq ▸ remembered))

/-- At a compound state a descent finds all guards failed, fails in an action, or goes on
from where one step leads. A missing transition, a missing target, an unknown state and one
outside are ruled out by the soundness of the chart.
-/
theorem descend_compound {machine : Machine} {payload : Json} {run : Run} {state : String}
    (compound : machine.outline.isCompound state = true)
    (recalls : machine.Recalls run.history)
    : machine.DescentEnd payload run state (machine.descend payload run state)
      ∨ ∃ alternative next reached,
          machine.Enters payload run state alternative next reached
          ∧ machine.descend payload run state = machine.descend payload next reached := by
  have notLeaf : machine.outline.isLeaf state = false := by
    simpa [Outline.isCompound] using compound
  obtain ⟨transition, route⟩ := machine.sound.entered state compound
  rw [descend, if_neg (by simp [notLeaf])]
  simp only [route?_eq, route]
  cases selected : transition.select? run.model payload machine.settings with
  | none =>
      obtain ⟨clauses, guarded, allFail⟩ := Transition.select?_eq_none_iff.mp selected
      exact Or.inl (.unresolved ⟨compound, transition, clauses, route, guarded, allFail⟩)
  | some alternative =>
      have chosen : machine.automatic? payload run state = some alternative := by
        simp [automatic?, route, selected]
      obtain ⟨target, aims, inside⟩ := entry_inside compound chosen
      have found := (declares_of_automatic? chosen).isTarget aims
      obtain ⟨predicate, _, action⟩ := alternative
      obtain rfl : _ = some target := aims
      simp only [resolve_eq found, dif_pos inside]
      cases acted : machine.act payload run action with
      | error failure => exact Or.inl (.failed chosen acted)
      | ok next =>
          refine Or.inr ⟨_, next, landing next target, ⟨compound, chosen, acted, ?_⟩, ?_⟩
          · exact ⟨target, rfl, inside, rfl⟩
          · exact arrive_eq ((act_keeps acted).1 ▸ recalls)

/-- From every known state there is a way to an end, and a descent gives what that end
gives; by induction on how far the state is above the greatest depth.
-/
theorem exists_way {machine : Machine} {payload : Json} {run : Run} {state : String}
    (known : machine.outline.has state = true) (recalls : machine.Recalls run.history)
    : ∃ alternatives later last,
        machine.Way payload run state alternatives later last
        ∧ machine.DescentEnd payload later last (machine.descend payload run state) := by
  generalize room : machine.outline.height - machine.outline.depth state = height
  induction height using Nat.strongRecOn generalizing run state with
  | ind height ih =>
      by_cases isLeaf : machine.outline.isLeaf state = true
      · have arrived : machine.isLeafState state = true := by simp [isLeafState, known, isLeaf]
        exact ⟨[], run, state, .here, by rw [descend_leaf arrived]; exact .leaf arrived⟩
      · have compound : machine.outline.isCompound state = true := by
          simp [Outline.isCompound, isLeaf]
        rcases descend_compound compound recalls with
          ended | ⟨alternative, next, reached, step, equal⟩
        · exact ⟨[], run, state, .here, ended⟩
        rw [equal]
        rcases step.reached_cases recalls with arrived | inside
        · refine ⟨[alternative], next, reached, .enter step .here, ?_⟩
          rw [descend_leaf arrived]
          exact .leaf arrived
        · have deeper := Outline.depth_lt_of_contains inside
          have bounded := machine.outline.depth_le_height reached
          obtain ⟨alternatives, later, last, way, ended⟩ :=
            ih _ (by omega) (machine.wellFormed.has_of_contains inside)
              (step.history_eq ▸ recalls) rfl
          exact ⟨alternative :: alternatives, later, last, .enter step way, ended⟩

/-- Nothing on a way down touches the history or the log, by induction on the way. -/
theorem Way.keeps {machine : Machine} {payload : Json} {run later : Run}
    {state last : String} {alternatives : List Alternative}
    (way : machine.Way payload run state alternatives later last)
    : later.history = run.history ∧ later.log = run.log := by
  induction way with
  | here => exact ⟨rfl, rfl⟩
  | enter step _ ih => exact ⟨ih.1.trans step.history_eq, ih.2.trans step.log_eq⟩

/-- A way down stays inside the state that it begins with, by induction on the way. -/
theorem Way.within {machine : Machine} {payload : Json} {run later : Run}
    {state last : String} {alternatives : List Alternative}
    (way : machine.Way payload run state alternatives later last)
    (told : run.history.All machine.TellsInside)
    : last = state ∨ machine.outline.contains state last = true := by
  induction way with
  | here => exact Or.inl rfl
  | @enter run state alternative next reached alternatives later last step _ ih =>
      obtain ⟨target, _, inside, rfl⟩ := step.lands
      have told : next.history.All machine.TellsInside := step.history_eq ▸ told
      have landed : machine.outline.contains state (landing next target) = true := by
        rcases landing_within told with same | deeper
        · exact same ▸ inside
        · exact machine.wellFormed.contains_trans inside deeper
      rcases ih told with rfl | deeper
      · exact Or.inr landed
      · exact Or.inr (machine.wellFormed.contains_trans landed deeper)

end Machine

end Statechart
