import Statechart.Machine.Session
import Statechart.Proofs.Chart.Soundness
import Statechart.Proofs.Fallible
import Statechart.Proofs.Memory.Recording

/-! The alternatives that a machine takes and where their targets lead. A machine has accepted
its chart, so every target it meets can be found, and every compound state is entered at a
state inside it.
-/

namespace Statechart

namespace Machine

/-- The chart of a machine is sound, since the machine has accepted it. -/
theorem sound (machine : Machine) : machine.chart.Sound machine.outline :=
  Chart.sound_of_validate machine.accepted

theorem wellFormed (machine : Machine) : machine.outline.WellFormed :=
  machine.sound.wellFormed

/-- The table of routes leads to the first transition declared on a state for an event: every
transition of an accepted chart is declared on a known state, so none is left out.
-/
theorem route?_eq (machine : Machine) (state event : String)
    : machine.route? state event = machine.chart.route? state event := by
  rw [route?_of_has]
  split
  · rfl
  · rename_i unknown
    refine (List.find?_eq_none.mpr ?_).symm
    intro transition member declared
    simp only [Bool.and_eq_true, decide_eq_true_eq] at declared
    exact unknown (declared.1 ▸ machine.sound.sources transition member)

/-- So an event is handled by the first transition for it on the innermost state that has one. -/
theorem handler?_eq (machine : Machine) (leaf event : String)
    : machine.handler? leaf event
      = (machine.outline.ancestors leaf).findSome? (machine.chart.route? · event) := by
  simp only [handler?, route?_eq]

/-- The alternative that the first automatic transition of a state offers to a run, if there
is such a transition and a guard of it holds.
-/
def automatic? (machine : Machine) (payload : Json) (run : Run) (state : String)
    : Option Alternative :=
  (machine.chart.route? state entryEvent).bind (·.select? run.model payload machine.settings)

/-- The alternative with which a machine answers an event at a leaf: that of the first
transition for the event on the innermost state that has one.
-/
def answer? (machine : Machine) (state : State) (leaf event : String) (payload : Json)
    : Option Alternative :=
  (machine.handler? leaf event).bind (·.select? state.model payload machine.settings)

/-- An alternative of a declared transition. -/
def Declares (machine : Machine) (alternative : Alternative) : Prop :=
  ∃ transition ∈ machine.chart.transitions, alternative ∈ transition.alternatives

theorem declares_of_automatic? {machine : Machine} {payload : Json} {run : Run}
    {state : String} {alternative : Alternative}
    (chosen : machine.automatic? payload run state = some alternative)
    : machine.Declares alternative := by
  obtain ⟨transition, route, selected⟩ := Option.bind_eq_some_iff.mp chosen
  exact ⟨transition, (Chart.route?_spec route).1, Transition.select?_mem selected⟩

theorem declares_of_answer? {machine : Machine} {state : State} {leaf event : String}
    {payload : Json} {alternative : Alternative}
    (answered : machine.answer? state leaf event payload = some alternative)
    : machine.Declares alternative := by
  obtain ⟨transition, handler, selected⟩ := Option.bind_eq_some_iff.mp answered
  obtain ⟨outer, _, route⟩ := List.exists_of_findSome?_eq_some handler
  exact ⟨transition, (route?_spec route).1, Transition.select?_mem selected⟩

/-- Every target of a declared alternative can be found. -/
theorem Declares.isTarget {machine : Machine} {alternative : Alternative} {target : String}
    (declared : machine.Declares alternative) (aims : alternative.target = some target)
    : Chart.isTarget machine.outline target = true := by
  obtain ⟨transition, member, choice⟩ := declared
  exact machine.sound.targets transition member alternative choice target aims

/-- A compound state is entered at a state inside it, whichever alternative is taken. -/
theorem entry_inside {machine : Machine} {payload : Json} {run : Run} {state : String}
    {alternative : Alternative} (compound : machine.outline.isCompound state = true)
    (chosen : machine.automatic? payload run state = some alternative)
    : ∃ target,
        alternative.target = some target
        ∧ machine.outline.contains state (Chart.targetState target) = true := by
  obtain ⟨transition, route, selected⟩ := Option.bind_eq_some_iff.mp chosen
  obtain ⟨member, rfl, trigger⟩ := Chart.route?_spec route
  refine machine.sound.entries transition member ?_ alternative (Transition.select?_mem selected)
  simp [Chart.isEntry, Transition.isAutomatic, trigger, compound,
    machine.wellFormed.has_of_isCompound compound]

theorem resolve_eq {machine : Machine} {target : String}
    (found : Chart.isTarget machine.outline target = true)
    : machine.resolve target = .ok (Chart.targetState target) := by
  simp [resolve, Chart.has_targetState found]

/-- An action succeeds if its edits do: they make the model, and its output is added. -/
theorem act_some_eq_ok_iff {machine : Machine} {payload : Json} {run next : Run}
    {action : Action}
    : machine.act payload run (some action) = .ok next
      ↔ ∃ model,
          Patch.apply (action.run run.model payload machine.settings).update run.model
            = .ok model
          ∧ next
            = {
                run with
                model,
                outputs :=
                  run.outputs ++ [(action.run run.model payload machine.settings).output]
              } := by
  simp only [act, Patch.apply, bind, Except.bind]
  cases Patch.check (action.run run.model payload machine.settings).update with
  | error error => simp
  | ok changes => cases ran : Patch.run changes run.model <;> simp [ran, eq_comm]

/-- An action changes the model and the outputs of a run and nothing else. -/
theorem act_keeps {machine : Machine} {payload : Json} {run next : Run}
    {action : Option Action} (acted : machine.act payload run action = .ok next)
    : next.history = run.history ∧ next.log = run.log := by
  cases action with
  | none =>
      cases acted
      exact ⟨rfl, rfl⟩
  | some action =>
      obtain ⟨model, _, rfl⟩ := act_some_eq_ok_iff.mp acted
      exact ⟨rfl, rfl⟩

/-- Where a target leads a run: back to the leaf remembered for it, or to its state. -/
def landing (run : Run) (target : String) : String :=
  (remembered? run target (Chart.targetState target)).getD (Chart.targetState target)

/-- Telling a leaf of the chart, for whichever state. -/
def TellsLeaf (machine : Machine) (_ leaf : String) : Prop :=
  machine.isLeafState leaf = true

/-- Telling a state inside the one that it is told for. -/
def TellsInside (machine : Machine) (state leaf : String) : Prop :=
  machine.outline.contains state leaf = true

/-- Every leaf that a history remembers is one of the chart. -/
def Recalls (machine : Machine) (history : History) : Prop :=
  history.All machine.TellsLeaf

/-- A target leads to its state, unless it goes back to a leaf that is remembered for it. -/
theorem landing_cases (run : Run) (target : String)
    : landing run target = Chart.targetState target
      ∨ isHistoryTarget target = true
        ∧ run.history.get? (Chart.targetState target) = some (landing run target) := by
  unfold landing remembered?
  split
  · rename_i back
    cases found : run.history.get? (Chart.targetState target) with
    | none => exact Or.inl rfl
    | some leaf => exact Or.inr ⟨back, rfl⟩
  · exact Or.inl rfl

/-- Where a target leads is known: it is a state that can be found, or a remembered leaf. -/
theorem has_landing {machine : Machine} {run : Run} {target : String}
    (found : Chart.isTarget machine.outline target = true)
    (recalls : machine.Recalls run.history)
    : machine.outline.has (landing run target) = true := by
  rcases landing_cases run target with fresh | ⟨_, remembered⟩
  · exact fresh ▸ Chart.has_targetState found
  · have back := recalls _ _ remembered
    simp only [TellsLeaf, isLeafState, Bool.and_eq_true] at back
    exact back.1

/-- A target leads to its state or inside it, if histories tell states inside. -/
theorem landing_within {machine : Machine} {run : Run} {target : String}
    (told : run.history.All machine.TellsInside)
    : landing run target = Chart.targetState target
      ∨ machine.outline.contains (Chart.targetState target) (landing run target) = true := by
  rcases landing_cases run target with fresh | ⟨_, remembered⟩
  · exact Or.inl fresh
  · exact Or.inr (told _ _ remembered)

theorem descend_leaf {machine : Machine} {payload : Json} {run : Run} {leaf : String}
    (h : machine.isLeafState leaf = true)
    : machine.descend payload run leaf = .ok (run, leaf) := by
  simp only [isLeafState, Bool.and_eq_true] at h
  rw [descend, if_pos h.2]

/-- Whatever a target goes back to is a leaf. -/
theorem isLeafState_of_remembered? {machine : Machine} {run : Run} {target state leaf : String}
    (recalls : machine.Recalls run.history) (found : remembered? run target state = some leaf)
    : machine.isLeafState leaf = true := by
  unfold remembered? at found
  split at found
  · exact recalls _ leaf found
  · cases found

/-- Going back to a leaf does not fail. -/
theorem returnTo_leaf {machine : Machine} {leaf : String} (h : machine.isLeafState leaf = true)
    : machine.returnTo leaf = .ok leaf := by
  unfold isLeafState at h
  rw [returnTo, if_pos h]

/-- Going back to a remembered leaf and entering a state afresh are one: a descent from
where the target leads, which is over at once at a leaf.
-/
theorem arrive_eq {machine : Machine} {payload : Json} {run : Run} {target : String}
    (recalls : machine.Recalls run.history)
    : machine.arrive payload run target (Chart.targetState target)
      = machine.descend payload run (landing run target) := by
  unfold arrive landing
  cases found : remembered? run target (Chart.targetState target) with
  | none => rfl
  | some leaf =>
      have isLeaf := isLeafState_of_remembered? recalls found
      rw [Option.getD_some, descend_leaf isLeaf]
      simp only [returnTo_leaf isLeaf, Except.map]

end Machine

end Statechart
