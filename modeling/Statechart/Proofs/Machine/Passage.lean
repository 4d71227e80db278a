import Statechart.Proofs.Machine.Failure

/-! The stages of a call: the ways down that it goes and the leaf from which it settles. What
holds of a leaf with the states around it is still told by the history at every stage.
-/

namespace Statechart

namespace Machine

-----------------------------------------------------------------------------------------
-- What the history tells at every point of a call
-----------------------------------------------------------------------------------------

/-- Leaving a leaf keeps what is memorable up to the point where a target is entered. -/
theorem Departs.told {machine : Machine} {payload : Json} {run next : Run}
    {leaf target : String} {alternative : Alternative} {holds : String → String → Prop}
    (departs : machine.Departs payload run leaf alternative target next)
    (memorable : machine.Memorable holds) (before : run.history.All holds)
    (isLeaf : machine.isLeafState leaf = true)
    : next.history.All holds := by
  have exits : ∀ outer,
      outer ≠ rootName → machine.outline.contains outer leaf = true → holds outer leaf :=
    fun outer inner around => memorable.exits outer leaf inner isLeaf around
  rw [departs.history_eq]
  exact all_recordExits before exits _

theorem LeadsTo.told {machine : Machine} {payload : Json} {run later : Run}
    {leaf name : String} {alternative : Alternative} {holds : String → String → Prop}
    (leads : machine.LeadsTo payload run leaf alternative later name)
    (memorable : machine.Memorable holds) (before : run.history.All holds)
    (isLeaf : machine.isLeafState leaf = true)
    : later.history.All holds := by
  cases leads with
  | down departs way =>
      have told := departs.told memorable before isLeaf
      exact way.keeps.1 ▸ told

theorem SettlesInto.told {machine : Machine} {occasion : Occasion} {run later : Run}
    {leaf name : String} {holds : String → String → Prop}
    (settles : machine.SettlesInto occasion run leaf later name)
    (memorable : machine.Memorable holds) (before : run.history.All holds)
    (isLeaf : machine.isLeafState leaf = true)
    : later.history.All holds := by
  cases settles with
  | after chain chosen leads =>
      obtain ⟨told, arrived⟩ := chain.keeps memorable before isLeaf
      exact leads.told memorable told arrived

/-- Wherever a call to a poised machine comes to, the history tells only what holds; by the
stage of the call.
-/
theorem Entered.told {machine : Machine} {state : State} {call : Call} {run : Run}
    {name : String} {holds : String → String → Prop}
    (entered : machine.Entered state call run name)
    (memorable : machine.Memorable holds) (poised : machine.Poised holds state)
    : run.history.All holds := by
  cases entered with
  | first way =>
      rw [way.keeps.1]
      exact History.all_empty holds
  | started way arrived settles =>
      refine settles.told memorable ?_ arrived
      rw [way.keeps.1]
      exact History.all_empty holds
  | answered active answer leads =>
      exact leads.told memorable poised.history (poised.active _ active)
  | dispatched active answer taken settles =>
      have declared := declares_of_answer? answer
      have isLeaf := poised.active _ active
      obtain ⟨told, arrived⟩ := take_keeps memorable declared poised.history isLeaf taken
      exact settles.told memorable told arrived

-----------------------------------------------------------------------------------------
-- Where a call settles
-----------------------------------------------------------------------------------------

/-- The leaf from which a call settles, with the occasion of the call and its run there: the
leaf at the end of the first way down, or the leaf reached by the alternative that answers.
-/
inductive SettlesFrom (machine : Machine) (state : State)
    : Call → Occasion → Run → String → Prop
  | started {time alternatives run leaf}
    (way : machine.Way .null machine.firstRun rootName alternatives run leaf)
    (arrived : machine.isLeafState leaf = true)
    : SettlesFrom machine state (.start time) ⟨.null, time⟩ run leaf
  | dispatched {leaf event payload time alternative run reached}
    (sent : event ≠ entryEvent)
    (active : state.active = some leaf)
    (answer : machine.answer? state leaf event payload = some alternative)
    (taken
      : machine.take ⟨payload, time⟩ state.run leaf event alternative = .ok (run, reached))
    : SettlesFrom machine state (.dispatch event payload time) ⟨payload, time⟩ run reached

theorem SettlesFrom.told {machine : Machine} {state : State} {call : Call}
    {occasion : Occasion} {run : Run} {leaf : String} {holds : String → String → Prop}
    (settling : machine.SettlesFrom state call occasion run leaf)
    (memorable : machine.Memorable holds) (poised : machine.Poised holds state)
    : run.history.All holds ∧ machine.isLeafState leaf = true := by
  cases settling with
  | started way arrived =>
      refine ⟨?_, arrived⟩
      rw [way.keeps.1]
      exact History.all_empty holds
  | dispatched sent active answer taken =>
      have declared := declares_of_answer? answer
      exact take_keeps memorable declared poised.history (poised.active _ active) taken

/-- The alternatives that a call takes, each with the leaf from which it is taken and the run at
that point: the one that answers the event, and automatic ones in settling.
-/
inductive Takes (machine : Machine) (state : State)
    : Call → Occasion → Run → String → String → Alternative → Prop
  | answered {leaf event payload time alternative}
    (sent : event ≠ entryEvent)
    (active : state.active = some leaf)
    (answer : machine.answer? state leaf event payload = some alternative)
    : Takes machine state (.dispatch event payload time) ⟨payload, time⟩ state.run leaf event
        alternative
  | automatic {call occasion run leaf departures later last alternative}
    (settling : machine.SettlesFrom state call occasion run leaf)
    (chain : machine.Chain occasion run leaf departures later last)
    (chosen : machine.automatic? occasion.payload later last = some alternative)
    : Takes machine state call occasion later last entryEvent alternative

theorem Takes.told {machine : Machine} {state : State} {call : Call} {occasion : Occasion}
    {run : Run} {leaf event : String} {alternative : Alternative}
    {holds : String → String → Prop}
    (takes : machine.Takes state call occasion run leaf event alternative)
    (memorable : machine.Memorable holds) (poised : machine.Poised holds state)
    : run.history.All holds ∧ machine.isLeafState leaf = true := by
  cases takes with
  | answered sent active answer => exact ⟨poised.history, poised.active _ active⟩
  | automatic settling chain chosen =>
      obtain ⟨told, arrived⟩ := settling.told memorable poised
      exact chain.keeps memorable told arrived

theorem Takes.declared {machine : Machine} {state : State} {call : Call} {occasion : Occasion}
    {run : Run} {leaf event : String} {alternative : Alternative}
    (takes : machine.Takes state call occasion run leaf event alternative)
    : machine.Declares alternative := by
  cases takes with
  | answered sent active answer => exact declares_of_answer? answer
  | automatic settling chain chosen => exact declares_of_automatic? chosen

/-- At a state from which a step leads on, a descent does what is left after the step. -/
theorem Enters.descend_eq {machine : Machine} {payload : Json} {run next : Run}
    {state reached : String} {alternative : Alternative}
    (step : machine.Enters payload run state alternative next reached)
    (recalls : machine.Recalls run.history)
    : machine.descend payload run state = machine.descend payload next reached := by
  rcases descend_compound step.compound recalls with ended | ⟨other, later, last, step', equal⟩
  · generalize machine.descend payload run state = result at ended
    cases ended with
    | leaf isLeaf => simp [step.not_leaf] at isLeaf
    | unresolved stuck =>
        obtain ⟨transition, clauses, route, guarded, allFail⟩ := stuck.guarded
        have unselected : transition.select? run.model payload machine.settings = none :=
          Transition.select?_eq_none_iff.mpr ⟨clauses, guarded, allFail⟩
        have chosen := step.chosen
        simp [automatic?, route, unselected] at chosen
    | failed chosen' acted' =>
        obtain rfl := Option.some.inj (step.chosen.symm.trans chosen')
        rw [step.acted] at acted'
        cases acted'
  · obtain ⟨rfl, rfl⟩ := step.unique step'
    exact equal

/-- A descent gives the leaf at the end of a way, by induction on the way. -/
theorem Way.descend_eq {machine : Machine} {payload : Json} {run later : Run}
    {state last : String} {alternatives : List Alternative}
    (way : machine.Way payload run state alternatives later last)
    (recalls : machine.Recalls run.history) (arrived : machine.isLeafState last = true)
    : machine.descend payload run state = .ok (later, last) := by
  induction way with
  | here => exact descend_leaf arrived
  | enter step _ ih =>
      rw [step.descend_eq recalls]
      exact ih (step.history_eq ▸ recalls) arrived

/-- What a call does from the leaf where it settles is all that is left of it. -/
theorem SettlesFrom.perform_eq {machine : Machine} {state : State} {call : Call}
    {occasion : Occasion} {run : Run} {leaf : String}
    (settling : machine.SettlesFrom state call occasion run leaf)
    : machine.perform state call
      = conclude state
          ((machine.settle occasion run [] leaf).map
            (fun settled => commit settled.1 settled.2)) := by
  cases settling with
  | started way arrived =>
      have descended := way.descend_eq (History.all_empty _) arrived
      simp only [firstRun] at descended
      simp only [perform, start, descended, bind, Except.bind]
      cases machine.settle ⟨.null, _⟩ run [] leaf <;> rfl
  | dispatched sent active answer taken =>
      simp only [perform, dispatch_answered sent active answer, taken, bind, Except.bind]
      cases machine.settle ⟨_, _⟩ run [] leaf <;> rfl

-----------------------------------------------------------------------------------------
-- Only settling finds a cycle
-----------------------------------------------------------------------------------------

/-- An action fails in its edits, never in the chart. -/
theorem act_ne_chart {machine : Machine} {payload : Json} {run : Run} {action : Option Action}
    {problem : Problem}
    : machine.act payload run action ≠ .error (.chart problem) := by
  intro failed
  cases action with
  | none => cases failed
  | some action =>
      simp only [act] at failed
      split at failed
      · cases failed
      · split at failed <;> cases failed

theorem DescentEnd.ne_cycle {machine : Machine} {payload : Json} {run : Run} {state leaf : String}
    : ¬ machine.DescentEnd payload run state (.error (.chart (.automaticCycle leaf))) := by
  intro ended
  cases ended with
  | failed chosen acted => exact act_ne_chart acted

theorem take_ne_cycle {machine : Machine} {occasion : Occasion} {run : Run}
    {leaf event last : String} {alternative : Alternative}
    (declared : machine.Declares alternative) (recalls : machine.Recalls run.history)
    (isLeaf : machine.isLeafState leaf = true)
    : machine.take occasion run leaf event alternative
      ≠ .error (.chart (.automaticCycle last)) := by
  intro failed
  cases aims : alternative.target with
  | none =>
      rw [take_internal aims] at failed
      exact act_ne_chart (map_eq_error_iff.mp failed)
  | some target =>
      rcases take_error declared aims recalls isLeaf failed with
        acted | ⟨next, alternatives, later, last, departs, way, ended⟩
      · exact act_ne_chart acted
      · exact ended.ne_cycle

/-- A call fails exactly as the run that it concludes. -/
theorem conclude_failed_iff {state : State} {result : Except Failure (State × Outcome)}
    {failure : Failure}
    : (conclude state result).2 = .failed failure ↔ result = .error failure := by
  cases result with
  | ok next => simp [conclude]
  | error other => simp [conclude]

/-- A call to a poised machine that fails for a cycle does so in settling: no way down and no
alternative that is taken finds one.
-/
theorem settlesFrom_of_cycle {machine : Machine} {state : State} {call : Call}
    {last : String} (poised : machine.Poised machine.TellsLeaf state)
    (failed : (machine.perform state call).2 = .failed (.chart (.automaticCycle last)))
    : ∃ occasion run leaf,
        machine.SettlesFrom state call occasion run leaf
        ∧ machine.settle occasion run [] leaf = .error (.chart (.automaticCycle last)) := by
  cases call with
  | start time =>
      have started : machine.start time = .error (.chart (.automaticCycle last)) :=
        conclude_failed_iff.mp failed
      obtain ⟨alternatives, later, name, way, ended⟩ := machine.exists_first_way
      change machine.descend .null machine.firstRun rootName >>= _ = _ at started
      rcases bind_eq_error_iff.mp started with descended | ⟨⟨run, leaf⟩, descended, started⟩
      · rw [descended] at ended
        exact absurd ended DescentEnd.ne_cycle
      · rw [descended] at ended
        cases ended with
        | leaf arrived =>
            rcases bind_eq_error_iff.mp started with settled | ⟨_, _, started⟩
            · exact ⟨_, _, _, .started way arrived, settled⟩
            · cases started
  | dispatch event payload time =>
      have dispatched
          : machine.dispatch state event payload time
            = .error (.chart (.automaticCycle last)) :=
        conclude_failed_iff.mp failed
      by_cases sent : event = entryEvent
      · rw [dispatch_reserved sent] at dispatched
        cases dispatched
      cases active : state.active with
      | none =>
          rw [dispatch_uninitialized sent active] at dispatched
          cases dispatched
      | some leaf =>
          cases answer : machine.answer? state leaf event payload with
          | none =>
              rw [dispatch_unanswered sent active answer] at dispatched
              cases dispatched
          | some alternative =>
              have declared := declares_of_answer? answer
              have isLeaf := poised.active _ active
              rw [dispatch_answered sent active answer] at dispatched
              rcases bind_eq_error_iff.mp dispatched with
                taken | ⟨⟨run, reached⟩, taken, dispatched⟩
              · exact absurd taken (take_ne_cycle declared poised.history isLeaf)
              rcases bind_eq_error_iff.mp dispatched with settled | ⟨_, _, dispatched⟩
              · exact ⟨_, _, _, .dispatched sent active answer taken, settled⟩
              · cases dispatched
  | resume checkpoint =>
      simp only [perform] at failed
      split at failed <;> cases failed

end Machine

end Statechart
