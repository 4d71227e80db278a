import Statechart.Proofs.Machine.Invariant
import Statechart.Proofs.Patch.Faults

/-! How calls fail. Once a chart is accepted, no call finds a state unknown, an entry missing or
a target amiss; what is left are guards that all fail, a leaf left twice, and the edits of
actions.
-/

namespace Statechart

namespace Machine

/-- Leaving a leaf by an alternative with a target leads to a state, by the action and then
some way down.
-/
inductive LeadsTo (machine : Machine) (payload : Json) (run : Run) (leaf : String)
    (alternative : Alternative)
    : Run → String → Prop
  | down {target next alternatives later state}
    (departs : machine.Departs payload run leaf alternative target next)
    (way : machine.Way payload next (landing next target) alternatives later state)
    : LeadsTo machine payload run leaf alternative later state

/-- Settling from a leaf leads to a state, by a chain of departures and then one more that is
not over yet.
-/
inductive SettlesInto (machine : Machine) (occasion : Occasion) (run : Run) (leaf : String)
    : Run → String → Prop
  | after {departures middle last alternative later state}
    (chain : machine.Chain occasion run leaf departures middle last)
    (chosen : machine.automatic? occasion.payload middle last = some alternative)
    (leads : machine.LeadsTo occasion.payload middle last alternative later state)
    : SettlesInto machine occasion run leaf later state

/-- The states that a call comes to, each with the run of the call at that point. -/
inductive Entered (machine : Machine) (state : State) : Call → Run → String → Prop
  | first {time alternatives run name}
    (way : machine.Way .null machine.firstRun rootName alternatives run name)
    : Entered machine state (.start time) run name
  | started {time alternatives run leaf later name}
    (way : machine.Way .null machine.firstRun rootName alternatives run leaf)
    (arrived : machine.isLeafState leaf = true)
    (settles : machine.SettlesInto ⟨.null, time⟩ run leaf later name)
    : Entered machine state (.start time) later name
  | answered {leaf event payload time alternative later name}
    (active : state.active = some leaf)
    (answer : machine.answer? state leaf event payload = some alternative)
    (leads : machine.LeadsTo payload state.run leaf alternative later name)
    : Entered machine state (.dispatch event payload time) later name
  | dispatched {leaf event payload time alternative run reached later name}
    (active : state.active = some leaf)
    (answer : machine.answer? state leaf event payload = some alternative)
    (taken
      : machine.take ⟨payload, time⟩ state.run leaf event alternative = .ok (run, reached))
    (settles : machine.SettlesInto ⟨payload, time⟩ run reached later name)
    : Entered machine state (.dispatch event payload time) later name

/-- The failures of transitions that are carried out, given the states that are entered: an
entry whose guards all fail, a cycle of automatic transitions, and the edits of an action.
-/
inductive Fault (machine : Machine) (payload : Json) (entered : Run → String → Prop)
    : Failure → Prop
  | unresolved {run state} (point : entered run state)
    (stuck : machine.Unresolved payload run state)
    : Fault machine payload entered (.chart (.unresolvedEntry state))
  | cycle {leaf} (isLeaf : machine.isLeafState leaf = true)
    : Fault machine payload entered (.chart (.automaticCycle leaf))
  | malformed {action} {error : PatchError} (written : error.fault.isWritten = true)
    : Fault machine payload entered (.malformedUpdate action error)
  | failed {action} {error : PatchError} (written : error.fault.isWritten = false)
    : Fault machine payload entered (.failedUpdate action error)

theorem Fault.mono {machine : Machine} {payload : Json} {entered all : Run → String → Prop}
    {failure : Failure} (fault : machine.Fault payload entered failure)
    (included : ∀ run state, entered run state → all run state)
    : machine.Fault payload all failure := by
  cases fault with
  | unresolved point stuck => exact .unresolved (included _ _ point) stuck
  | cycle isLeaf => exact .cycle isLeaf
  | malformed written => exact .malformed written
  | failed written => exact .failed written

/-- An action fails in how its edits are written, or in carrying them out. -/
theorem act_fault {machine : Machine} {payload : Json} {run : Run} {action : Option Action}
    {failure : Failure} {entered : Run → String → Prop}
    (acted : machine.act payload run action = .error failure)
    : machine.Fault payload entered failure := by
  cases action with
  | none => cases acted
  | some action =>
      simp only [act] at acted
      split at acted
      · rename_i error checked
        cases acted
        exact .malformed (Patch.check_fault checked)
      · split at acted
        · rename_i error ran
          cases acted
          exact .failed (Patch.run_fault ran)
        · cases acted

theorem DescentEnd.fault {machine : Machine} {payload : Json} {run : Run} {state : String}
    {failure : Failure} {entered : Run → String → Prop}
    (ended : machine.DescentEnd payload run state (.error failure))
    (point : entered run state)
    : machine.Fault payload entered failure := by
  cases ended with
  | unresolved stuck => exact .unresolved point stuck
  | failed chosen acted => exact act_fault acted

theorem take_fault {machine : Machine} {occasion : Occasion} {run : Run}
    {leaf event : String} {alternative : Alternative} {failure : Failure}
    (declared : machine.Declares alternative) (recalls : machine.Recalls run.history)
    (isLeaf : machine.isLeafState leaf = true)
    (failed : machine.take occasion run leaf event alternative = .error failure)
    : machine.Fault occasion.payload
        (machine.LeadsTo occasion.payload run leaf alternative) failure := by
  cases aims : alternative.target with
  | none =>
      rw [take_internal aims] at failed
      exact act_fault (map_eq_error_iff.mp failed)
  | some target =>
      rcases take_error declared aims recalls isLeaf failed with
        acted | ⟨next, alternatives, later, last, departs, way, ended⟩
      · exact act_fault acted
      · exact ended.fault (.down departs way)

/-- Settling fails where its chain ends: in a cycle, or in the next departure. -/
theorem settle_fault {machine : Machine} {occasion : Occasion} {run : Run}
    {left : List String} {leaf : String} {failure : Failure}
    (recalls : machine.Recalls run.history) (isLeaf : machine.isLeafState leaf = true)
    (failed : machine.settle occasion run left leaf = .error failure)
    : machine.Fault occasion.payload (machine.SettlesInto occasion run leaf) failure := by
  obtain ⟨departures, later, last, chain, ended⟩ := machine.exists_chain occasion run left leaf
  obtain ⟨told, arrived⟩ := chain.keeps machine.memorable_tellsLeaf recalls isLeaf
  generalize machine.settle occasion run left leaf = result at failed ended
  cases ended with
  | idle quiet => cases failed
  | internal chosen internal => exact act_fault (map_eq_error_iff.mp failed)
  | cycle chosen aims again =>
      cases failed
      exact .cycle arrived
  | failed chosen aims fresh failure =>
      cases failed
      have fault := take_fault (declares_of_automatic? chosen) told arrived failure
      exact fault.mono (fun _ _ leads => .after chain chosen leads)

-----------------------------------------------------------------------------------------
-- How calls fail
-----------------------------------------------------------------------------------------

theorem start_fault {machine : Machine} {state : State} {time : Instant} {failure : Failure}
    (failed : machine.start time = .error failure)
    : machine.Fault .null (Entered machine state (.start time)) failure := by
  obtain ⟨alternatives, later, last, way, ended⟩ := machine.exists_first_way
  rcases bind_eq_error_iff.mp failed with descended | ⟨⟨run, leaf⟩, descended, failed⟩
  · rw [show machine.descend .null machine.firstRun rootName = .error failure from descended]
      at ended
    exact ended.fault (.first way)
  · rw [show machine.descend .null machine.firstRun rootName = .ok (run, leaf) from descended]
      at ended
    cases ended with
    | leaf arrived =>
        rcases bind_eq_error_iff.mp failed with settled | ⟨_, _, failed⟩
        · have recalls : machine.Recalls later.history :=
            way.keeps.1 ▸ History.all_empty _
          have fault := settle_fault recalls arrived settled
          exact fault.mono (fun _ _ settles => .started way arrived settles)
        · cases failed

/-- A dispatch to an initialized machine, of an event that may be sent, fails in the
alternative that answers the event or in settling after it.
-/
theorem dispatch_fault {machine : Machine} {state : State} {leaf event : String}
    {payload : Json} {time : Instant} {failure : Failure}
    (poised : machine.Poised machine.TellsLeaf state)
    (sent : event ≠ entryEvent) (active : state.active = some leaf)
    (failed : machine.dispatch state event payload time = .error failure)
    : machine.Fault payload
        (Entered machine state (.dispatch event payload time)) failure := by
  have isLeaf := poised.active leaf active
  have recalls : machine.Recalls state.run.history := poised.history
  cases answer : machine.answer? state leaf event payload with
  | none =>
      rw [dispatch_unanswered sent active answer] at failed
      cases failed
  | some alternative =>
      have declared := declares_of_answer? answer
      rw [dispatch_answered sent active answer] at failed
      rcases bind_eq_error_iff.mp failed with taken | ⟨⟨run, reached⟩, taken, failed⟩
      · have fault := take_fault declared recalls isLeaf taken
        exact fault.mono (fun _ _ leads => .answered active answer leads)
      rcases bind_eq_error_iff.mp failed with settled | ⟨_, _, failed⟩
      · obtain ⟨told, arrived⟩ :=
          take_keeps machine.memorable_tellsLeaf declared recalls isLeaf taken
        have fault := settle_fault told arrived settled
        exact fault.mono (fun _ _ settles => .dispatched active answer taken settles)
      · cases failed

/-- After any calls, a start that fails does so in carrying out transitions. A dispatch fails
so too, or for a reserved event, or for want of initialization, which are told exactly then.
-/
theorem failures_of_calls (machine : Machine) (calls : List Call)
    : (∀ time failure,
          machine.start time = .error failure
          → machine.Fault .null (machine.Entered (machine.after calls) (.start time)) failure)
      ∧ ∀ event payload time,
          (machine.dispatch (machine.after calls) event payload time
              = .error (.reservedEvent event)
            ↔ event = entryEvent)
          ∧ (machine.dispatch (machine.after calls) event payload time = .error .notInitialized
            ↔ event ≠ entryEvent ∧ (machine.after calls).active = none)
          ∧ ∀ failure,
              machine.dispatch (machine.after calls) event payload time = .error failure
              → failure = .reservedEvent event
                ∨ failure = .notInitialized
                ∨ machine.Fault payload
                    (machine.Entered (machine.after calls) (.dispatch event payload time))
                    failure := by
  have poised := performAll_poised calls (machine.poised_fresh _)
  refine ⟨fun time failure => start_fault, ?_⟩
  intro event payload time
  by_cases reserved : event = entryEvent
  · rw [dispatch_reserved reserved]
    refine ⟨by simp [reserved], by simp [reserved], ?_⟩
    intro failure failed
    exact Or.inl (Except.error.inj failed).symm
  cases active : (machine.after calls).active with
  | none =>
      rw [dispatch_uninitialized reserved active]
      refine ⟨by simp [reserved], by simp [reserved], ?_⟩
      intro failure failed
      exact Or.inr (Or.inl (Except.error.inj failed).symm)
  | some leaf =>
      have faulty {failure}
          (failed : machine.dispatch (machine.after calls) event payload time = .error failure)
          : machine.Fault payload
              (machine.Entered (machine.after calls) (.dispatch event payload time)) failure :=
        dispatch_fault poised reserved active failed
      refine ⟨?_, ?_, ?_⟩
      · refine ⟨fun failed => ?_, fun same => absurd same reserved⟩
        cases faulty failed
      · refine ⟨fun failed => ?_, fun ⟨_, inactive⟩ => nomatch inactive⟩
        cases faulty failed
      · exact fun failure failed => Or.inr (Or.inr (faulty failed))

end Machine

end Statechart
