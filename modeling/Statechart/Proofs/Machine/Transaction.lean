import Statechart.Proofs.Machine.Parallel
import Statechart.Proofs.Machine.Resumption
import Statechart.Proofs.Machine.Selection

/-! Calls that leave no trace. A call that fails, wherever it does, and a dispatch that nothing
answers keep all that a machine remembers. So they can be deleted from a session, and the calls that
remain do what they did with them.
-/

namespace Statechart

-----------------------------------------------------------------------------------------
-- Logs up to their times
-----------------------------------------------------------------------------------------

/-- Logs of the same capacity with records of the same changes, at whatever times. -/
structure Log.Alike (log other : Log) : Prop where
  capacity : other.capacity = log.capacity
  records : List.Forall₂ LogRecord.Alike log.records other.records

namespace Log

theorem Alike.refl (log : Log) : log.Alike log :=
  ⟨rfl, List.forall₂_same.mpr fun _ _ => ⟨rfl, rfl, rfl⟩⟩

/-- Recording the same change keeps two logs alike: as many of the oldest records are dropped. -/
theorem recording_alike : Recording (fun _ _ => True) Alike := by
  intro ⟨records, capacity⟩ ⟨records', capacity'⟩ record record' alike change _
  obtain ⟨rfl : capacity' = capacity, same⟩ := alike
  have longer : List.Forall₂ LogRecord.Alike (records ++ [record]) (records' ++ [record']) :=
    List.rel_append same (.cons change .nil)
  cases capacity' with
  | none => exact ⟨rfl, longer⟩
  | some most =>
      refine ⟨rfl, ?_⟩
      simp only [Log.record, ← longer.length_eq]
      exact List.forall₂_drop _ longer

end Log

namespace Machine

-----------------------------------------------------------------------------------------
-- Calls that change nothing
-----------------------------------------------------------------------------------------

/-- Whether a call has failed or was refused. -/
def Reply.isFailure : Reply → Bool
  | .done _ | .resumed => false
  | .failed _ | .refused _ => true

/-- A dispatch of an event that no state from the active leaf to the root declares, or whose first
transition on the nearest state that does has no alternative that holds.
-/
inductive Unanswered (machine : Machine) (state : State) : Call → Prop
  | undeclared {leaf event payload time} (sent : event ≠ entryEvent)
    (active : state.active = some leaf)
    (undeclared
      : ∀ outer ∈ machine.outline.ancestors leaf, ¬ machine.chart.Declares outer event)
    : Unanswered machine state (.dispatch event payload time)
  | unguarded {leaf event payload time outer transition} (sent : event ≠ entryEvent)
    (active : state.active = some leaf)
    (handles : machine.Handles leaf event outer transition)
    (fails
      : ∀ alternative ∈ transition.alternatives,
          alternative.holds state.model payload machine.settings = false)
    : Unanswered machine state (.dispatch event payload time)

/-- A call that fails, or a dispatch that nothing answers. -/
def Idle (machine : Machine) (state : State) (call : Call) : Prop :=
  (machine.perform state call).2.isFailure = true ∨ machine.Unanswered state call

theorem unanswered_iff {machine : Machine} {state : State} {event : String} {payload : Json}
    {time : Instant}
    : machine.Unanswered state (.dispatch event payload time)
      ↔ event ≠ entryEvent
        ∧ state.active.map (fun leaf => (machine.answer? state leaf event payload).isNone)
          = some true := by
  simp only [Option.map_eq_some_iff, Option.isNone_iff_eq_none, answer?_eq_none_iff]
  constructor
  · intro unanswered
    cases unanswered with
    | undeclared sent active undeclared => exact ⟨sent, _, active, Or.inl undeclared⟩
    | unguarded sent active handles fails =>
        exact ⟨sent, _, active, Or.inr ⟨_, _, handles, fails⟩⟩
  · rintro ⟨sent, leaf, active, undeclared | ⟨outer, transition, handles, fails⟩⟩
    · exact .undeclared sent active undeclared
    · exact .unguarded sent active handles fails

instance (machine : Machine) (state : State) : DecidablePred (machine.Unanswered state)
  | .start _ => .isFalse nofun
  | .resume _ => .isFalse nofun
  | .dispatch _ _ _ => decidable_of_iff' _ unanswered_iff

instance (machine : Machine) : DecidableRel machine.Idle :=
  fun _ _ => inferInstanceAs (Decidable (_ ∨ _))

/-- A dispatch that nothing answers tells the model and the leaf as they are, and no outputs. -/
theorem Unanswered.perform_eq {machine : Machine} {state : State} {call : Call}
    (unanswered : machine.Unanswered state call)
    : ∃ leaf,
        state.active = some leaf
        ∧ machine.perform state call
          = (state, .done { model := state.model, state := leaf, outputs := [] }) := by
  cases call with
  | start | resume => cases unanswered
  | dispatch event payload time =>
      obtain ⟨sent, silent⟩ := unanswered_iff.mp unanswered
      obtain ⟨leaf, active, silent⟩ := Option.map_eq_some_iff.mp silent
      refine ⟨leaf, active, ?_⟩
      simp only [perform,
        dispatch_unanswered sent active (Option.isNone_iff_eq_none.mp silent), unchanged, conclude]

theorem conclude_of_isFailure {state : State} {result : Except Failure (State × Outcome)}
    (failed : (conclude state result).2.isFailure = true)
    : (conclude state result).1 = state := by
  cases result with
  | error failure => rfl
  | ok ended => cases failed

/-- A call that fails keeps the state, whatever its run had done by then. -/
theorem perform_of_isFailure {machine : Machine} {state : State} {call : Call}
    (failed : (machine.perform state call).2.isFailure = true)
    : (machine.perform state call).1 = state := by
  cases call with
  | start time => exact conclude_of_isFailure failed
  | dispatch event payload time => exact conclude_of_isFailure failed
  | resume checkpoint =>
      simp only [perform] at failed ⊢
      cases accepted : machine.resume checkpoint with
      | error error => rfl
      | ok next =>
          rw [accepted] at failed
          cases failed

theorem Idle.perform_fst {machine : Machine} {state : State} {call : Call}
    (idle : machine.Idle state call)
    : (machine.perform state call).1 = state := by
  rcases idle with failed | unanswered
  · exact perform_of_isFailure failed
  · obtain ⟨leaf, _, performed⟩ := unanswered.perform_eq
    rw [performed]

-----------------------------------------------------------------------------------------
-- Sessions without them
-----------------------------------------------------------------------------------------

section Sessions

variable {machine : Machine} {delete : State → Call → Prop} [DecidableRel delete]

/-- The calls of a session that are not deleted, each with the reply that it got there. -/
def kept (machine : Machine) (delete : State → Call → Prop) [DecidableRel delete] (state : State)
    : List Call → List (Call × Reply)
  | [] => []
  | call :: calls =>
      let (next, reply) := machine.perform state call
      if delete state call then machine.kept delete next calls
      else (call, reply) :: machine.kept delete next calls

/-- The calls that are kept get the replies that they got, and lead to the same state; by induction
on the calls, of which a deleted one keeps the state.
-/
theorem performAll_kept (idle : ∀ state call, delete state call → machine.Idle state call)
    (state : State) (calls : List Call)
    : machine.performAll state ((machine.kept delete state calls).map (·.1))
      = ((machine.performAll state calls).1, (machine.kept delete state calls).map (·.2)) := by
  induction calls generalizing state with
  | nil => rfl
  | cons call calls ih =>
      simp only [kept, performAll]
      split
      · rename_i deleted
        rw [(idle state call deleted).perform_fst]
        exact ih state
      · simp only [List.map_cons, performAll, ih]

/-- Machines that are one begin anew alike and resume the same logs. -/
theorem bringsAlike_self (machine : Machine) (call : Call)
    : BringsAlike Log.Alike machine machine call :=
  ⟨fun _ _ => ⟨rfl, Log.Alike.refl _⟩, fun _ _ => Log.Alike.refl _⟩

/-- Calls that fail and dispatches that nothing answers can be deleted from a session, some of them
or all. The others, made again at whatever times, get the replies that they got, and the machine
remembers the same in the end but for times. What a deleted dispatch gave, if nothing answered it,
was the model and the leaf as they were.
-/
theorem replies_without_idle (machine : Machine) (state : State) (calls others : List Call)
    (idle : ∀ state call, delete state call → machine.Idle state call)
    (same
      : List.Forall₂ (Call.Alike fun _ _ => True)
          ((machine.kept delete state calls).map (·.1)) others)
    : (machine.performAll state others).2 = (machine.kept delete state calls).map (·.2)
      ∧ State.Alike Log.Alike (machine.performAll state calls).1
          (machine.performAll state others).1
      ∧ ∀ state call,
          machine.Unanswered state call
          → ∃ leaf,
              state.active = some leaf
              ∧ machine.perform state call
                = (state, .done { model := state.model, state := leaf, outputs := [] }) := by
  have agrees : machine.Agrees machine := ⟨rfl, fun _ _ => rfl, rfl⟩
  obtain ⟨alike, replies⟩ :=
    performAll_together agrees Log.recording_alike (fun call _ => machine.bringsAlike_self call)
      ⟨rfl, rfl, rfl, Log.Alike.refl state.log⟩ same
  rw [performAll_kept idle] at alike replies
  exact ⟨replies.symm, alike, fun _ _ unanswered => unanswered.perform_eq⟩

end Sessions

/-- A door that springs open as soon as it is shut, if there were a latch to release, and that
cannot be locked.
-/
def springDoor : Machine where
  chart :=
    { doorChart with
      transitions :=
        doorChart.transitions
          ++ [⟨"shut", none, .always (some "open")
                (some ⟨"release", fun _ _ _ => { update := [.remove "/latch"] }⟩)⟩,
              ⟨"open", some "lock", .guarded [⟨⟨"keyed", fun _ _ _ => false⟩, none, none⟩]⟩] }
  outline := door.outline
  accepted := rfl
  initialModel := .null
  settings := .null

/-- Calls of which only the first and the last do anything: shutting the door fails once it is shut,
no key locks it, no knock is heard, nobody enters it and no other door is resumed.
-/
def restlessCalls : List Call :=
  [.start noon, .dispatch "close" .null noon, .dispatch "lock" .null noon,
    .dispatch "knock" .null noon, .dispatch entryEvent .null noon,
    .resume (shutDoor "elsewhere"), .dispatch "push" .null noon]

def dusk : Instant :=
  { noon with minute := 1080, minute_lt := by decide }

/-- Without the others, the first and the last call do the same at dusk. -/
theorem springDoor_rests
    : (springDoor.kept springDoor.Idle springDoor.fresh restlessCalls).map (·.1)
        = [.start noon, .dispatch "push" .null noon]
      ∧ (springDoor.performAll springDoor.fresh [.start dusk, .dispatch "push" .null dusk]).2
        = (springDoor.kept springDoor.Idle springDoor.fresh restlessCalls).map (·.2)
      ∧ State.Alike Log.Alike (springDoor.performAll springDoor.fresh restlessCalls).1
          (springDoor.performAll springDoor.fresh
            [.start dusk, .dispatch "push" .null dusk]).1 := by
  have remaining
      : (springDoor.kept springDoor.Idle springDoor.fresh restlessCalls).map (·.1)
        = [.start noon, .dispatch "push" .null noon] := by
    with_unfolding_all rfl
  have again
      : List.Forall₂ (Call.Alike fun _ _ => True)
          ((springDoor.kept springDoor.Idle springDoor.fresh restlessCalls).map (·.1))
          [.start dusk, .dispatch "push" .null dusk] := by
    rw [remaining]
    exact .cons (.start trivial) (.cons (.dispatch "push" .null trivial) .nil)
  obtain ⟨replies, alike, _⟩ :=
    replies_without_idle springDoor springDoor.fresh restlessCalls _ (fun _ _ idle => idle) again
  exact ⟨remaining, replies, alike⟩

end Machine

end Statechart
