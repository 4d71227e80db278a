import Statechart.Proofs.Machine.Transaction
import Statechart.Proofs.Memory.Retention

/-! Machines that are built from the same parts. With and without a capacity they do the same, but
for the oldest records of the log. A machine that is started again does what it did when it was new,
whatever calls or checkpoints came in between.
-/

namespace Statechart

namespace Machine

-----------------------------------------------------------------------------------------
-- The parts of a machine
-----------------------------------------------------------------------------------------

/-- A machine is what is built from its parts. -/
theorem ofChart_eq_ok_iff {chart : Chart} {initialModel settings : Json} {capacity : Option Nat}
    {machine : Machine}
    : ofChart chart initialModel settings capacity = .ok machine
      ↔ machine.chart = chart
        ∧ machine.initialModel = initialModel
        ∧ machine.settings = settings
        ∧ machine.capacity = capacity := by
  constructor
  · intro built
    unfold ofChart at built
    split at built
    · cases built
      exact ⟨rfl, rfl, rfl, rfl⟩
    · cases built
  · intro ⟨sameChart, sameModel, sameSettings, sameCapacity⟩
    obtain ⟨_, outline, accepted, _, routed, _, _, _⟩ := machine
    subst sameChart sameModel sameSettings sameCapacity routed
    unfold ofChart
    split
    · rename_i found validated
      obtain rfl : found = outline := Except.ok.inj (validated.symm.trans accepted)
      rfl
    · rename_i problems refused
      cases refused.symm.trans accepted

end Machine

-----------------------------------------------------------------------------------------
-- With and without a capacity
-----------------------------------------------------------------------------------------

/-- A log of some capacity with the latest records of one that keeps all, made at whatever times. -/
structure Log.Abridges (capacity : Nat) (bounded whole : Log) : Prop where
  bound : bounded.capacity = some capacity
  unbound : whole.capacity = none
  records : List.Forall₂ LogRecord.Alike bounded.records (whole.records.rtake capacity)

namespace Log

theorem Abridges.length {capacity : Nat} {bounded whole : Log}
    (abridges : Abridges capacity bounded whole)
    : bounded.records.length = min capacity whole.records.length :=
  abridges.records.length_eq.trans (length_latest capacity whole.records)

/-- Recording the same change keeps the latest records of all that there are then. -/
theorem recording_abridges (capacity : Nat)
    : Recording (fun _ _ => True) (Abridges capacity) := by
  intro bounded whole record record' ⟨bound, unbound, same⟩ change _
  refine ⟨by simpa using bound, by simpa using unbound, ?_⟩
  have longer : List.Forall₂ LogRecord.Alike (bounded.records ++ [record])
      (latest (some capacity) whole.records ++ [record']) :=
    List.rel_append same (.cons change .nil)
  have kept := forall₂_latest longer (some capacity)
  rw [latest_append_latest] at kept
  rw [records_record, records_record, bound, unbound]
  exact kept

end Log

namespace Machine

/-- Machines built from the same chart, model and settings, with and without a capacity, give the
same reply to each of the same calls, starts and dispatches at whatever times. They come to the same
model, leaf and history, and the one with the capacity keeps the latest records of the other.
-/
theorem capacity_abridges {chart : Chart} {initialModel settings : Json} {capacity : Nat}
    {bounded unbounded : Machine}
    (built : ofChart chart initialModel settings (some capacity) = .ok bounded)
    (built' : ofChart chart initialModel settings none = .ok unbounded)
    {calls calls' : List Call} (unresumed : ∀ checkpoint, .resume checkpoint ∉ calls)
    (together : List.Forall₂ (Call.Alike fun _ _ => True) calls calls')
    : (bounded.performAll bounded.fresh calls).2 = (unbounded.performAll unbounded.fresh calls').2
      ∧ State.Alike (Log.Abridges capacity) (bounded.after calls) (unbounded.after calls')
      ∧ (bounded.after calls).log.records.length
        = min capacity (unbounded.after calls').log.records.length := by
  obtain ⟨rfl, rfl, rfl, limit⟩ := ofChart_eq_ok_iff.mp built
  obtain ⟨sameChart, sameModel, sameSettings, unlimited⟩ := ofChart_eq_ok_iff.mp built'
  have same : bounded.Matches unbounded := ⟨sameChart, sameSettings⟩
  have empty : Log.Abridges capacity bounded.emptyLog unbounded.emptyLog :=
    ⟨limit, unlimited, by simp [emptyLog]⟩
  have brings : ∀ call ∈ calls, BringsAlike (Log.Abridges capacity) bounded unbounded call := by
    intro call member
    refine ⟨fun _ _ => ⟨sameModel, empty⟩, ?_⟩
    intro checkpoint resumes
    exact absurd (resumes ▸ member) (unresumed checkpoint)
  have begun : State.Alike (Log.Abridges capacity) bounded.fresh unbounded.fresh :=
    ⟨sameModel.symm, rfl, rfl, empty⟩
  obtain ⟨alike, replies⟩ :=
    performAll_together same.agrees (Log.recording_abridges capacity) brings begun together
  exact ⟨replies, alike, alike.log.length⟩

theorem built_forgetfulDoor : ofChart doorChart .null .null (some 1) = .ok forgetfulDoor :=
  ofChart_eq_ok_iff.mpr ⟨rfl, rfl, rfl, rfl⟩

/-- The calls that close a door, made in the evening. -/
def eveningCalls : List Call :=
  [.start dusk, .dispatch "push" .null dusk, .dispatch "close" .null dusk]

/-- A door that keeps one record is pushed and closed like another one in the evening, which keeps
two.
-/
theorem forgetfulDoor_abridges
    : (door.after eveningCalls).log.records.length = 2
      ∧ (forgetfulDoor.after closingCalls).log.records.length = 1
      ∧ (forgetfulDoor.performAll forgetfulDoor.fresh closingCalls).2
        = (door.performAll door.fresh eveningCalls).2 := by
  have built' : ofChart doorChart .null .null none = .ok door :=
    ofChart_eq_ok_iff.mpr ⟨rfl, rfl, rfl, rfl⟩
  have unresumed : ∀ checkpoint, .resume checkpoint ∉ closingCalls := by
    simp [closingCalls]
  have together : List.Forall₂ (Call.Alike fun _ _ => True) closingCalls eveningCalls :=
    .cons (.start trivial)
      (.cons (.dispatch "push" .null trivial) (.cons (.dispatch "close" .null trivial) .nil))
  have two : (door.after eveningCalls).log.records.length = 2 := by
    decide +kernel
  obtain ⟨replies, _, length⟩ :=
    capacity_abridges built_forgetfulDoor built' unresumed together
  rw [two] at length
  exact ⟨two, length, replies⟩

-----------------------------------------------------------------------------------------
-- Starting over
-----------------------------------------------------------------------------------------

/-- Results that are alike are concluded with the same reply from any states, and with states that
are alike if it tells an outcome.
-/
theorem conclude_of_related {logs : Log → Log → Prop} (state state' : State)
    {result result' : Except Failure (State × Outcome)}
    (related : Related (ResultAlike logs) result result')
    : (conclude state result).2 = (conclude state' result').2
      ∧ ∀ outcome,
          (conclude state' result').2 = .done outcome
          → State.Alike logs (conclude state result).1 (conclude state' result').1 := by
  cases related with
  | ok ended => exact ⟨congrArg Reply.done ended.outcome, fun _ _ => ended.state⟩
  | error => exact ⟨rfl, fun _ failed => nomatch failed⟩

/-- A start after any calls, resumptions of any checkpoints among them, gets the reply that a start
of a machine gets that was just built from the same parts. If it succeeds, the two machines remember
the same from there on, the capacity of the log included, and go on to give the same replies.
-/
theorem start_begins_anew {chart : Chart} {initialModel settings : Json} {capacity : Option Nat}
    {machine renewed : Machine}
    (built : ofChart chart initialModel settings capacity = .ok machine)
    (built' : ofChart chart initialModel settings capacity = .ok renewed) (calls : List Call)
    (time time' : Instant)
    : (machine.perform (machine.after calls) (.start time)).2
        = (renewed.perform renewed.fresh (.start time')).2
      ∧ ∀ outcome,
          (renewed.perform renewed.fresh (.start time')).2 = .done outcome
          → State.Alike Log.Alike (machine.perform (machine.after calls) (.start time)).1
                (renewed.perform renewed.fresh (.start time')).1
            ∧ ∀ later later',
                List.Forall₂ (Call.Alike fun _ _ => True) later later'
                → (machine.performAll (machine.after calls) (.start time :: later)).2
                    = (renewed.performAll renewed.fresh (.start time' :: later')).2
                  ∧ State.Alike Log.Alike
                      (machine.performAll (machine.after calls) (.start time :: later)).1
                      (renewed.after (.start time' :: later')) := by
  obtain rfl : machine = renewed := Except.ok.inj (built.symm.trans built')
  have agrees : machine.Agrees machine := ⟨rfl, fun _ _ => rfl, rfl⟩
  have begins : BeginsAlike Log.Alike machine machine := ⟨rfl, Log.Alike.refl _⟩
  have started : Related (ResultAlike Log.Alike) (machine.start time) (machine.start time') :=
    start_alike agrees Log.recording_alike begins trivial
  obtain ⟨reply, ends⟩ := conclude_of_related (machine.after calls) machine.fresh started
  refine ⟨reply, ?_⟩
  intro outcome succeeded
  have alike := ends outcome succeeded
  refine ⟨alike, ?_⟩
  intro later later' together
  obtain ⟨onward, replies⟩ :=
    performAll_together agrees Log.recording_alike (fun call _ => machine.bringsAlike_self call)
      alike together
  exact ⟨congrArg₂ List.cons reply replies, onward⟩

/-- A door that keeps one record was pushed, and went on from what another door remembered with a
log that keeps all. Started in the evening it is wide open, and keeps one record again when it is
closed.
-/
theorem forgetfulDoor_begins
    : (forgetfulDoor.after
          [.start noon, .dispatch "push" .null noon, .resume (shutDoor "ajar")]).log.capacity
        = none
      ∧ State.Alike Log.Alike
          (forgetfulDoor.performAll
            (forgetfulDoor.after
              [.start noon, .dispatch "push" .null noon, .resume (shutDoor "ajar")])
            [.start dusk, .dispatch "close" .null dusk]).1
          (forgetfulDoor.after [.start noon, .dispatch "close" .null noon]) := by
  obtain ⟨_, anew⟩ :=
    start_begins_anew built_forgetfulDoor built_forgetfulDoor
      [.start noon, .dispatch "push" .null noon, .resume (shutDoor "ajar")] dusk noon
  obtain ⟨_, onward⟩ := anew ⟨.null, "wide", []⟩ (by with_unfolding_all rfl)
  refine ⟨by decide +kernel, ?_⟩
  exact (onward _ _ (.cons (.dispatch "close" .null trivial) .nil)).2

end Machine

end Statechart
