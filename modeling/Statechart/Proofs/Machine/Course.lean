import Statechart.Proofs.Machine.Chain

/-! The course of a whole call. Starting a machine goes down from the root and settles;
dispatching an event takes the alternative that answers it and settles. The transitions with
targets that a call takes are its departures.
-/

namespace Statechart

namespace Machine

/-- The run that starting a machine begins with. -/
def firstRun (machine : Machine) : Run :=
  { model := machine.initialModel, history := {}, log := machine.emptyLog }

/-- The run that dispatching an event begins with. -/
def State.run (state : State) : Run :=
  { model := state.model, history := state.history, log := state.log }

/-- What the actions of a call see of it. -/
def Call.payload : Call → Json
  | .dispatch _ payload _ => payload
  | _ => .null

/-- From a leaf a machine settles: it takes a chain of automatic transitions and comes to rest
at its end.
-/
def Settles (machine : Machine) (occasion : Occasion) (run : Run) (leaf : String)
    (departures : List Departure) (final : Run) (last : String)
    : Prop :=
  ∃ later stop,
    machine.Chain occasion run leaf departures later stop
    ∧ machine.ChainEnd occasion (departures.map (·.leaf)).reverse later stop (.ok (final, last))

/-- What a successful call does, the transitions with targets that it takes, and what it
gives.
-/
inductive Course (machine : Machine) (state : State)
    : Call → List Departure → State × Outcome → Prop
  | start {time alternatives run leaf departures final last}
    (way : machine.Way .null machine.firstRun rootName alternatives run leaf)
    (arrived : machine.isLeafState leaf = true)
    (settles : machine.Settles ⟨.null, time⟩ run leaf departures final last)
    : Course machine state (.start time) departures (commit final last)
  | ignored {leaf event payload time}
    (active : state.active = some leaf)
    (unanswered : machine.answer? state leaf event payload = none)
    : Course machine state (.dispatch event payload time) [] (unchanged state leaf)
  | internal {leaf event payload time alternative run departures final last}
    (active : state.active = some leaf)
    (answered : machine.answer? state leaf event payload = some alternative)
    (internal : alternative.target = none)
    (acted : machine.act payload state.run alternative.action = .ok run)
    (settles : machine.Settles ⟨payload, time⟩ run leaf departures final last)
    : Course machine state (.dispatch event payload time) departures (commit final last)
  | moved {leaf event payload time alternative target run reached departures final last}
    (active : state.active = some leaf)
    (answered : machine.answer? state leaf event payload = some alternative)
    (aims : alternative.target = some target)
    (taken
      : machine.take ⟨payload, time⟩ state.run leaf event alternative = .ok (run, reached))
    (settles : machine.Settles ⟨payload, time⟩ run reached departures final last)
    : Course machine state (.dispatch event payload time)
        (⟨leaf, Chart.targetState target, reached, run⟩ :: departures) (commit final last)

section Dispatch

variable {machine : Machine} {state : State} {leaf event : String} {payload : Json}
  {time : Instant}

theorem dispatch_reserved (reserved : event = entryEvent)
    : machine.dispatch state event payload time = .error (.reservedEvent event) := by
  rw [dispatch, if_pos reserved]

theorem dispatch_uninitialized (sent : event ≠ entryEvent) (inactive : state.active = none)
    : machine.dispatch state event payload time = .error .notInitialized := by
  simp only [dispatch, if_neg sent, inactive]

theorem dispatch_unanswered (sent : event ≠ entryEvent) (active : state.active = some leaf)
    (unanswered : machine.answer? state leaf event payload = none)
    : machine.dispatch state event payload time = .ok (unchanged state leaf) := by
  simp only [dispatch, if_neg sent, active]
  cases handler : machine.handler? leaf event with
  | none => rfl
  | some transition =>
      have unselected : transition.select? state.model payload machine.settings = none := by
        simpa [answer?, handler] using unanswered
      simp only [unselected]

theorem dispatch_answered {alternative : Alternative} (sent : event ≠ entryEvent)
    (active : state.active = some leaf)
    (answered : machine.answer? state leaf event payload = some alternative)
    : machine.dispatch state event payload time
      = (machine.take ⟨payload, time⟩ state.run leaf event alternative >>= fun taken =>
          machine.settle ⟨payload, time⟩ taken.1 [] taken.2 >>= fun settled =>
            .ok (commit settled.1 settled.2)) := by
  obtain ⟨transition, handler, selected⟩ := Option.bind_eq_some_iff.mp answered
  simp only [dispatch, if_neg sent, active, handler, selected]
  rfl

/-- Only an event that may be sent, to a machine that is initialized, is dispatched. -/
theorem sent_of_dispatch {result : State × Outcome}
    (dispatched : machine.dispatch state event payload time = .ok result)
    : event ≠ entryEvent ∧ ∃ leaf, state.active = some leaf := by
  have sent : event ≠ entryEvent := by
    intro reserved
    rw [dispatch_reserved reserved] at dispatched
    cases dispatched
  refine ⟨sent, ?_⟩
  cases active : state.active with
  | none =>
      rw [dispatch_uninitialized sent active] at dispatched
      cases dispatched
  | some leaf => exact ⟨leaf, rfl⟩

end Dispatch

theorem settles_of_settle {machine : Machine} {occasion : Occasion} {run final : Run}
    {leaf last : String} (settled : machine.settle occasion run [] leaf = .ok (final, last))
    : ∃ departures, machine.Settles occasion run leaf departures final last := by
  obtain ⟨departures, later, stop, chain, ended⟩ := machine.exists_chain occasion run [] leaf
  rw [settled, List.append_nil] at ended
  exact ⟨departures, later, stop, chain, ended⟩

/-- The way down from the root of a machine that is started. -/
theorem exists_first_way (machine : Machine)
    : ∃ alternatives later last,
        machine.Way .null machine.firstRun rootName alternatives later last
        ∧ machine.DescentEnd .null later last
            (machine.descend .null machine.firstRun rootName) :=
  exists_way machine.wellFormed.has_root (History.all_empty _)

/-- A start that succeeds has a course. -/
theorem course_of_start {machine : Machine} (state : State) {time : Instant}
    {result : State × Outcome} (started : machine.start time = .ok result)
    : ∃ departures, machine.Course state (.start time) departures result := by
  obtain ⟨⟨run, leaf⟩, descended, started⟩ := bind_eq_ok_iff.mp started
  obtain ⟨⟨final, last⟩, settled, started⟩ := bind_eq_ok_iff.mp started
  cases started
  obtain ⟨alternatives, later, stop, way, ended⟩ := machine.exists_first_way
  rw [show machine.descend .null machine.firstRun rootName = .ok (run, leaf) from descended]
    at ended
  cases ended with
  | leaf arrived =>
      obtain ⟨departures, settles⟩ := settles_of_settle settled
      exact ⟨departures, .start way arrived settles⟩

/-- A dispatch that succeeds has a course: nothing answers the event, or an alternative without
a target does, or one with a target.
-/
theorem course_of_dispatch {machine : Machine} {state : State} {event : String}
    {payload : Json} {time : Instant} {result : State × Outcome}
    (dispatched : machine.dispatch state event payload time = .ok result)
    : ∃ departures, machine.Course state (.dispatch event payload time) departures result := by
  obtain ⟨sent, leaf, active⟩ := sent_of_dispatch dispatched
  cases answered : machine.answer? state leaf event payload with
  | none =>
      rw [dispatch_unanswered sent active answered] at dispatched
      cases dispatched
      exact ⟨[], .ignored active answered⟩
  | some alternative =>
      rw [dispatch_answered sent active answered] at dispatched
      obtain ⟨⟨run, reached⟩, taken, dispatched⟩ := bind_eq_ok_iff.mp dispatched
      obtain ⟨⟨final, last⟩, settled, dispatched⟩ := bind_eq_ok_iff.mp dispatched
      cases dispatched
      obtain ⟨departures, settles⟩ := settles_of_settle settled
      cases aims : alternative.target with
      | none =>
          rw [take_internal aims] at taken
          obtain ⟨next, acted, same⟩ := map_eq_ok_iff.mp taken
          cases same
          exact ⟨departures, .internal active answered aims acted settles⟩
      | some target => exact ⟨_, .moved active answered aims taken settles⟩

-----------------------------------------------------------------------------------------
-- A call has one course
-----------------------------------------------------------------------------------------

theorem Enters.unique {machine : Machine} {payload : Json} {run next next' : Run}
    {state reached reached' : String} {alternative alternative' : Alternative}
    (step : machine.Enters payload run state alternative next reached)
    (step' : machine.Enters payload run state alternative' next' reached')
    : next = next' ∧ reached = reached' := by
  obtain rfl := Option.some.inj (step.chosen.symm.trans step'.chosen)
  obtain rfl := Except.ok.inj (step.acted.symm.trans step'.acted)
  obtain ⟨target, aims, _, rfl⟩ := step.lands
  obtain ⟨target', aims', _, rfl⟩ := step'.lands
  obtain rfl := Option.some.inj (aims.symm.trans aims')
  exact ⟨rfl, rfl⟩

theorem Enters.not_leaf {machine : Machine} {payload : Json} {run next : Run}
    {state reached : String} {alternative : Alternative}
    (step : machine.Enters payload run state alternative next reached)
    : machine.isLeafState state = false := by
  have compound := step.compound
  simp only [Outline.isCompound, Bool.not_eq_true'] at compound
  simp [isLeafState, compound]

/-- There is one way from a state to a leaf, by induction on one of two. -/
theorem Way.unique {machine : Machine} {payload : Json} {run later later' : Run}
    {state last last' : String} {alternatives alternatives' : List Alternative}
    (way : machine.Way payload run state alternatives later last)
    (way' : machine.Way payload run state alternatives' later' last')
    (arrived : machine.isLeafState last = true) (arrived' : machine.isLeafState last' = true)
    : later = later' ∧ last = last' := by
  induction way generalizing alternatives' with
  | here =>
      cases way' with
      | here => exact ⟨rfl, rfl⟩
      | enter step _ => simp [step.not_leaf] at arrived
  | enter step _ ih =>
      cases way' with
      | here => simp [step.not_leaf] at arrived'
      | enter step' rest' =>
          obtain ⟨rfl, rfl⟩ := step.unique step'
          exact ih rest' arrived

/-- There is one way to settle, by induction on one chain of two. -/
theorem Settles.unique {machine : Machine} {occasion : Occasion} {run final final' : Run}
    {leaf last last' : String} {departures departures' : List Departure}
    (settles : machine.Settles occasion run leaf departures final last)
    (settles' : machine.Settles occasion run leaf departures' final' last')
    : departures = departures' := by
  obtain ⟨later, stop, chain, ended⟩ := settles
  obtain ⟨later', stop', chain', ended'⟩ := settles'
  have rests {alternative}
      (chosen : machine.automatic? occasion.payload later stop = some alternative)
      : alternative.target = none :=
    ended.rests chosen
  have rests' {alternative}
      (chosen : machine.automatic? occasion.payload later' stop' = some alternative)
      : alternative.target = none :=
    ended'.rests chosen
  clear ended ended'
  induction chain generalizing departures' with
  | here =>
      cases chain' with
      | here => rfl
      | leave chosen aims => simp [rests chosen] at aims
  | leave chosen aims taken _ ih =>
      cases chain' with
      | here => simp [rests' chosen] at aims
      | leave chosen' aims' taken' rest' =>
          obtain rfl := Option.some.inj (chosen.symm.trans chosen')
          obtain rfl := Option.some.inj (aims.symm.trans aims')
          obtain ⟨rfl, rfl⟩ := Prod.mk.inj (Except.ok.inj (taken.symm.trans taken'))
          rw [ih rest' rests]

/-- The departures of a call are determined by the state that it starts from. -/
theorem Course.unique {machine : Machine} {state : State} {call : Call}
    {departures departures' : List Departure} {result result' : State × Outcome}
    (course : machine.Course state call departures result)
    (course' : machine.Course state call departures' result')
    : departures = departures' := by
  cases course with
  | start way arrived settles =>
      cases course' with
      | start way' arrived' settles' =>
          obtain ⟨rfl, rfl⟩ := way.unique way' arrived arrived'
          exact settles.unique settles'
  | ignored active unanswered =>
      cases course' with
      | ignored => rfl
      | internal active' answered' | moved active' answered' =>
          obtain rfl := Option.some.inj (active.symm.trans active')
          simp [unanswered] at answered'
  | internal active answered internal acted settles =>
      cases course' with
      | ignored active' unanswered' =>
          obtain rfl := Option.some.inj (active.symm.trans active')
          simp [unanswered'] at answered
      | internal active' answered' internal' acted' settles' =>
          obtain rfl := Option.some.inj (active.symm.trans active')
          obtain rfl := Option.some.inj (answered.symm.trans answered')
          obtain rfl := Except.ok.inj (acted.symm.trans acted')
          exact settles.unique settles'
      | moved active' answered' aims' =>
          obtain rfl := Option.some.inj (active.symm.trans active')
          obtain rfl := Option.some.inj (answered.symm.trans answered')
          simp [internal] at aims'
  | moved active answered aims taken settles =>
      cases course' with
      | ignored active' unanswered' =>
          obtain rfl := Option.some.inj (active.symm.trans active')
          simp [unanswered'] at answered
      | internal active' answered' internal' =>
          obtain rfl := Option.some.inj (active.symm.trans active')
          obtain rfl := Option.some.inj (answered.symm.trans answered')
          simp [internal'] at aims
      | moved active' answered' aims' taken' settles' =>
          obtain rfl := Option.some.inj (active.symm.trans active')
          obtain rfl := Option.some.inj (answered.symm.trans answered')
          obtain rfl := Option.some.inj (aims.symm.trans aims')
          obtain ⟨rfl, rfl⟩ := Prod.mk.inj (Except.ok.inj (taken.symm.trans taken'))
          rw [settles.unique settles']

/-- A door that is wide open or ajar, or shut, and opens as far as it was before. -/
def doorChart : Chart where
  states := .compound "open" (.leaf "wide" (.leaf "ajar" .nil)) (.leaf "shut" .nil)
  transitions :=
    [⟨rootName, none, .always (some "open") none⟩,
      ⟨"open", none, .always (some "wide") none⟩,
      ⟨"wide", some "push", .always (some "ajar") none⟩,
      ⟨"open", some "close", .always (some "shut") none⟩,
      ⟨"shut", some "pull", .always (some (historyOf "open")) none⟩]

def door : Machine where
  chart := doorChart
  outline :=
    ⟨[⟨rootName, []⟩, ⟨"open", [rootName]⟩, ⟨"wide", ["open", rootName]⟩,
      ⟨"ajar", ["open", rootName]⟩, ⟨"shut", [rootName]⟩]⟩
  accepted := rfl
  initialModel := .null
  settings := .null

/-- A door that keeps one record only. -/
def forgetfulDoor : Machine :=
  { door with capacity := some 1 }

def noon : Instant :=
  ⟨⟨2024, 1, 1, by decide⟩, 720, 0, 0, by decide, by decide, by decide⟩

end Machine

end Statechart
