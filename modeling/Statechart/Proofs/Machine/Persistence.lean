import Statechart.Proofs.Machine.Passage
import Statechart.Proofs.Memory.Rereading
import Statechart.Proofs.Patch.Exactness

/-! What a machine remembers can be written down and read back. As long as the values that actions
write are exact, every model that calls lead to is; so a checkpoint is read back from its text as
it is, unless actions have nested the model deeper than the reader goes.
-/

namespace Statechart

/-- A value that an action writes when it is run on a model. -/
def Action.Writes (action : Action) (model payload settings value : Json) : Prop :=
  ∃ edit ∈ (action.run model payload settings).update, edit.written? = some value

/-- A run whose model is exact and whose log can be counted. -/
structure Run.Writable (run : Run) : Prop where
  model : run.model.Exact
  log : run.log.Counted

theorem Log.Counted.record {log : Log} (counted : log.Counted) (record : LogRecord)
    : (log.record record).Counted := by
  have same : (log.record record).capacity = log.capacity := by
    unfold Log.record
    split <;> rfl
  intro capacity bound
  exact counted capacity (same ▸ bound)

namespace Machine

/-- A state whose model is exact and whose log can be counted. -/
structure State.Writable (state : State) : Prop where
  model : state.model.Exact
  log : state.log.Counted

-----------------------------------------------------------------------------------------
-- Where actions run
-----------------------------------------------------------------------------------------

/-- All values that the action of an alternative writes on the model of a run are exact. -/
def ActsExactly (machine : Machine) (payload : Json) (run : Run) (alternative : Alternative)
    : Prop :=
  ∀ action value,
    alternative.action = some action
    → action.Writes run.model payload machine.settings value
    → value.Exact

/-- So are those of every alternative by which one of some states is entered. -/
def EntersExactly (machine : Machine) (payload : Json) (entered : Run → String → Prop) : Prop :=
  ∀ run name alternative,
    entered run name
    → machine.outline.isCompound name = true
    → machine.automatic? payload run name = some alternative
    → machine.ActsExactly payload run alternative

theorem EntersExactly.mono {machine : Machine} {payload : Json} {all entered : Run → String → Prop}
    (exactly : machine.EntersExactly payload all)
    (included : ∀ run name, entered run name → all run name)
    : machine.EntersExactly payload entered :=
  fun run name alternative point => exactly run name alternative (included run name point)

/-- All values that actions write in settling from a leaf are exact: those of automatic
transitions, and those of entering the states that they lead to.
-/
structure SettlesExactly (machine : Machine) (occasion : Occasion) (run : Run) (leaf : String)
    : Prop where
  acts
    : ∀ departures later last alternative,
        machine.Chain occasion run leaf departures later last
        → machine.automatic? occasion.payload later last = some alternative
        → machine.ActsExactly occasion.payload later alternative
  enters : machine.EntersExactly occasion.payload (machine.SettlesInto occasion run leaf)

section Steps

variable {machine : Machine} {payload : Json} {run next later : Run}

/-- An action that writes exact values on an exact model gives an exact model. -/
theorem act_writable {alternative : Alternative} (before : run.Writable)
    (exactly : machine.ActsExactly payload run alternative)
    (acted : machine.act payload run alternative.action = .ok next)
    : next.Writable := by
  have sameLog : next.log = run.log := (act_keeps acted).2
  refine ⟨?_, sameLog ▸ before.log⟩
  cases acts : alternative.action with
  | none =>
      rw [acts] at acted
      cases acted
      exact before.model
  | some action =>
      rw [acts] at acted
      obtain ⟨model, updated, rfl⟩ := act_some_eq_ok_iff.mp acted
      obtain ⟨changes, checked, ran⟩ := bind_eq_ok_iff.mp updated
      refine Patch.exact_of_edits before.model ?_ checked ran
      intro edit member value written
      exact exactly action value acts ⟨edit, member, written⟩

/-- A way down keeps the run writable, by induction on the way. -/
theorem Way.writable {name last : String} {alternatives : List Alternative}
    (way : machine.Way payload run name alternatives later last) (before : run.Writable)
    (exactly
      : machine.EntersExactly payload
          (fun middle state =>
            ∃ alternatives, machine.Way payload run name alternatives middle state))
    : later.Writable := by
  induction way with
  | here => exact before
  | enter step _ ih =>
      have acts := exactly _ _ _ ⟨[], .here⟩ step.compound step.chosen
      refine ih (act_writable before acts step.acted) (exactly.mono ?_)
      rintro middle state ⟨alternatives, way⟩
      exact ⟨_, .enter step way⟩

end Steps

section Calls

variable {machine : Machine} {occasion : Occasion} {run after later final : Run}
  {leaf reached last : String}

/-- Taking an alternative keeps the run writable: its action and then those on the way down. -/
theorem take_writable {event : String} {alternative : Alternative}
    (declared : machine.Declares alternative) (recalls : machine.Recalls run.history)
    (isLeaf : machine.isLeafState leaf = true) (before : run.Writable)
    (acts : machine.ActsExactly occasion.payload run alternative)
    (enters
      : machine.EntersExactly occasion.payload
          (machine.LeadsTo occasion.payload run leaf alternative))
    (taken : machine.take occasion run leaf event alternative = .ok (after, reached))
    : after.Writable := by
  cases aims : alternative.target with
  | none =>
      rw [take_internal aims] at taken
      obtain ⟨next, acted, same⟩ := map_eq_ok_iff.mp taken
      obtain ⟨rfl, rfl⟩ := Prod.mk.inj same
      exact act_writable before acts acted
  | some target =>
      obtain ⟨next, alternatives, later, departs, way, _, rfl⟩ :=
        take_ok declared aims recalls isLeaf taken
      have left : (machine.recordExits run leaf (Chart.targetState target)).Writable :=
        ⟨before.model, before.log⟩
      have departed : next.Writable := act_writable left acts departs.acted
      have arrived : later.Writable := by
        refine way.writable departed (enters.mono ?_)
        rintro middle state ⟨alternatives, way⟩
        exact .down departs way
      exact ⟨arrived.model, arrived.log.record _⟩

/-- A chain of departures keeps the run writable, by induction on the chain. -/
theorem Chain.writable {departures : List Departure}
    (chain : machine.Chain occasion run leaf departures later last)
    (recalls : machine.Recalls run.history) (isLeaf : machine.isLeafState leaf = true)
    (before : run.Writable) (exactly : machine.SettlesExactly occasion run leaf)
    : later.Writable := by
  induction chain with
  | here => exact before
  | leave chosen aims taken _ ih =>
      have declared := declares_of_automatic? chosen
      obtain ⟨told, arrived⟩ :=
        take_keeps machine.memorable_tellsLeaf declared recalls isLeaf taken
      have after := by
        refine take_writable declared recalls isLeaf before (exactly.acts _ _ _ _ .here chosen)
          (exactly.enters.mono ?_) taken
        exact fun middle state leads => .after .here chosen leads
      -- What the rest of the chain acts on and enters, the whole chain does.
      refine ih told arrived after ⟨?_, exactly.enters.mono ?_⟩
      · intro _ middle stop alternative chain
        exact exactly.acts _ middle stop alternative (.leave chosen aims taken chain)
      · intro middle state settles
        cases settles with
        | after chain chosen' leads => exact .after (.leave chosen aims taken chain) chosen' leads

/-- Settling keeps the run writable: its chain and then the action at the end of it. -/
theorem Settles.writable {departures : List Departure}
    (settles : machine.Settles occasion run leaf departures final last)
    (recalls : machine.Recalls run.history) (isLeaf : machine.isLeafState leaf = true)
    (before : run.Writable) (exactly : machine.SettlesExactly occasion run leaf)
    : final.Writable := by
  obtain ⟨later, stop, chain, ended⟩ := settles
  have after := chain.writable recalls isLeaf before exactly
  obtain ⟨_, ⟨_, rfl⟩ | ⟨alternative, chosen, _, acted⟩⟩ := ended.ok_cases
  · exact after
  · exact act_writable after (exactly.acts _ _ _ _ chain chosen) acted

end Calls

-----------------------------------------------------------------------------------------
-- What calls write
-----------------------------------------------------------------------------------------

/-- The values that actions write in a call: those of the alternatives that it takes, and those of
the alternatives by which it enters states.
-/
inductive Writes (machine : Machine) (state : State) (call : Call) (value : Json) : Prop
  | taken {occasion run leaf event alternative action}
    (takes : machine.Takes state call occasion run leaf event alternative)
    (acts : alternative.action = some action)
    (writes : action.Writes run.model occasion.payload machine.settings value)
  | entered {run name alternative action}
    (entered : machine.Entered state call run name)
    (compound : machine.outline.isCompound name = true)
    (chosen : machine.automatic? call.payload run name = some alternative)
    (acts : alternative.action = some action)
    (writes : action.Writes run.model call.payload machine.settings value)

section Exactly

variable {machine : Machine} {state : State} {call : Call}

theorem entersExactly_of_writes (exact : ∀ value, machine.Writes state call value → value.Exact)
    : machine.EntersExactly call.payload (machine.Entered state call) :=
  fun _ _ _ entered compound chosen _ value acts writes =>
    exact value (.entered entered compound chosen acts writes)

theorem actsExactly_of_writes (exact : ∀ value, machine.Writes state call value → value.Exact)
    {occasion : Occasion} {run : Run} {leaf event : String} {alternative : Alternative}
    (takes : machine.Takes state call occasion run leaf event alternative)
    : machine.ActsExactly occasion.payload run alternative :=
  fun _ value acts writes => exact value (.taken takes acts writes)

/-- From where a call settles, all that its actions write is exact as well. -/
theorem SettlesFrom.exactly {occasion : Occasion} {run : Run} {leaf : String}
    (settling : machine.SettlesFrom state call occasion run leaf)
    (exact : ∀ value, machine.Writes state call value → value.Exact)
    : machine.SettlesExactly occasion run leaf := by
  have enters := entersExactly_of_writes exact
  constructor
  · intro departures later last alternative chain chosen
    exact actsExactly_of_writes exact (.automatic settling chain chosen)
  · cases settling with
    | started way arrived =>
        exact enters.mono (fun _ _ settles => .started way arrived settles)
    | dispatched sent active answer taken =>
        exact enters.mono (fun _ _ settles => .dispatched active answer taken settles)

/-- So a run that is writable when the call settles is writable when it ends. -/
theorem SettlesFrom.writable {occasion : Occasion} {run final : Run} {leaf last : String}
    (settling : machine.SettlesFrom state call occasion run leaf)
    (exact : ∀ value, machine.Writes state call value → value.Exact)
    (poised : machine.Poised machine.TellsLeaf state) (before : run.Writable)
    (settled : machine.settle occasion run [] leaf = .ok (final, last))
    : (commit final last).1.Writable := by
  obtain ⟨told, isLeaf⟩ := settling.told machine.memorable_tellsLeaf poised
  obtain ⟨departures, settles⟩ := settles_of_settle settled
  have ended := settles.writable told isLeaf before (settling.exactly exact)
  exact ⟨ended.model, ended.log⟩

/-- A start that succeeds gives a writable state, if the machine begins with a writable run. -/
theorem start_writable {time : Instant} {result : State × Outcome}
    (first : machine.firstRun.Writable)
    (exact : ∀ value, machine.Writes state (.start time) value → value.Exact)
    (poised : machine.Poised machine.TellsLeaf state) (started : machine.start time = .ok result)
    : result.1.Writable := by
  obtain ⟨⟨run, leaf⟩, descended, started⟩ := bind_eq_ok_iff.mp started
  obtain ⟨⟨final, last⟩, settled, started⟩ := bind_eq_ok_iff.mp started
  cases started
  obtain ⟨alternatives, later, stop, way, ended⟩ := machine.exists_first_way
  rw [show machine.descend .null machine.firstRun rootName = .ok (run, leaf) from descended]
    at ended
  cases ended with
  | leaf arrived =>
      have entered : run.Writable := by
        refine way.writable first ((entersExactly_of_writes exact).mono ?_)
        rintro middle name ⟨alternatives, way⟩
        exact .first way
      exact SettlesFrom.writable (.started way arrived) exact poised entered settled

/-- A dispatch that succeeds keeps a state writable. -/
theorem dispatch_writable {event : String} {payload : Json} {time : Instant}
    {result : State × Outcome} (before : state.Writable)
    (exact : ∀ value, machine.Writes state (.dispatch event payload time) value → value.Exact)
    (poised : machine.Poised machine.TellsLeaf state)
    (dispatched : machine.dispatch state event payload time = .ok result)
    : result.1.Writable := by
  obtain ⟨sent, leaf, active⟩ := sent_of_dispatch dispatched
  cases answered : machine.answer? state leaf event payload with
  | none =>
      rw [dispatch_unanswered sent active answered] at dispatched
      cases dispatched
      exact before
  | some alternative =>
      rw [dispatch_answered sent active answered] at dispatched
      obtain ⟨⟨run, reached⟩, taken, dispatched⟩ := bind_eq_ok_iff.mp dispatched
      obtain ⟨⟨final, last⟩, settled, dispatched⟩ := bind_eq_ok_iff.mp dispatched
      cases dispatched
      have declared := declares_of_answer? answered
      have recalls : machine.Recalls state.run.history := poised.history
      have begun : state.run.Writable := ⟨before.model, before.log⟩
      have acts := actsExactly_of_writes exact (.answered sent active answered)
      have left : run.Writable := by
        refine take_writable declared recalls (poised.active _ active) begun acts
          ((entersExactly_of_writes exact).mono ?_) taken
        exact fun _ _ leads => .answered active answered leads
      exact SettlesFrom.writable (.dispatched sent active answered taken) exact poised left settled

/-- Every call keeps a state writable, if all that actions write in it is exact and it resumes no
checkpoint but a writable one.
-/
theorem perform_writable (first : machine.firstRun.Writable) (before : state.Writable)
    (poised : machine.Poised machine.TellsLeaf state)
    (exact : ∀ value, machine.Writes state call value → value.Exact)
    (resumes : ∀ checkpoint, call = .resume checkpoint → checkpoint.Writable)
    : (machine.perform state call).1.Writable := by
  cases call with
  | start time =>
      cases started : machine.start time with
      | error failure => simpa only [perform, started, conclude] using before
      | ok result =>
          simpa only [perform, started, conclude] using start_writable first exact poised started
  | dispatch event payload time =>
      cases dispatched : machine.dispatch state event payload time with
      | error failure => simpa only [perform, dispatched, conclude] using before
      | ok result =>
          simpa only [perform, dispatched, conclude]
            using dispatch_writable before exact poised dispatched
  | resume checkpoint =>
      cases accepted : machine.resume checkpoint with
      | error error => simpa only [perform, accepted] using before
      | ok next =>
          obtain ⟨_, _, rfl⟩ := resume_ok accepted
          have writable := resumes checkpoint rfl
          simpa only [perform, accepted] using State.Writable.mk writable.model writable.log

end Exactly

/-- What actions write in a list of calls, each made where the ones before it lead. -/
def WritesAll (machine : Machine) (state : State) (calls : List Call) (value : Json) : Prop :=
  ∃ earlier call later,
    calls = earlier ++ call :: later
    ∧ machine.Writes (machine.performAll state earlier).1 call value

/-- Calls keep a state writable, by induction on them. -/
theorem performAll_writable {machine : Machine} {state : State} {calls : List Call}
    (first : machine.firstRun.Writable) (before : state.Writable)
    (poised : machine.Poised machine.TellsLeaf state)
    (exact : ∀ value, machine.WritesAll state calls value → value.Exact)
    (resumes : ∀ checkpoint, .resume checkpoint ∈ calls → checkpoint.Writable)
    : (machine.performAll state calls).1.Writable := by
  induction calls generalizing state with
  | nil => exact before
  | cons call calls ih =>
      refine ih ?_ ?_ ?_ ?_
      · refine perform_writable first before poised ?_ ?_
        · exact fun value writes => exact value ⟨[], call, calls, rfl, writes⟩
        · rintro checkpoint rfl
          exact resumes checkpoint List.mem_cons_self
      · exact perform_poised machine.memorable_tellsLeaf poised
          (fun _ _ _ accepted => resume_poised accepted)
      · rintro value ⟨earlier, next, later, rfl, writes⟩
        exact exact value ⟨call :: earlier, next, later, rfl, writes⟩
      · exact fun checkpoint member => resumes checkpoint (List.mem_cons_of_mem _ member)

/-- So a checkpoint that is taken after calls is writable, and holds the model of the machine. -/
theorem checkpoint_writable {machine : Machine} {calls : List Call} {id : String}
    {time : Instant} {checkpoint : Checkpoint} (initial : machine.initialModel.Exact)
    (counted : machine.emptyLog.Counted)
    (exact : ∀ value, machine.WritesAll machine.fresh calls value → value.Exact)
    (resumes : ∀ other, .resume other ∈ calls → other.Writable)
    (taken : Machine.checkpoint (machine.after calls) id time = .ok checkpoint)
    : checkpoint.Writable ∧ checkpoint.model = (machine.after calls).model := by
  have written : (machine.after calls).Writable :=
    performAll_writable ⟨initial, counted⟩ ⟨initial, counted⟩ (machine.poised_fresh _) exact
      resumes
  have version : Checkpoint.currentVersion < Checkpoint.versionBound := by decide
  unfold Machine.checkpoint at taken
  split at taken
  · cases taken
  · cases taken
    exact ⟨⟨version, written.model, written.log⟩, rfl⟩

/-- A checkpoint is read back from its text as it is, unless its model nests too deep: after any
calls of a machine that begins with an exact model, in which actions write exact values only and
checkpoints that are resumed are writable themselves.
-/
theorem checkpoint_rereads (machine : Machine) (calls : List Call) (id : String) (time : Instant)
    (checkpoint : Checkpoint) (initial : machine.initialModel.Exact)
    (counted : machine.emptyLog.Counted)
    (exact : ∀ value, machine.WritesAll machine.fresh calls value → value.Exact)
    (resumes : ∀ other, .resume other ∈ calls → other.Writable)
    (taken : Machine.checkpoint (machine.after calls) id time = .ok checkpoint)
    : Checkpoint.ofText checkpoint.text
      = if (machine.after calls).model.nesting ≤ Json.depthLimit - 1 then .ok checkpoint
        else .error .unreadable := by
  obtain ⟨writable, same⟩ := checkpoint_writable initial counted exact resumes taken
  rw [← same]
  exact Checkpoint.ofText_text writable

-----------------------------------------------------------------------------------------
-- A model that is nested too deep
-----------------------------------------------------------------------------------------

/-- Puts the model into itself as a member, so many times. -/
def wrap (name : String) (times : Nat) : Action where
  name
  run _ _ _ := { update := List.replicate times (Edit.copy "" "/in") }

/-- A tower that is built up of itself, by one storey or by many. -/
def towerChart : Chart where
  states := .leaf "tower" .nil
  transitions :=
    [⟨rootName, none, .always (some "tower") none⟩,
      ⟨"tower", some "grow", .always none (some (wrap "wrap" 1))⟩,
      ⟨"tower", some "soar", .always none (some (wrap "wrapOften" 126))⟩]

def tower : Machine where
  chart := towerChart
  outline := ⟨[⟨rootName, []⟩, ⟨"tower", [rootName]⟩]⟩
  accepted := rfl
  initialModel := .object []
  settings := .null

theorem exact_tower : tower.initialModel.Exact :=
  .object List.nodup_nil (fun _ member => nomatch member)

theorem counted_tower : tower.emptyLog.Counted :=
  fun _ bound => nomatch bound

/-- The actions of a tower copy its model and write nothing. -/
theorem not_writes_tower {alternative : Alternative} {action : Action}
    {model payload settings value : Json} (declared : tower.Declares alternative)
    (acts : alternative.action = some action)
    : ¬ action.Writes model payload settings value := by
  have wraps : ∃ name times, action = wrap name times := by
    obtain ⟨transition, listed, offered⟩ := declared
    simp only [tower, towerChart, List.mem_cons, List.not_mem_nil, or_false] at listed
    rcases listed with rfl | rfl | rfl
    all_goals
      obtain rfl := List.mem_singleton.mp offered
      cases acts
    · exact ⟨_, _, rfl⟩
    · exact ⟨_, _, rfl⟩
  obtain ⟨name, times, rfl⟩ := wraps
  rintro ⟨edit, member, writes⟩
  obtain rfl := List.eq_of_mem_replicate member
  cases writes

theorem not_writesAll_tower (calls : List Call) (value : Json)
    : ¬ tower.WritesAll tower.fresh calls value := by
  rintro ⟨earlier, call, later, _, writes⟩
  cases writes with
  | taken takes acts writes => exact not_writes_tower takes.declared acts writes
  | entered entered compound chosen acts writes =>
      exact not_writes_tower (declares_of_automatic? chosen) acts writes

/-- What a tower remembers after an event that builds it up. -/
def raised (event : String) : State :=
  tower.after [.start noon, .dispatch event .null noon]

/-- A tower of two storeys is read back. -/
theorem grownTower_rereads
    : tower.initialModel.Exact
      ∧ ∃ checkpoint,
          Machine.checkpoint (raised "grow") "tower" noon = .ok checkpoint
          ∧ (raised "grow").model.nesting = 2
          ∧ Checkpoint.ofText checkpoint.text = .ok checkpoint := by
  have active : (raised "grow").active = some "tower" := by decide +kernel
  have storeys : (raised "grow").model.nesting = 2 := by decide +kernel
  have taken := checkpoint_of_active active "tower" noon
  have read := checkpoint_rereads tower [.start noon, .dispatch "grow" .null noon] "tower" noon _
    exact_tower counted_tower (fun value writes => absurd writes (not_writesAll_tower _ value))
    (by simp) taken
  have shallow : (raised "grow").model.nesting ≤ Json.depthLimit - 1 := by
    rw [storeys]
    decide
  exact ⟨exact_tower, _, taken, storeys, read.trans (if_pos shallow)⟩

/-- A tower that has soared is written without loss, and cannot be read back. -/
theorem soaredTower_unreadable
    : tower.initialModel.Exact
      ∧ (∀ value,
          ¬ tower.WritesAll tower.fresh [.start noon, .dispatch "soar" .null noon] value)
      ∧ ∃ checkpoint,
          Machine.checkpoint (raised "soar") "tower" noon = .ok checkpoint
          ∧ checkpoint.Writable
          ∧ Checkpoint.ofText checkpoint.text = .error .unreadable := by
  have active : (raised "soar").active = some "tower" := by decide +kernel
  have storeys : (raised "soar").model.nesting = 127 := by decide +kernel
  have taken := checkpoint_of_active active "tower" noon
  obtain ⟨writable, _⟩ := checkpoint_writable exact_tower counted_tower
    (fun value writes => absurd writes (not_writesAll_tower _ value)) (by simp) taken
  have deep : ¬ (raised "soar").model.nesting ≤ Json.depthLimit - 1 := by
    rw [storeys]
    decide
  exact ⟨exact_tower, not_writesAll_tower _, _, taken, writable,
    (Checkpoint.ofText_text writable).trans (if_neg deep)⟩

end Machine

end Statechart
