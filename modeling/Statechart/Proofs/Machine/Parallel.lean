import Statechart.Proofs.Machine.Invariant

/-! Two machines with the same states, routes and settings that are called alike, as machines of one
chart are. What they do depends on the model, the active leaf and the history that they start from,
and not on the initial model, the log or the time. Their logs stay in every relation that recording
keeps.
-/

namespace Statechart

/-- Records of the same change, at whatever times. -/
structure LogRecord.Alike (record other : LogRecord) : Prop where
  source : record.source = other.source
  target : record.target = other.target
  event : record.event = other.event

/-- A relation of logs that stays when the same change is recorded in both, at moments that are
related.
-/
def Log.Recording (moments : Instant → Instant → Prop) (logs : Log → Log → Prop) : Prop :=
  ∀ log other record record',
    logs log other
    → LogRecord.Alike record record'
    → moments record.timestamp record'.timestamp
    → logs (log.record record) (other.record record')

/-- Runs that are the same but for logs that are related. -/
structure Run.Alike (logs : Log → Log → Prop) (run other : Run) : Prop where
  model : run.model = other.model
  history : run.history = other.history
  outputs : run.outputs = other.outputs
  log : logs run.log other.log

namespace Machine

/-- Two machines of one chart whose functions see the same settings. -/
structure Matches (machine other : Machine) : Prop where
  chart : other.chart = machine.chart
  settings : other.settings = machine.settings

theorem Matches.outline {machine other : Machine} (same : machine.Matches other)
    : other.outline = machine.outline :=
  outline_eq_of_chart_eq same.chart

/-- Two machines with the same states, the same routes and the same settings. -/
structure Agrees (machine other : Machine) : Prop where
  outline : other.outline = machine.outline
  routes : ∀ state event, other.chart.route? state event = machine.chart.route? state event
  settings : other.settings = machine.settings

theorem Matches.agrees {machine other : Machine} (same : machine.Matches other)
    : machine.Agrees other :=
  ⟨same.outline, fun _ _ => by rw [same.chart], same.settings⟩

/-- Runs that are alike, at the same state. -/
structure PointAlike (logs : Log → Log → Prop) (point other : Run × String) : Prop where
  run : Run.Alike logs point.1 other.1
  state : point.2 = other.2

/-- States of machines that are the same but for logs that are related. -/
structure State.Alike (logs : Log → Log → Prop) (state other : State) : Prop where
  model : state.model = other.model
  active : state.active = other.active
  history : state.history = other.history
  log : logs state.log other.log

section Steps

variable {machine other : Machine} {logs : Log → Log → Prop} {payload : Json}
  {run run' : Run}

theorem act_alike (same : machine.Agrees other) (alike : Run.Alike logs run run')
    (action : Option Action)
    : Related (Run.Alike logs) (machine.act payload run action)
        (other.act payload run' action) := by
  cases action with
  | none => exact .ok alike
  | some action =>
      simp only [act, same.settings, ← alike.model]
      cases Patch.check (action.run run.model payload machine.settings).update with
      | error error => exact .error
      | ok changes =>
          simp only
          cases Patch.run changes run.model with
          | error error => exact .error
          | ok model =>
              refine .ok ⟨rfl, alike.history, ?_, alike.log⟩
              simp only [alike.outputs]

theorem resolve_alike (same : machine.Agrees other) (target : String)
    : other.resolve target = machine.resolve target := by
  simp only [resolve, same.outline]

theorem returnTo_alike (same : machine.Agrees other) (leaf : String)
    : other.returnTo leaf = machine.returnTo leaf := by
  simp only [returnTo, same.outline]

theorem remembered?_alike (alike : Run.Alike logs run run') (target state : String)
    : remembered? run' target state = remembered? run target state := by
  simp only [remembered?, alike.history]

/-- Going back from runs that are alike leads to the same leaf, or fails alike. -/
theorem returnTo_point_alike (same : machine.Agrees other) (alike : Run.Alike logs run run')
    (leaf : String)
    : Related (PointAlike logs) ((machine.returnTo leaf).map (fun leaf => (run, leaf)))
        ((other.returnTo leaf).map (fun leaf => (run', leaf))) := by
  rw [returnTo_alike same]
  cases machine.returnTo leaf with
  | ok leaf => exact .ok ⟨alike, rfl⟩
  | error failure => exact .error

/-- The way into a state: the target of the alternative that enters it, the state that this
leads to and the action on the way, or what is wrong with them.
-/
def entrance (machine : Machine) (payload : Json) (run : Run) (state : String)
    : Except Failure (String × String × Option Action) :=
  match machine.chart.route? state entryEvent with
  | none => .error (.chart (.missingEntry state))
  | some transition =>
      match transition.select? run.model payload machine.settings with
      | none => .error (.chart (.unresolvedEntry state))
      | some ⟨_, none, _⟩ => .error (.chart (.entryWithoutTarget state))
      | some ⟨_, some target, action⟩ => do
          let next ← machine.resolve target
          if machine.outline.contains state next then return (target, next, action)
          else .error (.chart (.entryOutside state target))

/-- The way into a state leads inside it. -/
theorem contains_of_entrance {state target next : String} {action : Option Action}
    (way : machine.entrance payload run state = .ok (target, next, action))
    : machine.outline.contains state next = true := by
  unfold entrance at way
  split at way
  · cases way
  split at way
  · cases way
  · cases way
  obtain ⟨found, _, way⟩ := bind_eq_ok_iff.mp way
  split at way
  · rename_i inside
    cases way
    exact inside
  · cases way

/-- Where a descent goes on from a state: at a leaf it ends, else it goes the way in. -/
theorem descend_eq (machine : Machine) (payload : Json) (run : Run) (state : String)
    : machine.descend payload run state
      = if machine.outline.isLeaf state then .ok (run, state)
        else
          machine.entrance payload run state >>= fun way =>
            machine.act payload run way.2.2 >>= fun run =>
              match remembered? run way.1 way.2.1 with
              | some leaf => (machine.returnTo leaf).map (fun leaf => (run, leaf))
              | none => machine.descend payload run way.2.1 := by
  rw [descend, route?_eq]
  split
  · rfl
  unfold entrance
  cases machine.chart.route? state entryEvent with
  | none => rfl
  | some transition =>
      cases selected : transition.select? run.model payload machine.settings with
      | none =>
          simp only [selected]
          rfl
      | some alternative =>
          obtain ⟨predicate, target, action⟩ := alternative
          cases target with
          | none =>
              simp only [selected]
              rfl
          | some target =>
              simp only [selected]
              cases machine.resolve target with
              | error failure => rfl
              | ok next =>
                  by_cases inside : machine.outline.contains state next = true
                  · simp only [dif_pos inside, if_pos inside, bind, Except.bind, pure, Except.pure]
                    cases machine.act payload run action <;> rfl
                  · simp only [dif_neg inside, if_neg inside, bind, Except.bind]

theorem entrance_alike (same : machine.Agrees other) (alike : Run.Alike logs run run')
    (state : String)
    : other.entrance payload run' state = machine.entrance payload run state := by
  simp only [entrance, same.routes, same.settings, same.outline, resolve_alike same, ← alike.model]

/-- Descents from runs that are alike end alike; by induction on how far down they can go. -/
theorem descend_alike (same : machine.Agrees other) (alike : Run.Alike logs run run')
    (state : String)
    : Related (PointAlike logs) (machine.descend payload run state)
        (other.descend payload run' state) := by
  induction left : machine.outline.height - machine.outline.depth state using Nat.strongRecOn
    generalizing run run' state with
  | ind left ih =>
      rw [descend_eq machine, descend_eq other, same.outline, entrance_alike same alike]
      split
      · exact .ok ⟨alike, rfl⟩
      cases way : machine.entrance payload run state with
      | error failure => exact .error
      | ok found =>
          obtain ⟨target, next, action⟩ := found
          refine (act_alike same alike action).bind (fun after after' alike => ?_)
          simp only [remembered?_alike alike]
          split
          · exact returnTo_point_alike same alike _
          · -- The way in leads deeper, so less is left below.
            have deeper := Outline.depth_lt_of_contains (contains_of_entrance way)
            have bound := machine.outline.depth_le_height next
            exact ih _ (by omega) alike next rfl

theorem arrive_alike (same : machine.Agrees other) (alike : Run.Alike logs run run')
    (target state : String)
    : Related (PointAlike logs) (machine.arrive payload run target state)
        (other.arrive payload run' target state) := by
  simp only [arrive, remembered?_alike alike]
  cases remembered? run target state with
  | some leaf => exact returnTo_point_alike same alike leaf
  | none => exact descend_alike same alike state

theorem recordExits_alike (same : machine.Agrees other) (alike : Run.Alike logs run run')
    (leaf state : String)
    : Run.Alike logs (machine.recordExits run leaf state) (other.recordExits run' leaf state) := by
  refine ⟨alike.model, ?_, alike.outputs, alike.log⟩
  simp only [recordExits, exited, same.outline, alike.history]

end Steps

section Calls

variable {machine other : Machine} {moments : Instant → Instant → Prop}
  {logs : Log → Log → Prop} {occasion occasion' : Occasion} {run run' : Run}

/-- Occasions with the same payload, at moments that are related. -/
structure Occasion.Alike (moments : Instant → Instant → Prop) (occasion other : Occasion)
    : Prop where
  payload : other.payload = occasion.payload
  moment : moments occasion.time other.time

/-- An alternative is taken alike at different times, which only the logs tell. -/
theorem take_alike (same : machine.Agrees other) (recording : Log.Recording moments logs)
    (together : Occasion.Alike moments occasion occasion') (alike : Run.Alike logs run run')
    (leaf event : String) (alternative : Alternative)
    : Related (PointAlike logs) (machine.take occasion run leaf event alternative)
        (other.take occasion' run' leaf event alternative) := by
  unfold take
  cases alternative.target with
  | none =>
      simp only [together.payload]
      exact (act_alike same alike _).map (fun _ _ alike => ⟨alike, rfl⟩)
  | some target =>
      simp only [together.payload, resolve_alike same]
      cases machine.resolve target with
      | error failure => exact .error
      | ok state =>
          have left := recordExits_alike same alike leaf state
          refine (act_alike same left _).bind (fun next next' alike => ?_)
          refine (arrive_alike same alike target state).bind ?_
          rintro ⟨later, last⟩ ⟨later', _⟩ ⟨alike, rfl⟩
          refine .ok ⟨⟨alike.model, alike.history, alike.outputs, ?_⟩, rfl⟩
          exact recording _ _ _ _ alike.log ⟨rfl, rfl, rfl⟩ together.moment

/-- Settling goes on alike; by induction on how many transitions are left to be taken. -/
theorem settle_alike (same : machine.Agrees other) (recording : Log.Recording moments logs)
    (together : Occasion.Alike moments occasion occasion') (alike : Run.Alike logs run run')
    (left : List String) (leaf : String)
    : Related (PointAlike logs) (machine.settle occasion run left leaf)
        (other.settle occasion' run' left leaf) := by
  induction size : (machine.remaining left).length using Nat.strongRecOn
    generalizing run run' left leaf with
  | ind size ih =>
      have offers
          : other.automatic? occasion'.payload run' leaf
            = machine.automatic? occasion.payload run leaf := by
        simp only [automatic?, same.routes, same.settings, together.payload, ← alike.model]
      rw [settle_eq machine, settle_eq other, offers]
      cases chosen : machine.automatic? occasion.payload run leaf with
      | none => exact .ok ⟨alike, rfl⟩
      | some alternative =>
          simp only [together.payload]
          split
          · exact (act_alike same alike _).map (fun _ _ alike => ⟨alike, rfl⟩)
          split
          · exact .error
          · rename_i fresh
            refine (take_alike same recording together alike leaf entryEvent alternative).bind ?_
            rintro ⟨after, next⟩ ⟨after', _⟩ ⟨alike, rfl⟩
            -- The leaf is left for the first time, so its transition is left no more.
            obtain ⟨transition, route, _⟩ := Option.bind_eq_some_iff.mp chosen
            rw [← route?_eq] at route
            have fewer := remaining_length_lt route (by simpa using fresh)
            exact ih _ (size ▸ fewer) alike (leaf :: left) next rfl

/-- Results of calls that end alike: states that are alike, and the same outcome. -/
structure ResultAlike (logs : Log → Log → Prop) (result other : State × Outcome) : Prop where
  state : State.Alike logs result.1 other.1
  outcome : result.2 = other.2

theorem commit_alike (alike : Run.Alike logs run run') (leaf : String)
    : ResultAlike logs (commit run leaf) (commit run' leaf) := by
  refine ⟨⟨alike.model, rfl, alike.history, alike.log⟩, ?_⟩
  simp only [commit, alike.model, alike.outputs]

/-- Two machines that begin anew alike: with the same model, and with logs that are related. -/
structure BeginsAlike (logs : Log → Log → Prop) (machine other : Machine) : Prop where
  model : other.initialModel = machine.initialModel
  log : logs machine.emptyLog other.emptyLog

/-- Starts end alike, whatever the machines did before. -/
theorem start_alike {time time' : Instant} (same : machine.Agrees other)
    (recording : Log.Recording moments logs) (begins : BeginsAlike logs machine other)
    (moment : moments time time')
    : Related (ResultAlike logs) (machine.start time) (other.start time') := by
  have begun : Run.Alike logs machine.firstRun other.firstRun :=
    ⟨begins.model.symm, rfl, rfl, begins.log⟩
  have together : Occasion.Alike moments ⟨.null, time⟩ ⟨.null, time'⟩ := ⟨rfl, moment⟩
  refine (descend_alike same begun rootName).bind ?_
  rintro ⟨run, leaf⟩ ⟨run', _⟩ ⟨alike, rfl⟩
  refine (settle_alike same recording together alike [] leaf).bind ?_
  rintro ⟨final, last⟩ ⟨final', _⟩ ⟨alike, rfl⟩
  exact .ok (commit_alike alike last)

/-- A dispatch of the same event and payload ends alike from states that are alike. -/
theorem dispatch_alike {state state' : State} {time time' : Instant}
    (same : machine.Agrees other) (recording : Log.Recording moments logs)
    (alike : State.Alike logs state state') (moment : moments time time') (event : String)
    (payload : Json)
    : Related (ResultAlike logs) (machine.dispatch state event payload time)
        (other.dispatch state' event payload time') := by
  by_cases reserved : event = entryEvent
  · rw [dispatch_reserved reserved, dispatch_reserved reserved]
    exact .error
  cases active : state.active with
  | none =>
      rw [dispatch_uninitialized reserved active,
        dispatch_uninitialized reserved (alike.active.symm.trans active)]
      exact .error
  | some leaf =>
      have active' : state'.active = some leaf := alike.active.symm.trans active
      have answers
          : other.answer? state' leaf event payload = machine.answer? state leaf event payload := by
        simp only [answer?, handler?_eq, same.outline, same.routes, same.settings, ← alike.model]
      cases answered : machine.answer? state leaf event payload with
      | none =>
          rw [dispatch_unanswered reserved active answered,
            dispatch_unanswered reserved active' (answers.trans answered)]
          exact .ok ⟨alike, by simp only [unchanged, alike.model]⟩
      | some alternative =>
          rw [dispatch_answered reserved active answered,
            dispatch_answered reserved active' (answers.trans answered)]
          have begun : Run.Alike logs state.run state'.run :=
            ⟨alike.model, alike.history, rfl, alike.log⟩
          have together : Occasion.Alike moments ⟨payload, time⟩ ⟨payload, time'⟩ := ⟨rfl, moment⟩
          refine (take_alike same recording together begun leaf event alternative).bind ?_
          rintro ⟨after, reached⟩ ⟨after', _⟩ ⟨alike, rfl⟩
          refine (settle_alike same recording together alike [] reached).bind ?_
          rintro ⟨final, last⟩ ⟨final', _⟩ ⟨alike, rfl⟩
          exact .ok (commit_alike alike last)

/-- Resuming only looks at the states of a machine. -/
theorem resume_alike (same : machine.Agrees other) (checkpoint : Checkpoint)
    : other.resume checkpoint = machine.resume checkpoint := by
  have leaves : other.isLeafState = machine.isLeafState := by
    funext name
    simp only [isLeafState, same.outline]
  have entries : other.fitsEntry = machine.fitsEntry := by
    funext entry
    simp only [fitsEntry, same.outline, leaves]
  simp only [resume, leaves, entries]

end Calls

-----------------------------------------------------------------------------------------
-- Whole sessions
-----------------------------------------------------------------------------------------

section Sessions

variable {machine other : Machine} {moments : Instant → Instant → Prop}
  {logs : Log → Log → Prop}

/-- The same call, at moments that are related. -/
inductive Call.Alike (moments : Instant → Instant → Prop) : Call → Call → Prop
  | start {time time'} (moment : moments time time') : Alike moments (.start time) (.start time')
  | dispatch (event payload) {time time'} (moment : moments time time')
    : Alike moments (.dispatch event payload time) (.dispatch event payload time')
  | resume (checkpoint) : Alike moments (.resume checkpoint) (.resume checkpoint)

/-- What a call can bring in that its machine did not remember, for two machines that are called:
the model and the log to begin anew with, or the log of a checkpoint.
-/
structure BringsAlike (logs : Log → Log → Prop) (machine other : Machine) (call : Call) : Prop where
  start : ∀ time, call = .start time → BeginsAlike logs machine other
  resume : ∀ checkpoint, call = .resume checkpoint → logs checkpoint.log checkpoint.log

/-- After results that are alike, or after the same failure from states that are alike, the reply
is the same and the states are alike.
-/
theorem conclude_alike {state state' : State} {result result' : Except Failure (State × Outcome)}
    (alike : State.Alike logs state state') (related : Related (ResultAlike logs) result result')
    : State.Alike logs (conclude state result).1 (conclude state' result').1
      ∧ (conclude state result).2 = (conclude state' result').2 := by
  cases related with
  | ok ended => exact ⟨ended.state, congrArg Reply.done ended.outcome⟩
  | error => exact ⟨alike, rfl⟩

/-- The same call gets the same reply from states that are alike, and leads to states that are
alike again; by the kind of call.
-/
theorem perform_alike {state state' : State} {call call' : Call} (same : machine.Agrees other)
    (recording : Log.Recording moments logs) (brings : BringsAlike logs machine other call)
    (alike : State.Alike logs state state') (together : Call.Alike moments call call')
    : State.Alike logs (machine.perform state call).1 (other.perform state' call').1
      ∧ (machine.perform state call).2 = (other.perform state' call').2 := by
  cases together with
  | start moment =>
      have begins := brings.start _ rfl
      exact conclude_alike alike (start_alike same recording begins moment)
  | dispatch event payload moment =>
      exact conclude_alike alike (dispatch_alike same recording alike moment event payload)
  | resume checkpoint =>
      simp only [perform, resume_alike same checkpoint]
      cases accepted : machine.resume checkpoint with
      | error error => exact ⟨alike, rfl⟩
      | ok next =>
          obtain ⟨_, _, rfl⟩ := resume_ok accepted
          exact ⟨⟨rfl, rfl, rfl, brings.resume checkpoint rfl⟩, rfl⟩

/-- So do the same calls one after the other, by induction on the calls. -/
theorem performAll_together {state state' : State} {calls calls' : List Call}
    (same : machine.Agrees other) (recording : Log.Recording moments logs)
    (brings : ∀ call ∈ calls, BringsAlike logs machine other call)
    (alike : State.Alike logs state state')
    (together : List.Forall₂ (Call.Alike moments) calls calls')
    : State.Alike logs (machine.performAll state calls).1 (other.performAll state' calls').1
      ∧ (machine.performAll state calls).2 = (other.performAll state' calls').2 := by
  induction together generalizing state state' with
  | nil => exact ⟨alike, rfl⟩
  | cons call _ ih =>
      obtain ⟨first, later⟩ := List.forall_mem_cons.mp brings
      obtain ⟨alike, reply⟩ := perform_alike same recording first alike call
      obtain ⟨alike, replies⟩ := ih later alike
      exact ⟨alike, congrArg₂ List.cons reply replies⟩

end Sessions

end Machine

end Statechart
