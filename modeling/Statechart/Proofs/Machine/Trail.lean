import Mathlib.Data.List.Chain
import Statechart.Proofs.Machine.Passage
import Statechart.Proofs.Machine.Transaction
import Statechart.Proofs.Memory.Retention

/-! What the log tells of the leaves that a machine has visited. A record is made for each step from
one leaf to the next, so the records that are kept are the latest steps of the trail, and they lead
without a gap to the active leaf.
-/

namespace Statechart

/-- The step that a record tells. -/
def LogRecord.step (record : LogRecord) : String × String :=
  (record.source, record.target)

namespace Log

-----------------------------------------------------------------------------------------
-- Steps from leaf to leaf
-----------------------------------------------------------------------------------------

/-- The steps between leaves that are visited one after the other. -/
def steps (leaves : List String) : List (String × String) :=
  leaves.zip leaves.tail

theorem drop_steps (leaves : List String) (count : Nat)
    : (steps leaves).drop count = steps (leaves.drop count) := by
  simp only [steps, List.zip_eq_zipWith, List.drop_zipWith, List.tail_drop, List.drop_tail]

/-- Going on from the last leaf adds a step; by induction on the leaves. -/
theorem steps_append {leaves : List String} {last : String} (ends : leaves.getLast? = some last)
    (next : String)
    : steps (leaves ++ [next]) = steps leaves ++ [(last, next)] := by
  induction leaves with
  | nil => cases ends
  | cons first rest ih =>
      cases rest with
      | nil =>
          obtain rfl : first = last := by simpa using ends
          rfl
      | cons second rest =>
          have later := ih (by simpa using ends)
          simp only [steps, List.cons_append, List.tail_cons, List.zip_cons_cons] at later ⊢
          rw [later]

/-- Each step begins where the one before it ends; by induction on the leaves. -/
theorem isChain_steps (leaves : List String)
    : (steps leaves).IsChain (fun step next => step.2 = next.1) := by
  induction leaves with
  | nil => exact .nil
  | cons first rest ih =>
      cases rest with
      | nil => exact .nil
      | cons second rest =>
          cases rest with
          | nil => exact .singleton _
          | cons third rest => exact .cons_cons rfl ih

/-- A log whose records tell all steps between some leaves has these leaves for its path. -/
theorem path_eq_of_steps {log : Log} {leaves : List String}
    (told : log.records.map LogRecord.step = steps leaves) (moved : log.records ≠ [])
    : log.path = leaves := by
  have source : log.records.head?.map (·.source) = (steps leaves).head?.map (·.1) := by
    rw [← told, List.head?_map, Option.map_map]
    rfl
  have targets : log.records.map (·.target) = (steps leaves).map (·.2) := by
    rw [← told, List.map_map]
    rfl
  rw [path, source, targets]
  cases leaves with
  | nil => exact absurd (List.map_eq_nil_iff.mp told) moved
  | cons first rest =>
      cases rest with
      | nil => exact absurd (List.map_eq_nil_iff.mp told) moved
      | cons second rest => simp [steps, List.map_snd_zip]

/-- A log whose records are the latest steps between some leaves. -/
def Follows (log : Log) (leaves : List String) : Prop :=
  log.records.map LogRecord.step = latest log.capacity (steps leaves)

theorem follows_empty (capacity : Option Nat) {leaves : List String} (unmoved : steps leaves = [])
    : ({ capacity } : Log).Follows leaves := by
  rw [Follows, unmoved]
  exact (List.suffix_nil.mp (latest_suffix capacity [])).symm

/-- Recording a step from the last leaf keeps the records the latest steps. -/
theorem Follows.record {log : Log} {leaves : List String} {record : LogRecord}
    (follows : log.Follows leaves) (ends : leaves.getLast? = some record.source)
    : (log.record record).Follows (leaves ++ [record.target]) := by
  rw [Follows, capacity_record, records_record, map_latest, List.map_append, follows,
    steps_append ends]
  exact latest_append_latest _ _ _

section Follows

variable {log : Log} {leaves : List String}

/-- The records that are kept lead from one to the next. -/
theorem Follows.connected (follows : log.Follows leaves)
    : log.records.IsChain (fun record next => record.target = next.source) := by
  have kept := (isChain_steps leaves).suffix (latest_suffix log.capacity (steps leaves))
  rw [← follows] at kept
  exact (List.isChain_map LogRecord.step).mp kept

theorem Follows.mem (follows : log.Follows leaves) {record : LogRecord}
    (kept : record ∈ log.records)
    : record.source ∈ leaves ∧ record.target ∈ leaves := by
  have listed : record.step ∈ log.records.map LogRecord.step := List.mem_map_of_mem kept
  rw [follows] at listed
  obtain ⟨source, target⟩ :=
    List.of_mem_zip ((latest_suffix log.capacity (steps leaves)).mem listed)
  exact ⟨source, List.mem_of_mem_tail target⟩

/-- The path of a log that keeps a record begins with the source of the oldest and has all leaves
from there on.
-/
theorem Follows.path_eq (follows : log.Follows leaves) (moved : log.records ≠ [])
    : log.path = leaves.rtake (log.records.length + 1) := by
  have kept : log.records.map LogRecord.step <:+ steps leaves := by
    rw [follows]
    exact latest_suffix log.capacity (steps leaves)
  have told := List.suffix_iff_eq_drop.mp kept
  rw [drop_steps] at told
  have same : (steps leaves).length - (log.records.map LogRecord.step).length
      = leaves.length - (log.records.length + 1) := by
    simp only [steps, List.length_zip, List.length_tail, List.length_map]
    omega
  rw [path_eq_of_steps told moved, same, List.rtake]

theorem getLast?_path {record : LogRecord} (newest : log.records.getLast? = some record)
    : log.path.getLast? = some record.target := by
  simp [path, List.getLast?_append, newest]

/-- The newest record leads to the last leaf. -/
theorem Follows.ends (follows : log.Follows leaves) {record : LogRecord}
    (newest : log.records.getLast? = some record)
    : leaves.getLast? = some record.target := by
  have moved : log.records ≠ [] := by
    intro empty
    simp [empty] at newest
  have last := getLast?_path newest
  rw [follows.path_eq moved, List.rtake, List.getLast?_drop] at last
  split at last
  · cases last
  · exact last

end Follows

end Log

namespace Machine

-----------------------------------------------------------------------------------------
-- The leaves that calls visit
-----------------------------------------------------------------------------------------

/-- The leaves that a successful call comes to, in order: a start comes to the first leaf of the
way down from the root, and every departure to the leaf it reaches.
-/
inductive Visits (machine : Machine) (state : State)
    : Call → List String → State × Outcome → Prop
  | start {time alternatives run leaf departures final last}
    (way : machine.Way .null machine.firstRun rootName alternatives run leaf)
    (arrived : machine.isLeafState leaf = true)
    (settles : machine.Settles ⟨.null, time⟩ run leaf departures final last)
    : Visits machine state (.start time) (leaf :: departures.map (·.reached)) (commit final last)
  | dispatch {event payload time departures result}
    (course : machine.Course state (.dispatch event payload time) departures result)
    : Visits machine state (.dispatch event payload time) (departures.map (·.reached)) result

/-- The leaves visited up to a state that calls lead to. A start begins a new trail and a dispatch
goes on with the one there is. A resumption takes over the trail of the machine that gave the
checkpoint, and a call that fails leaves the trail as it is.
-/
inductive Trail : Machine → State → List String → Prop
  | fresh (machine) : Trail machine machine.fresh []
  | started {machine state visited time leaves result}
    (before : Trail machine state visited)
    (started : machine.start time = .ok result)
    (visits : machine.Visits state (.start time) leaves result)
    : Trail machine result.1 leaves
  | dispatched {machine state visited event payload time leaves result}
    (before : Trail machine state visited)
    (dispatched : machine.dispatch state event payload time = .ok result)
    (visits : machine.Visits state (.dispatch event payload time) leaves result)
    : Trail machine result.1 (visited ++ leaves)
  | resumed {machine state visited other donor leaves id time checkpoint next}
    (before : Trail machine state visited)
    (source : Trail other donor leaves)
    (same : other.chart = machine.chart)
    (taken : Machine.checkpoint donor id time = .ok checkpoint)
    (accepted : machine.resume checkpoint = .ok next)
    : Trail machine next leaves
  | failed {machine state visited call}
    (before : Trail machine state visited)
    (failed : (machine.perform state call).2.isFailure = true)
    : Trail machine state visited

/-- A call that succeeds visits leaves. -/
theorem visits_of_start {machine : Machine} (state : State) {time : Instant}
    {result : State × Outcome} (started : machine.start time = .ok result)
    : ∃ leaves, machine.Visits state (.start time) leaves result := by
  obtain ⟨departures, course⟩ := course_of_start state started
  cases course with
  | start way arrived settles => exact ⟨_, .start way arrived settles⟩

/-- A trail goes through states that calls lead to, by induction on the trail. -/
theorem Trail.attained {machine : Machine} {state : State} {visited : List String}
    (trail : Trail machine state visited)
    : Attained machine state := by
  induction trail with
  | fresh machine => exact .fresh machine
  | @started _ _ _ time _ _ _ started _ ih =>
      have called := Attained.started time ih
      simpa only [perform, started, conclude] using called
  | @dispatched _ _ _ event payload time _ _ _ dispatched _ ih =>
      have called := Attained.dispatched event payload time ih
      simpa only [perform, dispatched, conclude] using called
  | resumed _ _ same taken accepted ih source =>
      have called := Attained.resumed ih source same taken
      simpa only [perform, accepted] using called
  | failed _ _ ih => exact ih

/-- Wherever calls lead, there is a trail to it; by induction on the calls. -/
theorem Attained.exists_trail {machine : Machine} {state : State}
    (attained : Attained machine state)
    : ∃ visited, Trail machine state visited := by
  induction attained with
  | fresh machine => exact ⟨[], .fresh machine⟩
  | @started machine state time _ ih =>
      obtain ⟨visited, trail⟩ := ih
      cases started : machine.start time with
      | error failure =>
          refine ⟨visited, ?_⟩
          simpa only [perform, started, conclude] using trail
      | ok result =>
          obtain ⟨leaves, visits⟩ := visits_of_start state started
          refine ⟨leaves, ?_⟩
          simpa only [perform, started, conclude] using Trail.started trail started visits
  | @dispatched machine state event payload time _ ih =>
      obtain ⟨visited, trail⟩ := ih
      cases dispatched : machine.dispatch state event payload time with
      | error failure =>
          refine ⟨visited, ?_⟩
          simpa only [perform, dispatched, conclude] using trail
      | ok result =>
          obtain ⟨departures, course⟩ := course_of_dispatch dispatched
          refine ⟨visited ++ departures.map (·.reached), ?_⟩
          simpa only [perform, dispatched, conclude]
            using Trail.dispatched trail dispatched (.dispatch course)
  | @resumed machine state other donor id time checkpoint _ _ same taken ih source =>
      obtain ⟨visited, trail⟩ := ih
      obtain ⟨leaves, source⟩ := source
      cases accepted : machine.resume checkpoint with
      | error error =>
          refine ⟨visited, ?_⟩
          simpa only [perform, accepted] using trail
      | ok next =>
          refine ⟨leaves, ?_⟩
          simpa only [perform, accepted] using Trail.resumed trail source same taken accepted

-----------------------------------------------------------------------------------------
-- The log goes along the trail
-----------------------------------------------------------------------------------------

/-- Leaves visited up to the active one, and a log of the latest steps between them. -/
structure Tracks (machine : Machine) (visited : List String) (active : Option String) (log : Log)
    : Prop where
  ends : visited.getLast? = active
  leaves : ∀ leaf ∈ visited, machine.isLeafState leaf = true
  follows : log.Follows visited

/-- Taking an alternative with a target goes one step on. -/
theorem take_tracks {machine : Machine} {occasion : Occasion} {run after : Run}
    {leaf event target reached : String} {alternative : Alternative} {visited : List String}
    (declared : machine.Declares alternative) (aims : alternative.target = some target)
    (recalls : machine.Recalls run.history) (isLeaf : machine.isLeafState leaf = true)
    (tracks : machine.Tracks visited (some leaf) run.log)
    (taken : machine.take occasion run leaf event alternative = .ok (after, reached))
    : machine.Tracks (visited ++ [reached]) (some reached) after.log := by
  have arrived := (take_keeps machine.memorable_tellsLeaf declared recalls isLeaf taken).2
  constructor
  · exact List.getLast?_concat
  · intro other member
    rcases List.mem_append.mp member with earlier | last
    · exact tracks.leaves other earlier
    · exact List.mem_singleton.mp last ▸ arrived
  · rw [take_log declared aims recalls isLeaf taken]
    exact tracks.follows.record tracks.ends

/-- A chain goes on through the leaves that its departures reach, by induction on the chain. -/
theorem Chain.tracks {machine : Machine} {occasion : Occasion} {run later : Run}
    {leaf last : String} {departures : List Departure} {visited : List String}
    (chain : machine.Chain occasion run leaf departures later last)
    (recalls : machine.Recalls run.history) (isLeaf : machine.isLeafState leaf = true)
    (tracks : machine.Tracks visited (some leaf) run.log)
    : machine.Tracks (visited ++ departures.map (·.reached)) (some last) later.log := by
  induction chain generalizing visited with
  | here => simpa using tracks
  | leave chosen aims taken _ ih =>
      have declared := declares_of_automatic? chosen
      obtain ⟨after, arrived⟩ :=
        take_keeps machine.memorable_tellsLeaf declared recalls isLeaf taken
      have next := take_tracks declared aims recalls isLeaf tracks taken
      simpa using ih after arrived next

theorem Settles.tracks {machine : Machine} {occasion : Occasion} {run final : Run}
    {leaf last : String} {departures : List Departure} {visited : List String}
    (settles : machine.Settles occasion run leaf departures final last)
    (recalls : machine.Recalls run.history) (isLeaf : machine.isLeafState leaf = true)
    (tracks : machine.Tracks visited (some leaf) run.log)
    : machine.Tracks (visited ++ departures.map (·.reached)) (some last) final.log := by
  obtain ⟨later, stop, chain, ended⟩ := settles
  obtain ⟨rfl, _, same⟩ := ended.keeps
  exact same ▸ chain.tracks recalls isLeaf tracks

/-- A start visits its leaves with a log of its own. -/
theorem Visits.tracks_start {machine : Machine} {state : State} {time : Instant}
    {leaves : List String} {result : State × Outcome}
    (visits : machine.Visits state (.start time) leaves result)
    : machine.Tracks leaves result.1.active result.1.log := by
  cases visits with
  | @start _ _ run leaf _ _ _ way arrived settles =>
      obtain ⟨history, log⟩ := way.keeps
      have recalls : machine.Recalls run.history := history ▸ History.all_empty _
      have first : machine.Tracks [leaf] (some leaf) run.log := by
        refine ⟨rfl, ?_, ?_⟩
        · simpa using arrived
        · rw [log]
          exact Log.follows_empty machine.capacity rfl
      exact settles.tracks recalls arrived first

/-- A dispatch goes on with the trail before it; by the kind of course it takes. -/
theorem Course.tracks_dispatch {machine : Machine} {state : State} {event : String}
    {payload : Json} {time : Instant} {departures : List Departure} {visited : List String}
    {result : State × Outcome}
    (course : machine.Course state (.dispatch event payload time) departures result)
    (poised : machine.Poised machine.TellsLeaf state)
    (tracks : machine.Tracks visited state.active state.log)
    : machine.Tracks (visited ++ departures.map (·.reached)) result.1.active result.1.log := by
  cases course with
  | ignored active unanswered => simpa [unchanged] using tracks
  | internal active answered internal acted settles =>
      obtain ⟨history, log⟩ := act_keeps acted
      refine settles.tracks ?_ (poised.active _ active) ?_
      · exact history ▸ poised.history
      · exact active ▸ log ▸ tracks
  | moved active answered aims taken settles =>
      have declared := declares_of_answer? answered
      have isLeaf := poised.active _ active
      have recalls : machine.Recalls state.run.history := poised.history
      obtain ⟨after, arrived⟩ :=
        take_keeps machine.memorable_tellsLeaf declared recalls isLeaf taken
      have next := take_tracks declared aims recalls isLeaf (active ▸ tracks) taken
      rw [List.map_cons, List.append_cons]
      exact settles.tracks after arrived next

theorem Tracks.of_chart_eq {machine other : Machine} (same : other.chart = machine.chart)
    {visited : List String} {active : Option String} {log : Log}
    (tracks : other.Tracks visited active log)
    : machine.Tracks visited active log := by
  refine ⟨tracks.ends, ?_, tracks.follows⟩
  have leaves := tracks.leaves
  simpa only [isLeafState, outline_eq_of_chart_eq same] using leaves

/-- Resuming a checkpoint gives the state that it was taken from. -/
theorem resumed_of_checkpoint {state : State} {id : String} {time : Instant}
    {checkpoint : Checkpoint} (taken : Machine.checkpoint state id time = .ok checkpoint)
    : resumed checkpoint = state := by
  unfold Machine.checkpoint at taken
  split at taken
  · cases taken
  · rename_i leaf active
    cases taken
    simp only [resumed, ← active]

/-- At the end of a trail the log tells its latest steps; by induction on the trail. -/
theorem Trail.tracks {machine : Machine} {state : State} {visited : List String}
    (trail : Trail machine state visited)
    : machine.Tracks visited state.active state.log := by
  induction trail with
  | fresh machine =>
      refine ⟨rfl, fun _ member => (nomatch member), ?_⟩
      exact Log.follows_empty _ (by simp [Log.steps])
  | started _ _ visits => exact visits.tracks_start
  | @dispatched machine state _ _ _ _ _ _ before _ visits ih =>
      cases visits with
      | dispatch course =>
          have poised : machine.Poised machine.TellsLeaf state := by
            refine ⟨before.attained.poised.active, ?_⟩
            exact before.attained.poised.history.mono (fun _ _ held => held.2.1)
          exact course.tracks_dispatch poised ih
  | resumed _ _ same taken accepted _ source =>
      obtain ⟨_, rfl⟩ := resume_eq_ok_iff.mp accepted
      rw [resumed_of_checkpoint taken]
      exact source.of_chart_eq same
  | failed _ _ ih => exact ih

/-- What the log of a state tells of the leaves visited up to it. -/
structure LogTells (machine : Machine) (visited : List String) (state : State) : Prop where
  /-- The leaves visited end in the active one. -/
  active : visited.getLast? = state.active
  connected
    : state.log.records.IsChain (fun record next => record.target = next.source)
  ending
    : ∀ record, state.log.records.getLast? = some record → state.active = some record.target
  leaves
    : ∀ record ∈ state.log.records,
        machine.isLeafState record.source = true ∧ machine.isLeafState record.target = true
  bounded
    : ∀ capacity, state.log.capacity = some capacity → state.log.records.length ≤ capacity
  /-- No record is missing but the oldest, if they are more than the capacity. -/
  latest
    : state.log.records.map LogRecord.step = Log.latest state.log.capacity (Log.steps visited)
  path
    : state.log.records ≠ []
      → state.log.path = visited.rtake (state.log.records.length + 1)
        ∧ state.log.path.getLast? = state.active

theorem Tracks.logTells {machine : Machine} {state : State} {visited : List String}
    (tracks : machine.Tracks visited state.active state.log)
    : machine.LogTells visited state where
  active := tracks.ends
  connected := tracks.follows.connected
  ending record newest := tracks.ends.symm.trans (tracks.follows.ends newest)
  leaves record kept := by
    obtain ⟨source, target⟩ := tracks.follows.mem kept
    exact ⟨tracks.leaves _ source, tracks.leaves _ target⟩
  bounded capacity bound := by
    have length := congrArg List.length tracks.follows
    rw [bound, Log.length_latest, List.length_map] at length
    omega
  latest := tracks.follows
  path moved := by
    have path := tracks.follows.path_eq moved
    refine ⟨path, ?_⟩
    have newest := List.getLast?_eq_some_getLast moved
    exact (Log.getLast?_path newest).trans (tracks.follows.ends newest ▸ tracks.ends)

/-- Wherever calls lead, there is a trail of the leaves visited up to there, and along every such
trail the log tells the latest steps without a gap, as many as its capacity allows, up to the active
leaf. Its path has the leaves visited since the oldest record that is kept.
-/
theorem log_goes_along_trail {machine : Machine} {state : State}
    (attained : Attained machine state)
    : (∃ visited, Trail machine state visited)
      ∧ ∀ visited, Trail machine state visited → machine.LogTells visited state :=
  ⟨attained.exists_trail, fun _ trail => trail.tracks.logTells⟩

/-- What a door that keeps one record remembers once it was pushed ajar and closed. -/
def forgetfulCheckpoint : Checkpoint where
  version := Checkpoint.currentVersion
  id := "door"
  timestamp := noon
  activeState := "shut"
  model := (forgetfulDoor.after closingCalls).model
  history := (forgetfulDoor.after closingCalls).history
  log := (forgetfulDoor.after closingCalls).log

/-- A door that goes on from there and is pulled ajar again. -/
def pulledDoor : State :=
  door.after [.resume forgetfulCheckpoint, .dispatch "pull" .null noon]

theorem attained_pulledDoor : Attained door pulledDoor := by
  have closed : Attained forgetfulDoor (forgetfulDoor.after closingCalls) :=
    .dispatched "close" .null noon
      (.dispatched "push" .null noon (.started noon (.fresh forgetfulDoor)))
  have active : (forgetfulDoor.after closingCalls).active = some "shut" := by decide +kernel
  have taken
      : Machine.checkpoint (forgetfulDoor.after closingCalls) "door" noon
        = .ok forgetfulCheckpoint :=
    checkpoint_of_active active "door" noon
  exact .dispatched "pull" .null noon (.resumed (.fresh door) closed rfl taken)

/-- The one record that it keeps tells the last two of the leaves visited. -/
theorem pulledDoor_goesAlong
    : pulledDoor.active = some "ajar"
      ∧ pulledDoor.log.records.map LogRecord.step = [("shut", "ajar")]
      ∧ ∃ visited, Trail door pulledDoor visited ∧ visited.rtake 2 = ["shut", "ajar"] := by
  have kept : pulledDoor.log.records.map LogRecord.step = [("shut", "ajar")] := by
    decide +kernel
  obtain ⟨⟨visited, trail⟩, tells⟩ := log_goes_along_trail attained_pulledDoor
  have moved : pulledDoor.log.records ≠ [] := by
    intro empty
    simp [empty] at kept
  have path : pulledDoor.log.path = ["shut", "ajar"] := by decide +kernel
  have length : pulledDoor.log.records.length = 1 := by
    simpa using congrArg List.length kept
  obtain ⟨along, _⟩ := (tells visited trail).path moved
  rw [path, length] at along
  exact ⟨by decide +kernel, kept, visited, trail, along.symm⟩

end Machine

end Statechart
