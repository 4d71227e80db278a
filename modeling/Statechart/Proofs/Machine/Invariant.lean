import Statechart.Proofs.Machine.Course

/-! What a machine remembers after any calls: a leaf, and for states that were left a leaf
inside each. What holds of a leaf with the states around it is kept by every call, whether it
succeeds or fails, so it holds wherever calls lead.
-/

namespace Statechart

namespace Machine

/-- A state of a machine whose active state, if there is one, is a leaf, and whose history
tells only what holds.
-/
structure Poised (machine : Machine) (holds : String → String → Prop) (state : State)
    : Prop where
  active : ∀ leaf, state.active = some leaf → machine.isLeafState leaf = true
  history : state.history.All holds

theorem poised_fresh (machine : Machine) (holds : String → String → Prop)
    : machine.Poised holds machine.fresh :=
  ⟨fun _ active => (nomatch active), History.all_empty holds⟩

/-- Settling from a leaf ends in a state that is poised if the leaf was reached with a history
that tells only what holds.
-/
theorem Settles.poised {machine : Machine} {occasion : Occasion} {run final : Run}
    {leaf last : String} {departures : List Departure} {holds : String → String → Prop}
    (settles : machine.Settles occasion run leaf departures final last)
    (memorable : machine.Memorable holds) (before : run.history.All holds)
    (isLeaf : machine.isLeafState leaf = true)
    : machine.Poised holds (commit final last).1 := by
  obtain ⟨later, stop, chain, ended⟩ := settles
  obtain ⟨rfl, same, _⟩ := ended.keeps
  obtain ⟨told, arrived⟩ := chain.keeps memorable before isLeaf
  constructor
  · intro leaf active
    exact Option.some.inj active ▸ arrived
  · change final.history.All holds
    exact same ▸ told

/-- A successful call keeps a machine poised; by the kind of course it takes. -/
theorem Course.poised {machine : Machine} {state : State} {call : Call}
    {departures : List Departure} {result : State × Outcome}
    {holds : String → String → Prop}
    (course : machine.Course state call departures result)
    (memorable : machine.Memorable holds) (before : machine.Poised holds state)
    : machine.Poised holds result.1 := by
  cases course with
  | start way arrived settles =>
      refine settles.poised memorable ?_ arrived
      rw [way.keeps.1]
      exact History.all_empty holds
  | ignored active unanswered => exact before
  | internal active answered internal acted settles =>
      refine settles.poised memorable ?_ (before.active _ active)
      rw [(act_keeps acted).1]
      exact before.history
  | moved active answered aims taken settles =>
      have declared := declares_of_answer? answered
      obtain ⟨after, arrived⟩ :=
        take_keeps memorable declared before.history (before.active _ active) taken
      exact settles.poised memorable after arrived

/-- Every call keeps a machine poised, if the checkpoints that it resumes do. -/
theorem perform_poised {machine : Machine} {state : State} {call : Call}
    {holds : String → String → Prop} (memorable : machine.Memorable holds)
    (before : machine.Poised holds state)
    (resumed
      : ∀ checkpoint next,
          call = .resume checkpoint
          → machine.resume checkpoint = .ok next
          → machine.Poised holds next)
    : machine.Poised holds (machine.perform state call).1 := by
  cases call with
  | start time =>
      cases started : machine.start time with
      | error failure => simpa only [perform, started, conclude] using before
      | ok result =>
          obtain ⟨departures, course⟩ := course_of_start state started
          simpa only [perform, started, conclude] using course.poised memorable before
  | dispatch event payload time =>
      cases dispatched : machine.dispatch state event payload time with
      | error failure => simpa only [perform, dispatched, conclude] using before
      | ok result =>
          obtain ⟨departures, course⟩ := course_of_dispatch dispatched
          simpa only [perform, dispatched, conclude] using course.poised memorable before
  | resume checkpoint =>
      cases accepted : machine.resume checkpoint with
      | error error => simpa only [perform, accepted] using before
      | ok next => simpa only [perform, accepted] using resumed checkpoint next rfl accepted

/-- A checkpoint is resumed as it is, and only if its active state is a leaf and its history
pairs compound states and leaves.
-/
theorem resume_ok {machine : Machine} {checkpoint : Checkpoint} {next : State}
    (resumed : machine.resume checkpoint = .ok next)
    : machine.isLeafState checkpoint.activeState = true
      ∧ (∀ entry ∈ checkpoint.history.entries, machine.fitsEntry entry = true)
      ∧ next
        = {
            model := checkpoint.model,
            active := some checkpoint.activeState,
            history := checkpoint.history,
            log := checkpoint.log
          } := by
  unfold resume at resumed
  split at resumed
  · cases resumed
  split at resumed
  · cases resumed
  rename_i isLeaf
  split at resumed
  · cases resumed
  · rename_i fits
    cases resumed
    refine ⟨by simpa using isLeaf, ?_, rfl⟩
    simpa using fits

/-- A checkpoint that is resumed tells leaves only, since all entries of its history fit. -/
theorem resume_poised {machine : Machine} {checkpoint : Checkpoint} {next : State}
    (resumed : machine.resume checkpoint = .ok next)
    : machine.Poised machine.TellsLeaf next := by
  obtain ⟨isLeaf, fits, rfl⟩ := resume_ok resumed
  constructor
  · intro leaf active
    exact Option.some.inj active ▸ isLeaf
  · intro outer leaf found
    have fit := fits (outer, leaf) (History.mem_of_get? found)
    simp only [fitsEntry, Bool.and_eq_true] at fit
    exact fit.2

/-- Calls keep a machine poised if each checkpoint that they resume does, by induction on the
calls.
-/
theorem performAll_poised_of {machine : Machine} {state : State} {calls : List Call}
    {holds : String → String → Prop} (memorable : machine.Memorable holds)
    (before : machine.Poised holds state)
    (resumed
      : ∀ checkpoint next,
          .resume checkpoint ∈ calls
          → machine.resume checkpoint = .ok next
          → machine.Poised holds next)
    : machine.Poised holds (machine.performAll state calls).1 := by
  induction calls generalizing state with
  | nil => exact before
  | cons call calls ih =>
      refine ih (perform_poised memorable before ?_) ?_
      · rintro checkpoint next rfl accepted
        exact resumed checkpoint next List.mem_cons_self accepted
      · intro checkpoint next member accepted
        exact resumed checkpoint next (List.mem_cons_of_mem _ member) accepted

/-- Calls of any kind, checkpoints of any content among them, keep a machine poised. -/
theorem performAll_poised {machine : Machine} {state : State} (calls : List Call)
    (before : machine.Poised machine.TellsLeaf state)
    : machine.Poised machine.TellsLeaf (machine.performAll state calls).1 :=
  performAll_poised_of machine.memorable_tellsLeaf before
    (fun _ _ _ accepted => resume_poised accepted)

/-- What a fresh machine remembers after some calls. -/
def after (machine : Machine) (calls : List Call) : State :=
  (machine.performAll machine.fresh calls).1

/-- A machine that is initialized gives a checkpoint of all that it remembers. -/
theorem checkpoint_of_active {state : State} {leaf : String} (active : state.active = some leaf)
    (id : String) (time : Instant)
    : Machine.checkpoint state id time
      = .ok
          ⟨Checkpoint.currentVersion, id, time, leaf, state.model, state.history, state.log⟩ := by
  simp only [checkpoint, active]

/-- A checkpoint holds what the machine remembered when it was taken. -/
theorem checkpoint_ok {state : State} {id : String} {time : Instant} {checkpoint : Checkpoint}
    (taken : Machine.checkpoint state id time = .ok checkpoint)
    : state.active = some checkpoint.activeState ∧ state.history = checkpoint.history := by
  unfold Machine.checkpoint at taken
  split at taken
  · cases taken
  · rename_i leaf active
    cases taken
    exact ⟨active, rfl⟩

-----------------------------------------------------------------------------------------
-- The states that machines of one chart come to
-----------------------------------------------------------------------------------------

/-- The states that a machine comes to by calls that succeed or fail, where every checkpoint it
resumes was taken from a machine of the same chart at such a state.
-/
inductive Attained : Machine → State → Prop
  | fresh (machine) : Attained machine machine.fresh
  | started {machine state} (time) (before : Attained machine state)
    : Attained machine (machine.perform state (.start time)).1
  | dispatched {machine state} (event payload time) (before : Attained machine state)
    : Attained machine (machine.perform state (.dispatch event payload time)).1
  | resumed {machine state other donor id time checkpoint}
    (before : Attained machine state)
    (source : Attained other donor)
    (same : other.chart = machine.chart)
    (taken : Machine.checkpoint donor id time = .ok checkpoint)
    : Attained machine (machine.perform state (.resume checkpoint)).1

/-- A state that is not the root and a leaf inside it. -/
def LeafInside (outline : Outline) (state leaf : String) : Prop :=
  state ≠ rootName
  ∧ (outline.has leaf && outline.isLeaf leaf) = true
  ∧ outline.contains state leaf = true

theorem memorable_leafInside (machine : Machine) : machine.Memorable (LeafInside machine.outline) :=
  ⟨fun _ _ held => held.2.1, fun _ _ inner isLeaf around => ⟨inner, isLeaf, around⟩⟩

/-- Machines of one chart have one outline. -/
theorem outline_eq_of_chart_eq {machine other : Machine} (same : other.chart = machine.chart)
    : other.outline = machine.outline := by
  have accepted := other.accepted
  rw [same, machine.accepted] at accepted
  exact (Except.ok.inj accepted).symm

/-- Wherever calls lead, the active state is a leaf and every state that was left is remembered
with a leaf inside it; by induction on the calls, those of the checkpoints included.
-/
theorem Attained.poised {machine : Machine} {state : State} (attained : Attained machine state)
    : machine.Poised (LeafInside machine.outline) state := by
  induction attained with
  | fresh machine => exact machine.poised_fresh _
  | started time _ ih =>
      exact perform_poised (memorable_leafInside _) ih (fun _ _ call _ => nomatch call)
  | dispatched event payload time _ ih =>
      exact perform_poised (memorable_leafInside _) ih (fun _ _ call _ => nomatch call)
  | @resumed machine state other donor id time checkpoint _ _ same taken ih source =>
      refine perform_poised (memorable_leafInside _) ih ?_
      intro accepted next call resumed
      obtain rfl : checkpoint = accepted := Call.resume.inj call
      obtain ⟨isLeaf, _, rfl⟩ := resume_ok resumed
      obtain ⟨_, told⟩ := checkpoint_ok taken
      have kept := source.history
      rw [outline_eq_of_chart_eq same, told] at kept
      exact ⟨fun leaf active => Option.some.inj active ▸ isLeaf, kept⟩

-----------------------------------------------------------------------------------------
-- Nothing that is remembered is forgotten
-----------------------------------------------------------------------------------------

/-- A history that still tells a leaf for every state that another told one for. -/
def Extends (later earlier : History) : Prop :=
  ∀ outer, (earlier.get? outer).isSome = true → (later.get? outer).isSome = true

theorem Extends.trans {first second third : History} (later : Extends third second)
    (earlier : Extends second first)
    : Extends third first :=
  fun outer told => later outer (earlier outer told)

theorem extends_recordExits {machine : Machine} (run : Run) (leaf state : String)
    : Extends (machine.recordExits run leaf state).history run.history := by
  intro outer told
  rw [get?_recordExits]
  split
  · rfl
  · exact told

/-- A chain of departures forgets nothing, by induction on the chain. -/
theorem Chain.extends {machine : Machine} {occasion : Occasion} {run later : Run}
    {leaf last : String} {departures : List Departure} {holds : String → String → Prop}
    (chain : machine.Chain occasion run leaf departures later last)
    (memorable : machine.Memorable holds) (before : run.history.All holds)
    (isLeaf : machine.isLeafState leaf = true)
    : Extends later.history run.history := by
  induction chain with
  | here => exact fun _ told => told
  | leave chosen aims taken _ ih =>
      have declared := declares_of_automatic? chosen
      obtain ⟨after, arrived⟩ := take_keeps memorable declared before isLeaf taken
      refine (ih after arrived).trans ?_
      rw [take_history declared aims (memorable.recalls before) isLeaf taken]
      exact extends_recordExits _ _ _

theorem Settles.extends {machine : Machine} {occasion : Occasion} {run final : Run}
    {leaf last : String} {departures : List Departure} {holds : String → String → Prop}
    (settles : machine.Settles occasion run leaf departures final last)
    (memorable : machine.Memorable holds) (before : run.history.All holds)
    (isLeaf : machine.isLeafState leaf = true)
    : Extends final.history run.history := by
  obtain ⟨later, stop, chain, ended⟩ := settles
  obtain ⟨_, same, _⟩ := ended.keeps
  exact same ▸ chain.extends memorable before isLeaf

/-- A dispatch that succeeds forgets nothing; by the kind of course it takes. -/
theorem Course.extends {machine : Machine} {state : State} {event : String} {payload : Json}
    {time : Instant} {departures : List Departure} {result : State × Outcome}
    {holds : String → String → Prop}
    (course : machine.Course state (.dispatch event payload time) departures result)
    (memorable : machine.Memorable holds) (before : machine.Poised holds state)
    : Extends result.1.history state.history := by
  cases course with
  | ignored active unanswered => exact fun _ told => told
  | @internal leaf _ _ _ alternative run _ final last active answered internal acted settles =>
      have same : run.history = state.history := (act_keeps acted).1
      have later := settles.extends memorable (same ▸ before.history) (before.active _ active)
      exact same ▸ later
  | moved active answered aims taken settles =>
      have declared := declares_of_answer? answered
      have isLeaf := before.active _ active
      obtain ⟨after, arrived⟩ := take_keeps memorable declared before.history isLeaf taken
      refine (settles.extends memorable after arrived).trans ?_
      rw [take_history declared aims (memorable.recalls before.history) isLeaf taken]
      exact extends_recordExits _ _ _

/-- Whether the reply to a call tells that the machine began anew: a start or a resumption that
succeeded.
-/
def Renews : Call → Reply → Prop
  | .start _, .done _ => True
  | .resume _, .resumed => True
  | _, _ => False

/-- A call that does not renew a machine keeps it poised and forgets nothing. -/
theorem perform_extends {machine : Machine} {state : State} {call : Call}
    {holds : String → String → Prop} (memorable : machine.Memorable holds)
    (before : machine.Poised holds state)
    (goesOn : ¬ Renews call (machine.perform state call).2)
    : machine.Poised holds (machine.perform state call).1
      ∧ Extends (machine.perform state call).1.history state.history := by
  constructor
  · refine perform_poised memorable before ?_
    rintro checkpoint next rfl accepted
    exact absurd trivial (by simpa only [perform, accepted, Renews] using goesOn)
  cases call with
  | start time =>
      cases started : machine.start time with
      | error failure => exact fun _ told => by simpa only [perform, started, conclude] using told
      | ok result =>
          exact absurd trivial (by simpa only [perform, started, conclude, Renews] using goesOn)
  | dispatch event payload time =>
      cases dispatched : machine.dispatch state event payload time with
      | error failure =>
          exact fun _ told => by simpa only [perform, dispatched, conclude] using told
      | ok result =>
          obtain ⟨departures, course⟩ := course_of_dispatch dispatched
          simpa only [perform, dispatched, conclude] using course.extends memorable before
  | resume checkpoint =>
      cases accepted : machine.resume checkpoint with
      | error error => exact fun _ told => by simpa only [perform, accepted] using told
      | ok next => exact absurd trivial (by simpa only [perform, accepted, Renews] using goesOn)

/-- Calls that do not renew a machine forget nothing, by induction on the calls. -/
theorem performAll_extends {machine : Machine} {state : State} {calls : List Call}
    {holds : String → String → Prop} (memorable : machine.Memorable holds)
    (before : machine.Poised holds state)
    (goOn
      : ∀ answered ∈ calls.zip (machine.performAll state calls).2,
          ¬ Renews answered.1 answered.2)
    : Extends (machine.performAll state calls).1.history state.history := by
  induction calls generalizing state with
  | nil => exact fun _ told => told
  | cons call calls ih =>
      simp only [performAll, List.zip_cons_cons, List.forall_mem_cons] at goOn ⊢
      obtain ⟨after, forgetsNothing⟩ := perform_extends memorable before goOn.1
      exact (ih after goOn.2).trans forgetsNothing

/-- The active state is a leaf below the root, and every entry of the history pairs a compound
state below the root and a leaf inside it.
-/
structure Consistent (outline : Outline) (state : State) : Prop where
  active
    : ∀ leaf,
        state.active = some leaf
        → leaf ≠ rootName ∧ outline.has leaf = true ∧ outline.children leaf = []
  history
    : ∀ entry ∈ state.history.entries,
        entry.1 ≠ rootName
        ∧ outline.has entry.1 = true
        ∧ outline.isCompound entry.1 = true
        ∧ outline.has entry.2 = true
        ∧ outline.children entry.2 = []
        ∧ outline.contains entry.1 entry.2 = true

theorem isLeafState_iff {machine : Machine} {name : String}
    : machine.isLeafState name = true
      ↔ machine.outline.has name = true ∧ machine.outline.children name = [] := by
  simp only [isLeafState, Outline.isLeaf, Bool.and_eq_true, List.isEmpty_iff]

/-- The root of a machine is no leaf: an accepted chart has states. -/
theorem ne_root_of_isLeafState {machine : Machine} {leaf : String}
    (isLeaf : machine.isLeafState leaf = true)
    : leaf ≠ rootName := by
  rintro rfl
  have compound := machine.wellFormed.isCompound_root machine.sound.populated
  simp only [isLeafState, Bool.and_eq_true] at isLeaf
  simp [Outline.isCompound, isLeaf.2] at compound

theorem Poised.consistent {machine : Machine} {state : State}
    (poised : machine.Poised (LeafInside machine.outline) state)
    : Consistent machine.outline state := by
  constructor
  · intro leaf active
    have isLeaf := poised.active leaf active
    exact ⟨ne_root_of_isLeafState isLeaf, isLeafState_iff.mp isLeaf⟩
  · intro entry member
    obtain ⟨inner, isLeaf, inside⟩ :=
      poised.history entry.1 entry.2 (History.get?_of_mem member)
    obtain ⟨known, compound⟩ := machine.wellFormed.compound_of_contains inside
    obtain ⟨knownLeaf, childless⟩ := isLeafState_iff.mp isLeaf
    exact ⟨inner, known, compound, knownLeaf, childless, inside⟩

/-- Wherever calls lead, what a machine remembers is consistent with its chart, and no further
calls forget a state of the history unless a start or a resumption among them succeeds.
-/
theorem attained_consistent {machine : Machine} {state : State}
    (attained : Attained machine state)
    : Consistent machine.outline state
      ∧ ∀ calls,
          (∀ answered ∈ calls.zip (machine.performAll state calls).2,
              ¬ Renews answered.1 answered.2)
          → ∀ outer ∈ state.history.entries.map (·.1),
              outer ∈ (machine.performAll state calls).1.history.entries.map (·.1) := by
  have poised := attained.poised
  refine ⟨poised.consistent, ?_⟩
  intro calls goOn outer key
  have forgetsNothing := performAll_extends (memorable_leafInside machine) poised goOn
  exact History.mem_keys_iff.mpr (forgetsNothing outer (History.mem_keys_iff.mp key))

/-- Pushing a door ajar and then closing it. -/
def closingCalls : List Call :=
  [.start noon, .dispatch "push" .null noon, .dispatch "close" .null noon]

def closedDoor : State :=
  door.after closingCalls

theorem attained_closedDoor : Attained door closedDoor :=
  .dispatched "close" .null noon (.dispatched "push" .null noon (.started noon (.fresh door)))

theorem closedDoor_consistent
    : closedDoor.active = some "shut"
      ∧ closedDoor.history.entries = [("open", "ajar")]
      ∧ Consistent door.outline closedDoor
      ∧ "open"
        ∈ (door.performAll closedDoor [.dispatch "pull" .null noon]).1.history.entries.map
            (·.1) := by
  obtain ⟨consistent, forgetsNothing⟩ := attained_consistent attained_closedDoor
  refine ⟨by decide +kernel, by decide +kernel, consistent, ?_⟩
  refine forgetsNothing _ ?_ "open" (by decide +kernel)
  intro answered member
  obtain rfl := List.mem_singleton.mp member
  exact id

end Machine

end Statechart
