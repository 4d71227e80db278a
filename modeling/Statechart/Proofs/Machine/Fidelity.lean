import Statechart.Proofs.Machine.Invariant

/-! What a history tells about the past. For every state it tells the leaf of the last departure
that left the state, among all departures since the machine was last started.
-/

namespace Statechart

namespace Machine

/-- The leaf of the last departure that left a state: from a leaf inside it, for a state that
is not inside it.
-/
def lastExit? (outline : Outline) (outer : String) (departures : List Departure)
    : Option String :=
  (departures.filter (fun departure =>
    outline.contains outer departure.leaf && !outline.contains outer departure.state)).getLast?.map
      (·.leaf)

theorem lastExit?_append (outline : Outline) (outer : String) (departures : List Departure)
    (departure : Departure)
    : lastExit? outline outer (departures ++ [departure])
      = if outline.contains outer departure.leaf && !outline.contains outer departure.state then
          some departure.leaf
        else lastExit? outline outer departures := by
  unfold lastExit?
  rw [List.filter_append]
  split
  · rename_i left
    simp [left]
  · rename_i stays
    simp [stays]

/-- A history that tells what some departures left behind, and departures each of which did
leave behind the leaf it left.
-/
structure Faithful (machine : Machine) (history : History) (departures : List Departure)
    : Prop where
  told
    : ∀ outer,
        outer ≠ rootName → history.get? outer = lastExit? machine.outline outer departures
  root : history.get? rootName = none
  kept
    : ∀ departure ∈ departures,
      ∀ outer,
        outer ≠ rootName
        → machine.outline.contains outer departure.leaf = true
        → machine.outline.contains outer departure.reached = false
        → departure.after.history.get? outer = some departure.leaf

theorem faithful_empty (machine : Machine) : machine.Faithful {} [] :=
  ⟨fun _ _ => rfl, rfl, fun _ member => nomatch member⟩

/-- Taking an alternative with a target adds one departure. A state around the leaf that is not
around the leaf reached is not around the state in between either, so it is left.
-/
theorem take_faithful {machine : Machine} {occasion : Occasion} {run after : Run}
    {leaf event target reached : String} {alternative : Alternative}
    {departures : List Departure}
    (declared : machine.Declares alternative) (aims : alternative.target = some target)
    (told : run.history.All (LeafInside machine.outline))
    (isLeaf : machine.isLeafState leaf = true)
    (faithful : machine.Faithful run.history departures)
    (taken : machine.take occasion run leaf event alternative = .ok (after, reached))
    : machine.Faithful after.history
        (departures ++ [⟨leaf, Chart.targetState target, reached, after⟩]) := by
  have recalls := (memorable_leafInside machine).recalls told
  have recorded : ∀ outer,
      after.history.get? outer
        = if outer ∈ machine.exited leaf (Chart.targetState target) then some leaf
          else run.history.get? outer := by
    intro outer
    rw [take_history declared aims recalls isLeaf taken]
    exact get?_recordExits run leaf (Chart.targetState target) outer
  constructor
  · intro outer inner
    rw [recorded, lastExit?_append, faithful.told outer inner]
    simp [mem_exited, inner]
  · rw [recorded, faithful.root]
    simp [mem_exited]
  · intro departure member outer inner around apart
    rcases List.mem_append.mp member with earlier | last
    · exact faithful.kept departure earlier outer inner around apart
    obtain rfl := List.mem_singleton.mp last
    have left : machine.outline.contains outer (Chart.targetState target) = false := by
      have inner : run.history.All machine.TellsInside := told.mono (fun _ _ held => held.2.2)
      rcases take_within declared aims recalls inner isLeaf taken with same | inside
      · exact same ▸ apart
      · refine Bool.eq_false_iff.mpr (fun containing => ?_)
        have reaches := machine.wellFormed.contains_trans containing inside
        simp [apart] at reaches
    simp only [recorded, mem_exited]
    exact if_pos ⟨inner, around, left⟩

/-- A chain adds its departures, by induction on the chain. -/
theorem Chain.faithful {machine : Machine} {occasion : Occasion} {run later : Run}
    {leaf last : String} {before departures : List Departure}
    (chain : machine.Chain occasion run leaf departures later last)
    (told : run.history.All (LeafInside machine.outline))
    (isLeaf : machine.isLeafState leaf = true)
    (faithful : machine.Faithful run.history before)
    : machine.Faithful later.history (before ++ departures) := by
  induction chain generalizing before with
  | here => simpa using faithful
  | leave chosen aims taken _ ih =>
      have declared := declares_of_automatic? chosen
      obtain ⟨after, arrived⟩ :=
        take_keeps (memorable_leafInside machine) declared told isLeaf taken
      have next := take_faithful declared aims told isLeaf faithful taken
      simpa using ih after arrived next

theorem Settles.faithful {machine : Machine} {occasion : Occasion} {run final : Run}
    {leaf last : String} {before departures : List Departure}
    (settles : machine.Settles occasion run leaf departures final last)
    (told : run.history.All (LeafInside machine.outline))
    (isLeaf : machine.isLeafState leaf = true)
    (faithful : machine.Faithful run.history before)
    : machine.Faithful final.history (before ++ departures) := by
  obtain ⟨later, stop, chain, ended⟩ := settles
  obtain ⟨_, same, _⟩ := ended.keeps
  exact same ▸ chain.faithful told isLeaf faithful

/-- A start leaves nothing of the past: its own departures are all that is told. -/
theorem Course.faithful_start {machine : Machine} {state : State} {time : Instant}
    {departures : List Departure} {result : State × Outcome}
    (course : machine.Course state (.start time) departures result)
    : machine.Faithful result.1.history departures := by
  cases course with
  | @start _ _ run _ _ _ _ way arrived settles =>
      have empty : run.history = {} := way.keeps.1
      have told : run.history.All (LeafInside machine.outline) := empty ▸ History.all_empty _
      exact settles.faithful told arrived (empty ▸ machine.faithful_empty)

/-- A dispatch adds its departures to those before; by the kind of course it takes. -/
theorem Course.faithful_dispatch {machine : Machine} {state : State} {event : String}
    {payload : Json} {time : Instant} {before departures : List Departure}
    {result : State × Outcome}
    (course : machine.Course state (.dispatch event payload time) departures result)
    (poised : machine.Poised (LeafInside machine.outline) state)
    (faithful : machine.Faithful state.history before)
    : machine.Faithful result.1.history (before ++ departures) := by
  cases course with
  | ignored active unanswered => simpa [unchanged] using faithful
  | internal active answered internal acted settles =>
      have same := (act_keeps acted).1
      exact settles.faithful (same ▸ poised.history) (poised.active _ active) (same ▸ faithful)
  | moved active answered aims taken settles =>
      have declared := declares_of_answer? answered
      have isLeaf := poised.active _ active
      obtain ⟨after, arrived⟩ :=
        take_keeps (memorable_leafInside machine) declared poised.history isLeaf taken
      have next := take_faithful declared aims poised.history isLeaf faithful taken
      rw [List.append_cons]
      exact settles.faithful after arrived next

-----------------------------------------------------------------------------------------
-- Over whole runs
-----------------------------------------------------------------------------------------

/-- The departures since the last start, before and after some calls: a call that fails adds
none, a start begins anew, and a dispatch adds its own.
-/
inductive Journey (machine : Machine)
    : State → List Departure → List Call → List Departure → Prop
  | here {state departures} : Journey machine state departures [] departures
  | failed {state departures call calls failure all}
    (failed : machine.perform state call = (state, .failed failure))
    (rest : Journey machine state departures calls all)
    : Journey machine state departures (call :: calls) all
  | started {state departures time calls result taken all}
    (started : machine.start time = .ok result)
    (course : machine.Course state (.start time) taken result)
    (rest : Journey machine result.1 taken calls all)
    : Journey machine state departures (.start time :: calls) all
  | dispatched {state departures event payload time calls result taken all}
    (dispatched : machine.dispatch state event payload time = .ok result)
    (course : machine.Course state (.dispatch event payload time) taken result)
    (rest : Journey machine result.1 (departures ++ taken) calls all)
    : Journey machine state departures (.dispatch event payload time :: calls) all

/-- Starts and dispatches make up a journey, by induction on the calls. -/
theorem exists_journey (machine : Machine) (state : State) (departures : List Departure)
    {calls : List Call} (unresumed : ∀ checkpoint, .resume checkpoint ∉ calls)
    : ∃ all, machine.Journey state departures calls all := by
  induction calls generalizing state departures with
  | nil => exact ⟨departures, .here⟩
  | cons call calls ih =>
      have rest : ∀ checkpoint, .resume checkpoint ∉ calls :=
        fun checkpoint member => unresumed checkpoint (List.mem_cons_of_mem _ member)
      cases call with
      | start time =>
          cases started : machine.start time with
          | error failure =>
              have failed : machine.perform state (.start time) = (state, .failed failure) := by
                simp only [perform, started, conclude]
              obtain ⟨all, journey⟩ := ih _ _ rest
              exact ⟨all, .failed failed journey⟩
          | ok result =>
              obtain ⟨taken, course⟩ := course_of_start state started
              obtain ⟨all, journey⟩ := ih _ _ rest
              exact ⟨all, .started started course journey⟩
      | dispatch event payload time =>
          cases dispatched : machine.dispatch state event payload time with
          | error failure =>
              have failed
                  : machine.perform state (.dispatch event payload time)
                    = (state, .failed failure) := by
                simp only [perform, dispatched, conclude]
              obtain ⟨all, journey⟩ := ih _ _ rest
              exact ⟨all, .failed failed journey⟩
          | ok result =>
              obtain ⟨taken, course⟩ := course_of_dispatch dispatched
              obtain ⟨all, journey⟩ := ih _ _ rest
              exact ⟨all, .dispatched dispatched course journey⟩
      | resume checkpoint => exact absurd List.mem_cons_self (unresumed checkpoint)

/-- What the history tells at the end of a journey is what its departures left behind, by
induction on the journey.
-/
theorem Journey.faithful {machine : Machine} {state : State}
    {departures all : List Departure} {calls : List Call}
    (journey : machine.Journey state departures calls all)
    (poised : machine.Poised (LeafInside machine.outline) state)
    (faithful : machine.Faithful state.history departures)
    : machine.Faithful (machine.performAll state calls).1.history all := by
  have memorable := memorable_leafInside machine
  induction journey with
  | here => exact faithful
  | failed failed _ ih =>
      simp only [performAll, failed]
      exact ih poised faithful
  | started started course _ ih =>
      simp only [performAll, perform, started, conclude]
      exact ih (course.poised memorable poised) course.faithful_start
  | dispatched dispatched course _ ih =>
      simp only [performAll, perform, dispatched, conclude]
      exact ih (course.poised memorable poised) (course.faithful_dispatch poised faithful)

/-- Calls have one journey, by induction on one of two. -/
theorem Journey.unique {machine : Machine} {state : State}
    {departures all all' : List Departure} {calls : List Call}
    (journey : machine.Journey state departures calls all)
    (journey' : machine.Journey state departures calls all')
    : all = all' := by
  induction journey with
  | here =>
      cases journey' with
      | here => rfl
  | failed failed _ ih =>
      cases journey' with
      | failed _ rest' => exact ih rest'
      | started started' => simp [perform, started', conclude] at failed
      | dispatched dispatched' => simp [perform, dispatched', conclude] at failed
  | started started course _ ih =>
      cases journey' with
      | failed failed' => simp [perform, started, conclude] at failed'
      | started started' course' rest' =>
          obtain rfl := Except.ok.inj (started.symm.trans started')
          obtain rfl := course.unique course'
          exact ih rest'
  | dispatched dispatched course _ ih =>
      cases journey' with
      | failed failed' => simp [perform, dispatched, conclude] at failed'
      | dispatched dispatched' course' rest' =>
          obtain rfl := Except.ok.inj (dispatched.symm.trans dispatched')
          obtain rfl := course.unique course'
          exact ih rest'

/-- After any starts and dispatches, the departures since the last start that succeeded are
determined, and the history tells exactly what they left behind: for every state but the root
the leaf of the last departure that left it, and right after each departure the leaf it left
for every state around that leaf that is not around the leaf it reached.
-/
theorem history_faithful (machine : Machine) {calls : List Call}
    (unresumed : ∀ checkpoint, .resume checkpoint ∉ calls)
    : ∃ departures,
        machine.Journey machine.fresh [] calls departures
        ∧ (∀ others, machine.Journey machine.fresh [] calls others → others = departures)
        ∧ machine.Faithful (machine.after calls).history departures := by
  obtain ⟨departures, journey⟩ := machine.exists_journey machine.fresh [] unresumed
  refine ⟨departures, journey, fun others journey' => journey'.unique journey, ?_⟩
  exact journey.faithful (machine.poised_fresh _) machine.faithful_empty

/-- The door that was closed when it stood ajar tells so. -/
theorem closedDoor_faithful
    : ∃ departures,
        door.Faithful closedDoor.history departures
        ∧ lastExit? door.outline "open" departures = some "ajar" := by
  have unresumed : ∀ checkpoint, .resume checkpoint ∉ closingCalls := by
    simp [closingCalls]
  obtain ⟨departures, _, _, faithful⟩ := door.history_faithful unresumed
  refine ⟨departures, faithful, ?_⟩
  rw [← faithful.told "open" (by decide)]
  decide +kernel

end Machine

end Statechart
