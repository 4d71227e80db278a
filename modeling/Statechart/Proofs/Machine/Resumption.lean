import Statechart.Proofs.Machine.Passage

/-! Which checkpoints are resumed, and what becomes of a machine after that. The names in a
checkpoint must be those of leaves and compound states of the chart. If its history also tells
every leaf for a state around it, then going back to a state leads to a leaf inside it, whatever
the machine does later.
-/

namespace Statechart

namespace Machine

/-- A checkpoint of the version that can be resumed, whose active state is a leaf of the chart and
whose history pairs compound states of the chart and leaves of it.
-/
structure Fits (machine : Machine) (checkpoint : Checkpoint) : Prop where
  version : checkpoint.version = Checkpoint.currentVersion
  active : machine.isLeafState checkpoint.activeState = true
  history
    : ∀ entry ∈ checkpoint.history.entries,
        machine.outline.has entry.1 = true
        ∧ machine.outline.isCompound entry.1 = true
        ∧ machine.isLeafState entry.2 = true

theorem fitsEntry_iff {machine : Machine} {entry : String × String}
    : machine.fitsEntry entry = true
      ↔ machine.outline.has entry.1 = true
        ∧ machine.outline.isCompound entry.1 = true
        ∧ machine.isLeafState entry.2 = true := by
  simp only [fitsEntry, Bool.and_eq_true, and_assoc]

/-- What a machine remembers once it has resumed a checkpoint. -/
def resumed (checkpoint : Checkpoint) : State where
  model := checkpoint.model
  active := some checkpoint.activeState
  history := checkpoint.history
  log := checkpoint.log

/-- A checkpoint that fits is resumed, and no other. -/
theorem resume_eq_ok_iff {machine : Machine} {checkpoint : Checkpoint} {next : State}
    : machine.resume checkpoint = .ok next
      ↔ machine.Fits checkpoint ∧ next = resumed checkpoint := by
  constructor
  · intro accepted
    obtain ⟨isLeaf, fits, same⟩ := resume_ok accepted
    have version : checkpoint.version = Checkpoint.currentVersion := by
      by_contra differs
      simp [resume, differs] at accepted
    exact ⟨⟨version, isLeaf, fun entry member => fitsEntry_iff.mp (fits entry member)⟩, same⟩
  · rintro ⟨fits, rfl⟩
    have none
        : checkpoint.history.entries.find? (fun entry => !machine.fitsEntry entry) = none := by
      refine List.find?_eq_none.mpr (fun entry member => ?_)
      simp [fitsEntry_iff.mpr (fits.history entry member)]
    simp [resume, fits.version, fits.active, none, resumed]

/-- A checkpoint whose history tells every leaf for a state around it. -/
def Coherent (machine : Machine) (checkpoint : Checkpoint) : Prop :=
  ∀ entry ∈ checkpoint.history.entries, machine.outline.contains entry.1 entry.2 = true

/-- Telling a leaf of the chart for a state around it. -/
def TellsLeafInside (machine : Machine) (state leaf : String) : Prop :=
  machine.TellsLeaf state leaf ∧ machine.TellsInside state leaf

theorem memorable_tellsLeafInside (machine : Machine) : machine.Memorable machine.TellsLeafInside :=
  ⟨fun _ _ held => held.1, fun _ _ _ isLeaf around => ⟨isLeaf, around⟩⟩

theorem resume_poised_inside {machine : Machine} {checkpoint : Checkpoint} {next : State}
    (accepted : machine.resume checkpoint = .ok next) (coherent : machine.Coherent checkpoint)
    : machine.Poised machine.TellsLeafInside next := by
  have poised := resume_poised accepted
  obtain ⟨_, rfl⟩ := resume_eq_ok_iff.mp accepted
  refine ⟨poised.active, ?_⟩
  intro outer leaf found
  exact ⟨poised.history outer leaf found, coherent _ (History.mem_of_get? found)⟩

-----------------------------------------------------------------------------------------
-- Going back leads inside
-----------------------------------------------------------------------------------------

theorem targetState_of_owner {target owner : String} (back : historyOwner? target = some owner)
    : Chart.targetState target = owner := by
  simp [Chart.targetState, back]

/-- A leaf that is a state or inside it is inside it if the state is compound. -/
theorem contains_of_within {machine : Machine} {state leaf : String}
    (compound : machine.outline.isCompound state = true)
    (isLeaf : machine.isLeafState leaf = true)
    (within : leaf = state ∨ machine.outline.contains state leaf = true)
    : machine.outline.contains state leaf = true := by
  rcases within with rfl | inside
  · simp only [isLeafState, Bool.and_eq_true] at isLeaf
    simp [Outline.isCompound, isLeaf.2] at compound
  · exact inside

/-- The owner of a declared history target is a compound state. -/
theorem Declares.isCompound_owner {machine : Machine} {alternative : Alternative}
    {target owner : String} (declared : machine.Declares alternative)
    (aims : alternative.target = some target) (back : historyOwner? target = some owner)
    : machine.outline.isCompound owner = true := by
  have found := declared.isTarget aims
  simp only [Chart.isTarget, back, Bool.and_eq_true] at found
  exact found.2

theorem landing_of_told {run : Run} {target owner leaf : String}
    (back : historyOwner? target = some owner) (told : run.history.get? owner = some leaf)
    : landing run target = leaf := by
  simp [landing, remembered?, isHistoryTarget, targetState_of_owner back, back, told]

/-- A way down from where a history target lands ends inside the owner of the target, at the leaf
that is remembered for it if there is one: at a leaf there is nothing left to enter.
-/
theorem Way.ends_back {machine : Machine} {payload : Json} {run later : Run}
    {target owner last : String} {alternatives : List Alternative}
    (way : machine.Way payload run (landing run target) alternatives later last)
    (back : historyOwner? target = some owner)
    (compound : machine.outline.isCompound owner = true)
    (told : run.history.All machine.TellsLeafInside)
    (arrived : machine.isLeafState last = true)
    : machine.outline.contains owner last = true
      ∧ ∀ leaf, run.history.get? owner = some leaf → last = leaf := by
  have inside : run.history.All machine.TellsInside := told.mono (fun _ _ held => held.2)
  constructor
  · refine contains_of_within compound arrived ?_
    have lands
        : landing run target = Chart.targetState target
          ∨ machine.outline.contains (Chart.targetState target) (landing run target) = true :=
      landing_within inside
    rw [targetState_of_owner back] at lands
    rcases lands with same | lands
    · exact same ▸ way.within inside
    · rcases way.within inside with same | deeper
      · exact Or.inr (same ▸ lands)
      · exact Or.inr (machine.wellFormed.contains_trans lands deeper)
  · intro leaf remembered
    have lands : landing run target = leaf := landing_of_told back remembered
    have isLeaf : machine.isLeafState leaf = true := (told _ _ remembered).1
    cases way with
    | here => exact lands
    | enter step _ => simp [lands ▸ step.not_leaf] at isLeaf

/-- Taking an alternative that goes back ends so. -/
theorem take_back {machine : Machine} {occasion : Occasion} {run after : Run}
    {leaf event target owner reached : String} {alternative : Alternative}
    (declared : machine.Declares alternative) (aims : alternative.target = some target)
    (back : historyOwner? target = some owner)
    (told : run.history.All machine.TellsLeafInside)
    (isLeaf : machine.isLeafState leaf = true)
    (taken : machine.take occasion run leaf event alternative = .ok (after, reached))
    : machine.isLeafState reached = true
      ∧ machine.outline.contains owner reached = true
      ∧ ∀ leaf, after.history.get? owner = some leaf → reached = leaf := by
  have memorable := machine.memorable_tellsLeafInside
  obtain ⟨next, alternatives, later, departs, way, arrived, rfl⟩ :=
    take_ok declared aims (memorable.recalls told) isLeaf taken
  have told := departs.told memorable told isLeaf
  have compound := declared.isCompound_owner aims back
  obtain ⟨inside, remembered⟩ := way.ends_back back compound told arrived
  have same : later.history = next.history := way.keeps.1
  exact ⟨arrived, inside, fun leaf found => remembered leaf (same ▸ found)⟩

/-- Entering a state by an alternative that goes back ends so, and inside that state as well. -/
theorem Enters.descends_back {machine : Machine} {payload : Json} {run next later : Run}
    {name reached target owner last : String} {alternative : Alternative}
    (step : machine.Enters payload run name alternative next reached)
    (aims : alternative.target = some target) (back : historyOwner? target = some owner)
    (told : run.history.All machine.TellsLeafInside)
    (descended : machine.descend payload run name = .ok (later, last))
    : machine.isLeafState last = true
      ∧ machine.outline.contains name last = true
      ∧ machine.outline.contains owner last = true
      ∧ ∀ leaf, run.history.get? owner = some leaf → last = leaf := by
  have memorable := machine.memorable_tellsLeafInside
  have declared := declares_of_automatic? step.chosen
  have compound := declared.isCompound_owner aims back
  obtain ⟨target', aims', inner, rfl⟩ := step.lands
  obtain rfl := Option.some.inj (aims.symm.trans aims')
  rw [targetState_of_owner back] at inner
  rw [step.descend_eq (memorable.recalls told)] at descended
  have told : next.history.All machine.TellsLeafInside := step.history_eq ▸ told
  have known := has_landing (declared.isTarget aims) (memorable.recalls told)
  obtain ⟨alternatives, stop, state, way, ended⟩ := exists_way known (memorable.recalls told)
  rw [descended] at ended
  cases ended with
  | leaf arrived =>
      obtain ⟨inside, remembered⟩ := way.ends_back back compound told arrived
      have same : run.history = next.history := step.history_eq.symm
      exact ⟨arrived, machine.wellFormed.contains_trans inner inside, inside,
        fun leaf found => remembered leaf (same ▸ found)⟩

/-- From a state of a machine, whatever a call takes or enters by a history target ends in a leaf
inside the owner of the target, namely the one that is remembered for it if there is one.
-/
structure GoesBackInside (machine : Machine) (state : State) : Prop where
  taken
    : ∀ call occasion run leaf event alternative target owner after reached,
        machine.Takes state call occasion run leaf event alternative
        → alternative.target = some target
        → historyOwner? target = some owner
        → machine.take occasion run leaf event alternative = .ok (after, reached)
        → machine.isLeafState reached = true
          ∧ machine.outline.contains owner reached = true
          ∧ ∀ told, after.history.get? owner = some told → reached = told
  entered
    : ∀ call payload run name alternative next reached target owner later last,
        machine.Entered state call run name
        → machine.Enters payload run name alternative next reached
        → alternative.target = some target
        → historyOwner? target = some owner
        → machine.descend payload run name = .ok (later, last)
        → machine.isLeafState last = true
          ∧ machine.outline.contains name last = true
          ∧ machine.outline.contains owner last = true
          ∧ ∀ told, run.history.get? owner = some told → last = told

theorem Poised.goesBackInside {machine : Machine} {state : State}
    (poised : machine.Poised machine.TellsLeafInside state)
    : machine.GoesBackInside state := by
  have memorable := machine.memorable_tellsLeafInside
  constructor
  · intro call occasion run leaf event alternative target owner after reached takes aims back taken
    obtain ⟨told, isLeaf⟩ := takes.told memorable poised
    exact take_back takes.declared aims back told isLeaf taken
  · intro call payload run name alternative next reached target owner later last entered step aims
      back descended
    exact step.descends_back aims back (entered.told memorable poised) descended

/-- A checkpoint is resumed exactly if it fits, and then as it is; one that is refused leaves the
state as it was. Once a coherent checkpoint is resumed, going back to a state leads to a leaf
inside it, whatever calls come later that resume coherent checkpoints only.
-/
theorem resume_accepts (machine : Machine) (state : State) (checkpoint : Checkpoint)
    : ((machine.perform state (.resume checkpoint)).2 = .resumed ↔ machine.Fits checkpoint)
      ∧ (machine.Fits checkpoint
        → machine.perform state (.resume checkpoint) = (resumed checkpoint, .resumed))
      ∧ (¬ machine.Fits checkpoint
        → (machine.perform state (.resume checkpoint)).1 = state)
      ∧ (machine.Fits checkpoint
        → machine.Coherent checkpoint
        → ∀ later,
            (∀ other, .resume other ∈ later → machine.Coherent other)
            → machine.GoesBackInside
                (machine.performAll state (.resume checkpoint :: later)).1) := by
  have accepted : machine.Fits checkpoint → machine.resume checkpoint = .ok (resumed checkpoint) :=
    fun fits => resume_eq_ok_iff.mpr ⟨fits, rfl⟩
  have performed (fits : machine.Fits checkpoint)
      : machine.perform state (.resume checkpoint) = (resumed checkpoint, .resumed) := by
    simp only [perform, accepted fits]
  have refused (misfits : ¬ machine.Fits checkpoint)
      : ∃ error, machine.perform state (.resume checkpoint) = (state, .refused error) := by
    cases answer : machine.resume checkpoint with
    | ok next => exact absurd (resume_eq_ok_iff.mp answer).1 misfits
    | error error => exact ⟨error, by simp only [perform, answer]⟩
  refine ⟨⟨?_, ?_⟩, performed, ?_, ?_⟩
  · intro answer
    by_contra misfits
    obtain ⟨error, same⟩ := refused misfits
    simp [same] at answer
  · intro fits
    rw [performed fits]
  · intro misfits
    obtain ⟨error, same⟩ := refused misfits
    rw [same]
  · intro fits coherent later others
    have poised := resume_poised_inside (accepted fits) coherent
    have stays : machine.Poised machine.TellsLeafInside
        (machine.performAll (resumed checkpoint) later).1 := by
      refine performAll_poised_of machine.memorable_tellsLeafInside poised ?_
      intro other next member accepted'
      exact resume_poised_inside accepted' (others other member)
    simp only [performAll, performed fits]
    exact stays.goesBackInside

-----------------------------------------------------------------------------------------
-- A leaf that is told for a state that it does not lie in
-----------------------------------------------------------------------------------------

/-- A door that is shut, with a history that tells a leaf for the state of being open. -/
def shutDoor (told : String) : Checkpoint where
  version := Checkpoint.currentVersion
  id := "door"
  timestamp := noon
  activeState := "shut"
  model := .null
  history := ({} : History).record "open" told
  log := {}

/-- A door that was left ajar is pulled ajar again. -/
theorem doorAjar_goesBack
    : door.Fits (shutDoor "ajar")
      ∧ door.Coherent (shutDoor "ajar")
      ∧ door.GoesBackInside (resumed (shutDoor "ajar"))
      ∧ (door.performAll door.fresh
            [.resume (shutDoor "ajar"), .dispatch "pull" .null noon]).1.active
          = some "ajar" := by
  have fits : door.Fits (shutDoor "ajar") := by
    refine ⟨rfl, by decide, ?_⟩
    intro entry member
    obtain rfl := List.mem_singleton.mp member
    decide
  have coherent : door.Coherent (shutDoor "ajar") := by
    intro entry member
    obtain rfl := List.mem_singleton.mp member
    decide
  obtain ⟨_, performed, _, goesBack⟩ := door.resume_accepts door.fresh (shutDoor "ajar")
  have inside := goesBack fits coherent [] (by simp)
  simp only [performAll, performed fits] at inside
  exact ⟨fits, coherent, inside, by decide +kernel⟩

/-- A checkpoint is resumed that tells a leaf for a state it does not lie in, and going back to
that state leads out of it.
-/
theorem doorShut_strays
    : door.outline.contains "open" "shut" = false
      ∧ (shutDoor "shut").history.entries = [("open", "shut")]
      ∧ (door.perform door.fresh (.resume (shutDoor "shut"))).2 = .resumed
      ∧ door.answer? (resumed (shutDoor "shut")) "shut" "pull" .null
          = some ⟨none, some (historyOf "open"), none⟩
      ∧ (door.performAll door.fresh
            [.resume (shutDoor "shut"), .dispatch "pull" .null noon]).1.active
          = some "shut" := by
  refine ⟨by decide, by decide +kernel, ?_, rfl, by decide +kernel⟩
  have accepted : door.resume (shutDoor "shut") = .ok (resumed (shutDoor "shut")) := rfl
  simp only [perform, accepted]

end Machine

end Statechart
