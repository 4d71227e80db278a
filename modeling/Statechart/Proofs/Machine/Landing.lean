import Statechart.Proofs.Machine.Resumption
import Statechart.Proofs.Machine.Termination

/-! Where transitions land. A leaf is landed at, another state is entered afresh, and a history
target goes back to a leaf: the one just left, if that lies inside the state it names, or the one
remembered for this state. Only the root is never left, so nothing is remembered for it. What is
entered is not left again on the way down.
-/

namespace Statechart

namespace Machine

-----------------------------------------------------------------------------------------
-- A way down looks at what is remembered inside
-----------------------------------------------------------------------------------------

/-- Two histories remember the same for every state inside another. -/
def AgreeInside (machine : Machine) (state : String) (history other : History) : Prop :=
  ∀ inner, machine.outline.contains state inner = true → other.get? inner = history.get? inner

/-- An action does not look at the history. -/
theorem act_with_history {machine : Machine} {payload : Json} {run next : Run}
    {action : Option Action} (acted : machine.act payload run action = .ok next)
    (history : History)
    : machine.act payload { run with history } action = .ok { next with history } := by
  cases action with
  | none =>
      cases acted
      rfl
  | some action =>
      obtain ⟨model, updated, rfl⟩ := act_some_eq_ok_iff.mp acted
      exact act_some_eq_ok_iff.mpr ⟨model, updated, rfl⟩

theorem landing_with_history {machine : Machine} {run : Run} {state target : String}
    {history : History} (agree : machine.AgreeInside state run.history history)
    (inside : machine.outline.contains state (Chart.targetState target) = true)
    : landing { run with history } target = landing run target := by
  simp only [landing, remembered?, agree _ inside]

/-- A step of a way down is the same with another history that agrees inside. -/
theorem Enters.with_history {machine : Machine} {payload : Json} {run next : Run}
    {state reached : String} {alternative : Alternative} {history : History}
    (step : machine.Enters payload run state alternative next reached)
    (agree : machine.AgreeInside state run.history history)
    : machine.Enters payload { run with history } state alternative { next with history }
        reached := by
  refine ⟨step.compound, step.chosen, act_with_history step.acted history, ?_⟩
  obtain ⟨target, aims, inside, rfl⟩ := step.lands
  refine ⟨target, aims, inside, (landing_with_history ?_ inside).symm⟩
  rw [step.history_eq]
  exact agree

/-- So is the whole way, by induction on it: it stays inside the state that it begins with. -/
theorem Way.with_history {machine : Machine} {payload : Json} {run later : Run}
    {state last : String} {alternatives : List Alternative} {history : History}
    (way : machine.Way payload run state alternatives later last)
    (told : run.history.All machine.TellsInside)
    (agree : machine.AgreeInside state run.history history)
    : machine.Way payload { run with history } state alternatives { later with history } last := by
  induction way with
  | here => exact .here
  | @enter run state alternative next reached alternatives later last step rest ih =>
      have same := step.history_eq
      have told : next.history.All machine.TellsInside := same ▸ told
      refine .enter (step.with_history agree) (ih told ?_)
      intro inner deeper
      rw [same]
      refine agree inner ?_
      rcases (Way.enter step .here).within (same ▸ told) with rfl | inside
      · exact deeper
      · exact machine.wellFormed.contains_trans inside deeper

-----------------------------------------------------------------------------------------
-- Entering a state afresh
-----------------------------------------------------------------------------------------

/-- From a state a way leads down to a leaf inside it, and each state on the way is entered by its
own first automatic transition. What is remembered for the state itself, or for any other that does
not lie inside it, makes no difference.
-/
structure EntersAfresh (machine : Machine) (payload : Json) (run : Run) (state : String)
    (later : Run) (leaf : String)
    : Prop where
  way : ∃ alternatives, machine.Way payload run state alternatives later leaf
  isLeaf : machine.isLeafState leaf = true
  inside : machine.outline.contains state leaf = true
  regardless
    : ∀ history,
        machine.Recalls history
        → machine.AgreeInside state run.history history
        → machine.descend payload { run with history } state = .ok ({ later with history }, leaf)

theorem Way.entersAfresh {machine : Machine} {payload : Json} {run later : Run}
    {state leaf : String} {alternatives : List Alternative}
    (way : machine.Way payload run state alternatives later leaf)
    (compound : machine.outline.isCompound state = true)
    (told : run.history.All machine.TellsInside)
    (isLeaf : machine.isLeafState leaf = true)
    : machine.EntersAfresh payload run state later leaf where
  way := ⟨alternatives, way⟩
  isLeaf := isLeaf
  inside := contains_of_within compound isLeaf (way.within told)
  regardless _ recalls agree := (way.with_history told agree).descend_eq recalls isLeaf

/-- A descent ends at a leaf, and does not leave the state that it enters. -/
theorem descend_within {machine : Machine} {payload : Json} {run later : Run}
    {state leaf : String} (known : machine.outline.has state = true)
    (recalls : machine.Recalls run.history) (told : run.history.All machine.TellsInside)
    (descended : machine.descend payload run state = .ok (later, leaf))
    : machine.isLeafState leaf = true
      ∧ (leaf = state ∨ machine.outline.contains state leaf = true) := by
  obtain ⟨alternatives, stop, last, way, ended⟩ :=
    @exists_way machine payload run state known recalls
  rw [descended] at ended
  cases ended with
  | leaf isLeaf => exact ⟨isLeaf, way.within told⟩

-----------------------------------------------------------------------------------------
-- Landing
-----------------------------------------------------------------------------------------

/-- Where a transition from a leaf lands that aims at a target: the run is the one right after its
action, and the later one that at the leaf reached.
-/
inductive LandsAt (machine : Machine) (payload : Json) (before : Run) (leaf target : String)
    (run : Run)
    : Run → String → Prop
  | plain (named : historyOwner? target = none) (isLeaf : machine.isLeafState target = true)
    : LandsAt machine payload before leaf target run run target
  | inside {later reached}
    (named : historyOwner? target = none)
    (compound : machine.outline.isCompound target = true)
    (enters : machine.EntersAfresh payload run target later reached)
    : LandsAt machine payload before leaf target run later reached
  | stays {owner}
    (back : historyOwner? target = some owner) (below : owner ≠ rootName)
    (around : machine.outline.contains owner leaf = true)
    : LandsAt machine payload before leaf target run run leaf
  | returns {owner told}
    (back : historyOwner? target = some owner) (below : owner ≠ rootName)
    (apart : machine.outline.contains owner leaf = false)
    (remembered : before.history.get? owner = some told)
    (inside : machine.outline.contains owner told = true)
    : LandsAt machine payload before leaf target run run told
  | anew {owner later reached}
    (back : historyOwner? target = some owner)
    (forgotten
      : owner = rootName
        ∨ machine.outline.contains owner leaf = false ∧ before.history.get? owner = none)
    (enters : machine.EntersAfresh payload run owner later reached)
    : LandsAt machine payload before leaf target run later reached

/-- A way that begins at a leaf ends there. -/
theorem Way.eq_of_leaf {machine : Machine} {payload : Json} {run later : Run}
    {leaf last : String} {alternatives : List Alternative}
    (way : machine.Way payload run leaf alternatives later last)
    (isLeaf : machine.isLeafState leaf = true)
    : later = run ∧ last = leaf := by
  cases way with
  | here => exact ⟨rfl, rfl⟩
  | enter step _ => simp [step.not_leaf] at isLeaf

theorem landing_of_untold {run : Run} {target owner : String}
    (back : historyOwner? target = some owner) (untold : run.history.get? owner = none)
    : landing run target = owner := by
  simp [landing, remembered?, targetState_of_owner back, untold]

theorem landing_of_plain {run : Run} {target : String} (named : historyOwner? target = none)
    : landing run target = target := by
  simp [landing, remembered?, isHistoryTarget, Chart.targetState, named]

/-- After departing for a history target, the leaf left is remembered for its owner if the owner is
left too; else what was remembered before.
-/
theorem Departs.get?_owner {machine : Machine} {payload : Json} {run next : Run}
    {leaf target owner : String} {alternative : Alternative}
    (departs : machine.Departs payload run leaf alternative target next)
    (back : historyOwner? target = some owner)
    : next.history.get? owner
      = if owner ≠ rootName ∧ machine.outline.contains owner leaf = true then some leaf
        else run.history.get? owner := by
  have apart : machine.outline.contains owner owner = false := by
    by_contra inside
    exact Nat.lt_irrefl _ (Outline.depth_lt_of_contains (by simpa using inside))
  rw [departs.history_eq, get?_recordExits, targetState_of_owner back]
  simp only [mem_exited, apart, and_true]

/-- The way down from where a target lands is as the target says; by the kind of target, and for one
that goes back by what is remembered for its owner.
-/
theorem Departs.landsAt {machine : Machine} {payload : Json} {run next later : Run}
    {leaf target reached : String} {alternative : Alternative} {alternatives : List Alternative}
    (departs : machine.Departs payload run leaf alternative target next)
    (declared : machine.Declares alternative)
    (told : run.history.All (LeafInside machine.outline))
    (isLeaf : machine.isLeafState leaf = true)
    (way : machine.Way payload next (landing next target) alternatives later reached)
    (arrived : machine.isLeafState reached = true)
    : machine.LandsAt payload run leaf target next later reached := by
  have after := departs.told (memorable_leafInside machine) told isLeaf
  have inside : next.history.All machine.TellsInside := after.mono (fun _ _ held => held.2.2)
  cases back : historyOwner? target with
  | none =>
      rw [landing_of_plain back] at way
      have found := Chart.has_targetState (declared.isTarget departs.aims)
      have known : machine.outline.has target = true := by
        simpa [Chart.targetState, back] using found
      by_cases compound : machine.outline.isCompound target = true
      · exact .inside back compound (way.entersAfresh compound inside arrived)
      · have isLeaf : machine.isLeafState target = true := by
          simpa [isLeafState, known, Outline.isCompound] using compound
        obtain ⟨rfl, rfl⟩ := way.eq_of_leaf isLeaf
        exact .plain back isLeaf
  | some owner =>
      have remembers := departs.get?_owner back
      have compound := declared.isCompound_owner departs.aims back
      split at remembers
      · rename_i left
        rw [landing_of_told back remembers] at way
        obtain ⟨rfl, rfl⟩ := way.eq_of_leaf isLeaf
        exact .stays back left.1 left.2
      · rename_i kept
        cases before : run.history.get? owner with
        | none =>
            rw [landing_of_untold back (remembers.trans before)] at way
            refine .anew back ?_ (way.entersAfresh compound inside arrived)
            by_cases root : owner = rootName
            · exact Or.inl root
            · exact Or.inr ⟨by simpa [root] using kept, before⟩
        | some remembered =>
            obtain ⟨below, isLeaf, within⟩ := told owner remembered before
            rw [landing_of_told back (remembers.trans before)] at way
            obtain ⟨rfl, rfl⟩ := way.eq_of_leaf isLeaf
            exact .returns back below (by simpa [below] using kept) before within

/-- What is memorable is told wherever a call begins to go down. -/
theorem Descends.told {machine : Machine} {state : State} {call : Call} {payload : Json}
    {run : Run} {name : String} {holds : String → String → Prop}
    (descends : machine.Descends state call payload run name)
    (memorable : machine.Memorable holds) (poised : machine.Poised holds state)
    : run.history.All holds ∧ machine.outline.has name = true := by
  cases descends with
  | started => exact ⟨History.all_empty holds, machine.wellFormed.has_root⟩
  | taken takes departs =>
      obtain ⟨told, isLeaf⟩ := takes.told memorable poised
      exact ⟨departs.told memorable told isLeaf,
        (departs.lands takes.declared (memorable.recalls told) isLeaf).1⟩

/-- From a state of a machine, every transition with a target that a call takes lands where the
target says. From wherever a call goes down, no state that it enters on the way is left again, and a
descent ends at a leaf there.
-/
structure LandsAsAimed (machine : Machine) (state : State) : Prop where
  taken
    : ∀ call occasion run leaf event alternative target after reached,
        machine.Takes state call occasion run leaf event alternative
        → alternative.target = some target
        → machine.take occasion run leaf event alternative = .ok (after, reached)
        → ∃ next later,
            machine.Departs occasion.payload run leaf alternative target next
            ∧ machine.LandsAt occasion.payload run leaf target next later reached
            ∧ machine.isLeafState reached = true
            ∧ after
              = { later with log := later.log.record ⟨leaf, reached, event, occasion.time⟩ }
  entered
    : ∀ call payload run name alternatives middle inner,
        machine.Descends state call payload run name
        → machine.Way payload run name alternatives middle inner
        → (∀ more later last,
              machine.Way payload middle inner more later last
              → last = inner ∨ machine.outline.contains inner last = true)
          ∧ ∀ later leaf,
              machine.descend payload middle inner = .ok (later, leaf)
              → machine.isLeafState leaf = true
                ∧ (leaf = inner ∨ machine.outline.contains inner leaf = true)

/-- Wherever calls lead, transitions land as they aim. -/
theorem attained_landsAsAimed {machine : Machine} {state : State}
    (attained : Attained machine state)
    : machine.LandsAsAimed state := by
  have poised := attained.poised
  have memorable := memorable_leafInside machine
  constructor
  · intro call occasion run leaf event alternative target after reached takes aims taken
    obtain ⟨told, isLeaf⟩ := takes.told memorable poised
    obtain ⟨next, alternatives, later, departs, way, arrived, same⟩ :=
      take_ok takes.declared aims (memorable.recalls told) isLeaf taken
    have lands := departs.landsAt takes.declared told isLeaf way arrived
    exact ⟨next, later, departs, lands, arrived, same⟩
  · intro call payload run name alternatives middle inner descends way
    obtain ⟨told, known⟩ := descends.told memorable poised
    have inside : run.history.All machine.TellsInside := told.mono (fun _ _ held => held.2.2)
    have known : machine.outline.has inner = true := by
      rcases way.within inside with rfl | deeper
      · exact known
      · exact machine.wellFormed.has_of_contains deeper
    have recalls := memorable.recalls told
    rw [← way.keeps.1] at inside recalls
    exact ⟨fun _ _ _ rest => rest.within inside,
      fun _ _ descended => descend_within known recalls inside descended⟩

/-- A door that was closed when it was ajar, and is pulled, lands ajar again. -/
theorem closedDoor_lands
    : door.LandsAsAimed closedDoor
      ∧ (door.answer? closedDoor "shut" "pull" .null).bind (·.target) = some (historyOf "open")
      ∧ (door.perform closedDoor (.dispatch "pull" .null noon)).1.active = some "ajar" :=
  ⟨attained_landsAsAimed attained_closedDoor, by decide +kernel, by decide +kernel⟩

-----------------------------------------------------------------------------------------
-- Going back to the root
-----------------------------------------------------------------------------------------

/-- A lamp that is dim at first, and goes back to what it was when it is reset. -/
def lampChart : Chart where
  states := .leaf "dim" (.leaf "bright" .nil)
  transitions :=
    [⟨rootName, none, .always (some "dim") none⟩,
      ⟨"dim", some "press", .always (some "bright") none⟩,
      ⟨"bright", some "reset", .always (some (historyOf rootName)) none⟩]

def lamp : Machine where
  chart := lampChart
  outline := ⟨[⟨rootName, []⟩, ⟨"dim", [rootName]⟩, ⟨"bright", [rootName]⟩]⟩
  accepted := rfl
  initialModel := .null
  settings := .null

/-- The lamp when it is bright. -/
def brightLamp : State :=
  lamp.after [.start noon, .dispatch "press" .null noon]

/-- What it goes back to is the root, which has the active leaf inside, and is entered afresh. -/
theorem brightLamp_dims
    : Attained lamp brightLamp
      ∧ brightLamp.active = some "bright"
      ∧ lamp.outline.contains rootName "bright" = true
      ∧ (lamp.answer? brightLamp "bright" "reset" .null).bind (·.target)
        = some (historyOf rootName)
      ∧ (lamp.perform brightLamp (.dispatch "reset" .null noon)).1.active = some "dim" := by
  have attained : Attained lamp brightLamp :=
    .dispatched "press" .null noon (.started noon (.fresh lamp))
  exact ⟨attained, by decide +kernel, by decide +kernel, by decide +kernel, by decide +kernel⟩

end Machine

end Statechart
