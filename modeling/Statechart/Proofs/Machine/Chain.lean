import Statechart.Proofs.Machine.Descent

/-! Chains of automatic transitions. Taking an alternative with a target remembers the leaf
for the states that are left, runs the action and goes down a way from the target; a chain
takes one such alternative after the other, and settling gives what the end of the chain gives.
-/

namespace Statechart

namespace Machine

/-- The states left on the way from a leaf to another state are those around the leaf that do
not contain the other, without the root.
-/
theorem mem_exited {machine : Machine} {leaf state outer : String}
    : outer ∈ machine.exited leaf state
      ↔ outer ≠ rootName
        ∧ machine.outline.contains outer leaf = true
        ∧ machine.outline.contains outer state = false :=
  machine.wellFormed.mem_takeWhile_enclosing

theorem get?_recordExits {machine : Machine} (run : Run) (leaf state outer : String)
    : (machine.recordExits run leaf state).history.get? outer
      = if outer ∈ machine.exited leaf state then some leaf else run.history.get? outer :=
  History.get?_foldl_record run.history leaf outer (machine.exited leaf state)

/-- What holds of a history, and of a leaf with each state around it but the root, holds after
leaving the leaf.
-/
theorem all_recordExits {machine : Machine} {holds : String → String → Prop} {run : Run}
    {leaf : String} (before : run.history.All holds)
    (exits
      : ∀ outer,
          outer ≠ rootName → machine.outline.contains outer leaf = true → holds outer leaf)
    (state : String)
    : (machine.recordExits run leaf state).history.All holds := by
  intro outer found told
  rw [get?_recordExits] at told
  split at told
  · rename_i left
    obtain ⟨inner, around, _⟩ := mem_exited.mp left
    obtain rfl : leaf = found := Option.some.inj told
    exact exits outer inner around
  · exact before outer found told

theorem recalls_recordExits {machine : Machine} {run : Run} {leaf : String}
    (recalls : machine.Recalls run.history) (isLeaf : machine.isLeafState leaf = true)
    (state : String)
    : machine.Recalls (machine.recordExits run leaf state).history :=
  all_recordExits recalls (fun _ _ _ => isLeaf) state

/-- An alternative with a target up to the point where the target is entered: states are
left, then the action runs.
-/
structure Departs (machine : Machine) (payload : Json) (run : Run) (leaf : String)
    (alternative : Alternative) (target : String) (next : Run)
    : Prop where
  aims : alternative.target = some target
  acted
    : machine.act payload (machine.recordExits run leaf (Chart.targetState target))
        alternative.action
      = .ok next

theorem Departs.history_eq {machine : Machine} {payload : Json} {run next : Run}
    {leaf target : String} {alternative : Alternative}
    (departs : machine.Departs payload run leaf alternative target next)
    : next.history = (machine.recordExits run leaf (Chart.targetState target)).history :=
  (act_keeps departs.acted).1

theorem take_internal {machine : Machine} {occasion : Occasion} {run : Run}
    {leaf event : String} {alternative : Alternative} (internal : alternative.target = none)
    : machine.take occasion run leaf event alternative
      = (machine.act occasion.payload run alternative.action).map (fun run => (run, leaf)) := by
  unfold take
  rw [internal]

/-- Taking an alternative with a target departs and then descends from where it lands. -/
theorem take_eq {machine : Machine} {occasion : Occasion} {run : Run}
    {leaf event target : String} {alternative : Alternative}
    (declared : machine.Declares alternative) (aims : alternative.target = some target)
    (recalls : machine.Recalls run.history) (isLeaf : machine.isLeafState leaf = true)
    : machine.take occasion run leaf event alternative
      = (machine.act occasion.payload (machine.recordExits run leaf (Chart.targetState target))
            alternative.action).bind
          (fun next =>
            (machine.descend occasion.payload next (landing next target)).map
              (fun (later, last) =>
                ({ later with log := later.log.record ⟨leaf, last, event, occasion.time⟩ },
                  last))) := by
  unfold take
  simp only [aims, resolve_eq (declared.isTarget aims), bind, Except.bind]
  cases acted : machine.act occasion.payload
      (machine.recordExits run leaf (Chart.targetState target)) alternative.action with
  | error failure => rfl
  | ok next =>
      have after : machine.Recalls next.history :=
        (act_keeps acted).1 ▸ recalls_recordExits recalls isLeaf _
      simp only [arrive_eq after]
      cases machine.descend occasion.payload next (landing next target) <;> rfl

/-- Where a target lands is known, and the history still tells leaves there. -/
theorem Departs.lands {machine : Machine} {payload : Json} {run next : Run}
    {leaf target : String} {alternative : Alternative}
    (departs : machine.Departs payload run leaf alternative target next)
    (declared : machine.Declares alternative) (recalls : machine.Recalls run.history)
    (isLeaf : machine.isLeafState leaf = true)
    : machine.outline.has (landing next target) = true ∧ machine.Recalls next.history := by
  have told : machine.Recalls next.history :=
    departs.history_eq ▸ recalls_recordExits recalls isLeaf _
  exact ⟨has_landing (declared.isTarget departs.aims) told, told⟩

/-- After departing there is a way down from where the target lands. -/
theorem Departs.exists_way {machine : Machine} {payload : Json} {run next : Run}
    {leaf target : String} {alternative : Alternative}
    (departs : machine.Departs payload run leaf alternative target next)
    (declared : machine.Declares alternative) (recalls : machine.Recalls run.history)
    (isLeaf : machine.isLeafState leaf = true)
    : ∃ alternatives later last,
        machine.Way payload next (landing next target) alternatives later last
        ∧ machine.DescentEnd payload later last
            (machine.descend payload next (landing next target)) := by
  obtain ⟨known, told⟩ := departs.lands declared recalls isLeaf
  exact Machine.exists_way known told

/-- Taking an alternative with a target ends at a leaf at the end of a way, with one more
record in the log.
-/
theorem take_ok {machine : Machine} {occasion : Occasion} {run after : Run}
    {leaf event target reached : String} {alternative : Alternative}
    (declared : machine.Declares alternative) (aims : alternative.target = some target)
    (recalls : machine.Recalls run.history) (isLeaf : machine.isLeafState leaf = true)
    (taken : machine.take occasion run leaf event alternative = .ok (after, reached))
    : ∃ next alternatives later,
        machine.Departs occasion.payload run leaf alternative target next
        ∧ machine.Way occasion.payload next (landing next target) alternatives later reached
        ∧ machine.isLeafState reached = true
        ∧ after
          = { later with log := later.log.record ⟨leaf, reached, event, occasion.time⟩ } := by
  rw [take_eq declared aims recalls isLeaf] at taken
  obtain ⟨next, acted, mapped⟩ := bind_eq_ok_iff.mp taken
  have departs : machine.Departs occasion.payload run leaf alternative target next :=
    ⟨aims, acted⟩
  obtain ⟨⟨later, last⟩, descended, equal⟩ := map_eq_ok_iff.mp mapped
  obtain ⟨rfl, rfl⟩ := Prod.mk.inj equal
  obtain ⟨alternatives, stop, state, way, ended⟩ := departs.exists_way declared recalls isLeaf
  rw [descended] at ended
  cases ended with
  | leaf arrived => exact ⟨next, alternatives, later, departs, way, arrived, rfl⟩

/-- It fails in the action, or at the end of a way that is no leaf. -/
theorem take_error {machine : Machine} {occasion : Occasion} {run : Run}
    {leaf event target : String} {alternative : Alternative} {failure : Failure}
    (declared : machine.Declares alternative) (aims : alternative.target = some target)
    (recalls : machine.Recalls run.history) (isLeaf : machine.isLeafState leaf = true)
    (failed : machine.take occasion run leaf event alternative = .error failure)
    : machine.act occasion.payload (machine.recordExits run leaf (Chart.targetState target))
          alternative.action
        = .error failure
      ∨ ∃ next alternatives later last,
          machine.Departs occasion.payload run leaf alternative target next
          ∧ machine.Way occasion.payload next (landing next target) alternatives later last
          ∧ machine.DescentEnd occasion.payload later last (.error failure) := by
  rw [take_eq declared aims recalls isLeaf] at failed
  refine (bind_eq_error_iff.mp failed).imp_right ?_
  rintro ⟨next, acted, descended⟩
  have departs : machine.Departs occasion.payload run leaf alternative target next :=
    ⟨aims, acted⟩
  obtain ⟨alternatives, stop, state, way, ended⟩ := departs.exists_way declared recalls isLeaf
  rw [map_eq_error_iff.mp descended] at ended
  exact ⟨next, alternatives, stop, state, departs, way, ended⟩

/-- After an alternative with a target is taken, the history is the one before with the exits
recorded.
-/
theorem take_history {machine : Machine} {occasion : Occasion} {run after : Run}
    {leaf event target reached : String} {alternative : Alternative}
    (declared : machine.Declares alternative) (aims : alternative.target = some target)
    (recalls : machine.Recalls run.history) (isLeaf : machine.isLeafState leaf = true)
    (taken : machine.take occasion run leaf event alternative = .ok (after, reached))
    : after.history = (machine.recordExits run leaf (Chart.targetState target)).history := by
  obtain ⟨next, alternatives, later, departs, way, _, rfl⟩ :=
    take_ok declared aims recalls isLeaf taken
  exact way.keeps.1.trans departs.history_eq

/-- The log has one more record, of the step from the leaf to the leaf reached. -/
theorem take_log {machine : Machine} {occasion : Occasion} {run after : Run}
    {leaf event target reached : String} {alternative : Alternative}
    (declared : machine.Declares alternative) (aims : alternative.target = some target)
    (recalls : machine.Recalls run.history) (isLeaf : machine.isLeafState leaf = true)
    (taken : machine.take occasion run leaf event alternative = .ok (after, reached))
    : after.log = run.log.record ⟨leaf, reached, event, occasion.time⟩ := by
  obtain ⟨next, alternatives, later, departs, way, _, rfl⟩ :=
    take_ok declared aims recalls isLeaf taken
  have same : later.log = run.log := way.keeps.2.trans (act_keeps departs.acted).2
  simp only [same]

/-- Taking an alternative with a target ends at its state or inside it, if the history tells
leaves inside the states that it tells them for.
-/
theorem take_within {machine : Machine} {occasion : Occasion} {run after : Run}
    {leaf event target reached : String} {alternative : Alternative}
    (declared : machine.Declares alternative) (aims : alternative.target = some target)
    (recalls : machine.Recalls run.history) (told : run.history.All machine.TellsInside)
    (isLeaf : machine.isLeafState leaf = true)
    (taken : machine.take occasion run leaf event alternative = .ok (after, reached))
    : reached = Chart.targetState target
      ∨ machine.outline.contains (Chart.targetState target) reached = true := by
  obtain ⟨next, alternatives, later, departs, way, _, _⟩ :=
    take_ok declared aims recalls isLeaf taken
  have told : next.history.All machine.TellsInside := by
    rw [departs.history_eq]
    exact all_recordExits told (fun outer _ around => around) _
  rcases way.within told with rfl | deeper
  · exact landing_within told
  rcases landing_within told with same | inside
  · exact Or.inr (same ▸ deeper)
  · exact Or.inr (machine.wellFormed.contains_trans inside deeper)

-----------------------------------------------------------------------------------------
-- One automatic transition after the other
-----------------------------------------------------------------------------------------

/-- A transition with a target that was taken: the leaf it left, the state its target led to,
the leaf it reached, and the run right after it.
-/
structure Departure where
  leaf : String
  state : String
  reached : String
  after : Run

/-- Automatic transitions with targets, taken one after the other from a leaf. -/
inductive Chain (machine : Machine) (occasion : Occasion)
    : Run → String → List Departure → Run → String → Prop
  | here {run leaf} : Chain machine occasion run leaf [] run leaf
  | leave {run leaf alternative target next reached departures later last}
    (chosen : machine.automatic? occasion.payload run leaf = some alternative)
    (aims : alternative.target = some target)
    (taken : machine.take occasion run leaf entryEvent alternative = .ok (next, reached))
    (rest : Chain machine occasion next reached departures later last)
    : Chain machine occasion run leaf
        (⟨leaf, Chart.targetState target, reached, next⟩ :: departures) later last

/-- What settling gives where no further automatic transition is taken, after some leaves
have been left.
-/
inductive ChainEnd (machine : Machine) (occasion : Occasion) (left : List String) (run : Run)
    (leaf : String)
    : Except Failure (Run × String) → Prop
  | idle (quiet : machine.automatic? occasion.payload run leaf = none)
    : ChainEnd machine occasion left run leaf (.ok (run, leaf))
  | internal {alternative}
    (chosen : machine.automatic? occasion.payload run leaf = some alternative)
    (internal : alternative.target = none)
    : ChainEnd machine occasion left run leaf
        ((machine.act occasion.payload run alternative.action).map (fun run => (run, leaf)))
  | cycle {alternative target}
    (chosen : machine.automatic? occasion.payload run leaf = some alternative)
    (aims : alternative.target = some target) (again : leaf ∈ left)
    : ChainEnd machine occasion left run leaf (.error (.chart (.automaticCycle leaf)))
  | failed {alternative target failure}
    (chosen : machine.automatic? occasion.payload run leaf = some alternative)
    (aims : alternative.target = some target) (fresh : leaf ∉ left)
    (failed : machine.take occasion run leaf entryEvent alternative = .error failure)
    : ChainEnd machine occasion left run leaf (.error failure)

/-- Settling, by the alternative that the automatic transition of the leaf offers. -/
theorem settle_eq (machine : Machine) (occasion : Occasion) (run : Run) (left : List String)
    (leaf : String)
    : machine.settle occasion run left leaf
      = match machine.automatic? occasion.payload run leaf with
        | none => .ok (run, leaf)
        | some alternative =>
            if alternative.target.isNone then
              (machine.act occasion.payload run alternative.action).map (fun run => (run, leaf))
            else if leaf ∈ left then .error (.chart (.automaticCycle leaf))
            else
              machine.take occasion run leaf entryEvent alternative >>= fun taken =>
                machine.settle occasion taken.1 (leaf :: left) taken.2 := by
  rw [settle]
  split
  · rename_i missing
    simp [automatic?, ← route?_eq, missing]
  · rename_i transition route
    cases selected : transition.select? run.model occasion.payload machine.settings with
    | none => simp [automatic?, ← route?_eq, route, selected]
    | some alternative =>
        simp only [automatic?, ← route?_eq, route, selected, Option.bind_some,
          List.contains_iff_mem,
          dite_eq_ite]
        cases machine.take occasion run leaf entryEvent alternative <;> rfl

/-- Departures from leaves that are all different, and none of which was left before. -/
structure Apart (left : List String) (departures : List Departure) : Prop where
  distinct : (departures.map (·.leaf)).Nodup
  fresh : ∀ departure ∈ departures, departure.leaf ∉ left

theorem apart_nil (left : List String) : Apart left [] :=
  ⟨List.nodup_nil, fun _ member => nomatch member⟩

/-- A departure is apart from later ones if its leaf counts as left for them. -/
theorem apart_cons_iff {left : List String} {departure : Departure}
    {departures : List Departure}
    : Apart left (departure :: departures)
      ↔ departure.leaf ∉ left ∧ Apart (departure.leaf :: left) departures := by
  constructor
  · rintro ⟨distinct, fresh⟩
    obtain ⟨single, distinct⟩ := List.nodup_cons.mp distinct
    refine ⟨fresh departure List.mem_cons_self, distinct, ?_⟩
    intro other member again
    rcases List.mem_cons.mp again with same | before
    · exact single (List.mem_map.mpr ⟨other, member, same⟩)
    · exact fresh other (List.mem_cons_of_mem _ member) before
  · rintro ⟨first, distinct, fresh⟩
    refine ⟨List.nodup_cons.mpr ⟨?_, distinct⟩, ?_⟩
    · intro again
      obtain ⟨other, member, same⟩ := List.mem_map.mp again
      exact fresh other member (same ▸ List.mem_cons_self)
    · intro other member before
      rcases List.mem_cons.mp member with rfl | later
      · exact first before
      · exact fresh other later (List.mem_cons_of_mem _ before)

/-- Settling follows a chain and gives what its end gives, where all leaves of the chain have
been left, each of them once; by the recursion of settling.
-/
theorem exists_apart_chain (machine : Machine) (occasion : Occasion) (run : Run)
    (left : List String) (leaf : String)
    : ∃ departures later last,
        machine.Chain occasion run leaf departures later last
        ∧ Apart left departures
        ∧ machine.ChainEnd occasion ((departures.map (·.leaf)).reverse ++ left) later last
            (machine.settle occasion run left leaf) := by
  fun_induction settle machine occasion run left leaf with
  | case1 run left leaf route =>
      exact ⟨[], run, leaf, .here, apart_nil left, .idle (by simp [automatic?, ← route?_eq, route])⟩
  | case2 run left leaf transition route unselected =>
      have quiet : machine.automatic? occasion.payload run leaf = none := by
        simp [automatic?, ← route?_eq, route, unselected]
      exact ⟨[], run, leaf, .here, apart_nil left, .idle quiet⟩
  | case3 run left leaf transition route alternative selected internal =>
      have chosen : machine.automatic? occasion.payload run leaf = some alternative := by
        simp [automatic?, ← route?_eq, route, selected]
      exact ⟨[], run, leaf, .here, apart_nil left,
        .internal chosen (Option.isNone_iff_eq_none.mp internal)⟩
  | case4 run left leaf transition route alternative selected external again =>
      obtain ⟨target, aims⟩ := Option.ne_none_iff_exists'.mp (by simpa using external)
      have chosen : machine.automatic? occasion.payload run leaf = some alternative := by
        simp [automatic?, ← route?_eq, route, selected]
      exact ⟨[], run, leaf, .here, apart_nil left, .cycle chosen aims (by simpa using again)⟩
  | case5 run left leaf transition route alternative selected external fresh failure failed =>
      obtain ⟨target, aims⟩ := Option.ne_none_iff_exists'.mp (by simpa using external)
      have chosen : machine.automatic? occasion.payload run leaf = some alternative := by
        simp [automatic?, ← route?_eq, route, selected]
      exact ⟨[], run, leaf, .here, apart_nil left,
        .failed chosen aims (by simpa using fresh) failed⟩
  | case6 run left leaf transition route alternative selected external fresh next reached taken
      _ ih =>
      obtain ⟨target, aims⟩ := Option.ne_none_iff_exists'.mp (by simpa using external)
      have chosen : machine.automatic? occasion.payload run leaf = some alternative := by
        simp [automatic?, ← route?_eq, route, selected]
      obtain ⟨departures, later, last, chain, apart, ended⟩ := ih
      refine ⟨_, later, last, .leave chosen aims taken chain, ?_, by simpa using ended⟩
      exact apart_cons_iff.mpr ⟨by simpa using fresh, apart⟩

/-- Settling follows a chain and gives what its end gives. -/
theorem exists_chain (machine : Machine) (occasion : Occasion) (run : Run)
    (left : List String) (leaf : String)
    : ∃ departures later last,
        machine.Chain occasion run leaf departures later last
        ∧ machine.ChainEnd occasion ((departures.map (·.leaf)).reverse ++ left) later last
            (machine.settle occasion run left leaf) := by
  obtain ⟨departures, later, last, chain, _, ended⟩ :=
    machine.exists_apart_chain occasion run left leaf
  exact ⟨departures, later, last, chain, ended⟩

/-- A property of pairs of a state and a leaf that leaving states keeps in a history: it holds
of leaves only, and of every leaf with each state around it but the root.
-/
structure Memorable (machine : Machine) (holds : String → String → Prop) : Prop where
  leaves : ∀ state leaf, holds state leaf → machine.isLeafState leaf = true
  exits
    : ∀ outer leaf,
        outer ≠ rootName
        → machine.isLeafState leaf = true
        → machine.outline.contains outer leaf = true
        → holds outer leaf

theorem Memorable.recalls {machine : Machine} {holds : String → String → Prop}
    (memorable : machine.Memorable holds) {history : History} (told : history.All holds)
    : machine.Recalls history :=
  fun state leaf found => memorable.leaves state leaf (told state leaf found)

/-- Being a leaf is all that a machine relies on when it goes back. -/
theorem memorable_tellsLeaf (machine : Machine) : machine.Memorable machine.TellsLeaf :=
  ⟨fun _ _ isLeaf => isLeaf, fun _ _ _ isLeaf _ => isLeaf⟩

/-- Taking an alternative from a leaf ends at a leaf and keeps what is memorable. -/
theorem take_keeps {machine : Machine} {occasion : Occasion} {run after : Run}
    {leaf event reached : String} {alternative : Alternative}
    {holds : String → String → Prop} (memorable : machine.Memorable holds)
    (declared : machine.Declares alternative) (before : run.history.All holds)
    (isLeaf : machine.isLeafState leaf = true)
    (taken : machine.take occasion run leaf event alternative = .ok (after, reached))
    : after.history.All holds ∧ machine.isLeafState reached = true := by
  cases aims : alternative.target with
  | none =>
      rw [take_internal aims] at taken
      obtain ⟨next, acted, same⟩ := map_eq_ok_iff.mp taken
      obtain ⟨rfl, rfl⟩ := Prod.mk.inj same
      exact ⟨(act_keeps acted).1 ▸ before, isLeaf⟩
  | some target =>
      have recalls := memorable.recalls before
      obtain ⟨_, _, _, _, _, arrived, _⟩ := take_ok declared aims recalls isLeaf taken
      refine ⟨?_, arrived⟩
      rw [take_history declared aims recalls isLeaf taken]
      exact all_recordExits before (fun outer inner => memorable.exits outer leaf inner isLeaf) _

/-- So does a chain of departures, by induction on the chain. -/
theorem Chain.keeps {machine : Machine} {occasion : Occasion} {run later : Run}
    {leaf last : String} {departures : List Departure} {holds : String → String → Prop}
    (chain : machine.Chain occasion run leaf departures later last)
    (memorable : machine.Memorable holds) (before : run.history.All holds)
    (isLeaf : machine.isLeafState leaf = true)
    : later.history.All holds ∧ machine.isLeafState last = true := by
  induction chain with
  | here => exact ⟨before, isLeaf⟩
  | leave chosen aims taken _ ih =>
      have declared := declares_of_automatic? chosen
      obtain ⟨after, arrived⟩ := take_keeps memorable declared before isLeaf taken
      exact ih after arrived

/-- A chain comes to rest where no automatic transition applies, or after the action of one that
has no target.
-/
theorem ChainEnd.ok_cases {machine : Machine} {occasion : Occasion} {left : List String}
    {run final : Run} {leaf last : String}
    (ended : machine.ChainEnd occasion left run leaf (.ok (final, last)))
    : last = leaf
      ∧ (machine.automatic? occasion.payload run leaf = none ∧ final = run
        ∨ ∃ alternative,
            machine.automatic? occasion.payload run leaf = some alternative
            ∧ alternative.target = none
            ∧ machine.act occasion.payload run alternative.action = .ok final) := by
  generalize equal : (Except.ok (final, last) : Except Failure (Run × String)) = result at ended
  cases ended with
  | idle quiet =>
      cases equal
      exact ⟨rfl, Or.inl ⟨quiet, rfl⟩⟩
  | internal chosen internal =>
      obtain ⟨next, acted, same⟩ := map_eq_ok_iff.mp equal.symm
      cases same
      exact ⟨rfl, Or.inr ⟨_, chosen, internal, acted⟩⟩
  | cycle => cases equal
  | failed => cases equal

/-- The leaf, the history and the log stay where a chain comes to rest. -/
theorem ChainEnd.keeps {machine : Machine} {occasion : Occasion} {left : List String}
    {run final : Run} {leaf last : String}
    (ended : machine.ChainEnd occasion left run leaf (.ok (final, last)))
    : last = leaf ∧ final.history = run.history ∧ final.log = run.log := by
  obtain ⟨same, ⟨_, rfl⟩ | ⟨_, _, _, acted⟩⟩ := ended.ok_cases
  · exact ⟨same, rfl, rfl⟩
  · exact ⟨same, act_keeps acted⟩

/-- No automatic transition with a target is left to be taken there. -/
theorem ChainEnd.rests {machine : Machine} {occasion : Occasion} {left : List String}
    {run final : Run} {leaf last : String} {alternative : Alternative}
    (ended : machine.ChainEnd occasion left run leaf (.ok (final, last)))
    (chosen : machine.automatic? occasion.payload run leaf = some alternative)
    : alternative.target = none := by
  obtain ⟨_, ⟨quiet, _⟩ | ⟨other, chosen', internal, _⟩⟩ := ended.ok_cases
  · simp [quiet] at chosen
  · obtain rfl := Option.some.inj (chosen.symm.trans chosen')
    exact internal

/-- Where a leaf has no automatic transition with a target, settling is at its end at once. -/
theorem ended_of_rests {machine : Machine} {occasion : Occasion} {run : Run}
    {left : List String} {leaf : String}
    (rests
      : ∀ alternative,
          machine.automatic? occasion.payload run leaf = some alternative
          → alternative.target = none)
    : machine.ChainEnd occasion left run leaf (machine.settle occasion run left leaf) := by
  obtain ⟨departures, later, last, chain, ended⟩ := machine.exists_chain occasion run left leaf
  cases chain with
  | here => exact ended
  | leave chosen aims => simp [rests _ chosen] at aims

end Machine

end Statechart
