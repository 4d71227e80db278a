import Statechart.Proofs.Machine.Passage

/-! How long calls take, and where they stop. A way down is no longer than the chart is deep,
and a chain of automatic transitions leaves every leaf at most once. A chain that comes back to
a leaf it has left, and would leave it again, is cut there and nowhere else.
-/

namespace Statechart

/-- The states without other states inside them, in order of declaration. -/
def Outline.leaves (outline : Outline) : List String :=
  outline.names.filter outline.isLeaf

namespace Machine

theorem mem_leaves {machine : Machine} {leaf : String}
    (isLeaf : machine.isLeafState leaf = true)
    : leaf ∈ machine.outline.leaves := by
  simp only [isLeafState, Bool.and_eq_true] at isLeaf
  obtain ⟨known, childless⟩ := isLeaf
  have member := machine.wellFormed.entry_of_has known
  exact List.mem_filter.mpr ⟨List.mem_map.mpr ⟨_, member, rfl⟩, childless⟩

-----------------------------------------------------------------------------------------
-- Ways down are bounded by depth
-----------------------------------------------------------------------------------------

/-- The ways down of a call, by the run and the state where each begins: from the root, and
from wherever the target of an alternative leads that the call takes.
-/
inductive Descends (machine : Machine) (state : State) : Call → Json → Run → String → Prop
  | started {time} : Descends machine state (.start time) .null machine.firstRun rootName
  | taken {call occasion run leaf event alternative target next}
    (takes : machine.Takes state call occasion run leaf event alternative)
    (departs : machine.Departs occasion.payload run leaf alternative target next)
    : Descends machine state call occasion.payload next (landing next target)

/-- A step goes deeper, or to a leaf that was remembered. -/
theorem Enters.deeper {machine : Machine} {payload : Json} {run next : Run}
    {state reached : String} {alternative : Alternative}
    (step : machine.Enters payload run state alternative next reached)
    (recalls : machine.Recalls run.history)
    : machine.isLeafState reached = true
      ∨ machine.outline.depth state < machine.outline.depth reached :=
  (step.reached_cases recalls).imp_right Outline.depth_lt_of_contains

/-- A state that is entered is not among the deepest: there is one inside it. -/
theorem Enters.depth_lt_height {machine : Machine} {payload : Json} {run next : Run}
    {state reached : String} {alternative : Alternative}
    (step : machine.Enters payload run state alternative next reached)
    : machine.outline.depth state < machine.outline.height := by
  obtain ⟨target, _, inside, _⟩ := step.lands
  have deeper := Outline.depth_lt_of_contains inside
  have bounded := machine.outline.depth_le_height (Chart.targetState target)
  omega

/-- A way down has no more steps than there are levels below its first state; by induction on
the way. A step to a remembered leaf is the last one, any other goes down a level.
-/
theorem Way.length_le {machine : Machine} {payload : Json} {run later : Run}
    {state last : String} {alternatives : List Alternative}
    (way : machine.Way payload run state alternatives later last)
    (recalls : machine.Recalls run.history)
    : alternatives.length + machine.outline.depth state ≤ machine.outline.height := by
  induction way with
  | @here run state =>
      have bounded := machine.outline.depth_le_height state
      simpa using bounded
  | @enter run state alternative next reached alternatives later last step rest ih =>
      have room := step.depth_lt_height
      rcases step.deeper recalls with arrived | deeper
      · cases rest with
        | here =>
            simp only [List.length_cons, List.length_nil]
            omega
        | enter step' _ => simp [step'.not_leaf] at arrived
      · have below := ih (step.history_eq ▸ recalls)
        simp only [List.length_cons]
        omega

/-- Every state from which a call goes down is known, and its history tells leaves. -/
theorem Descends.known {machine : Machine} {state : State} {call : Call} {payload : Json}
    {run : Run} {name : String}
    (descends : machine.Descends state call payload run name)
    (poised : machine.Poised machine.TellsLeaf state)
    : machine.outline.has name = true ∧ machine.Recalls run.history := by
  cases descends with
  | started => exact ⟨machine.wellFormed.has_root, History.all_empty _⟩
  | taken takes departs =>
      obtain ⟨told, isLeaf⟩ := takes.told machine.memorable_tellsLeaf poised
      exact departs.lands takes.declared told isLeaf

-----------------------------------------------------------------------------------------
-- Chains are bounded by the leaves
-----------------------------------------------------------------------------------------

/-- Every departure of a chain is from a leaf of the chart, by induction on the chain. -/
theorem Chain.leaf_mem {machine : Machine} {occasion : Occasion} {run later : Run}
    {leaf last : String} {departures : List Departure}
    (chain : machine.Chain occasion run leaf departures later last)
    (recalls : machine.Recalls run.history) (isLeaf : machine.isLeafState leaf = true)
    : ∀ departure ∈ departures, departure.leaf ∈ machine.outline.leaves := by
  induction chain with
  | here => exact fun _ member => nomatch member
  | leave chosen aims taken _ ih =>
      have declared := declares_of_automatic? chosen
      obtain ⟨after, arrived⟩ :=
        take_keeps machine.memorable_tellsLeaf declared recalls isLeaf taken
      intro departure member
      rcases List.mem_cons.mp member with rfl | later
      · exact mem_leaves isLeaf
      · exact ih after arrived departure later

/-- A chain that leaves no leaf twice is no longer than the chart has leaves. -/
theorem Chain.length_le {machine : Machine} {occasion : Occasion} {run later : Run}
    {leaf last : String} {departures : List Departure} {left : List String}
    (chain : machine.Chain occasion run leaf departures later last)
    (recalls : machine.Recalls run.history) (isLeaf : machine.isLeafState leaf = true)
    (apart : Apart left departures)
    : departures.length ≤ machine.outline.leaves.length := by
  have included : (departures.map (·.leaf)).Subset machine.outline.leaves := by
    intro name member
    obtain ⟨departure, departed, rfl⟩ := List.mem_map.mp member
    exact chain.leaf_mem recalls isLeaf departure departed
  have bound := apart.distinct.length_le_of_subset included
  simpa using bound

section Settle

variable {machine : Machine} {occasion : Occasion} {run next later : Run}
  {left : List String} {leaf target reached last : String} {alternative : Alternative}

/-- A leaf that has not been left yet is left by its automatic transition. -/
theorem settle_leave
    (chosen : machine.automatic? occasion.payload run leaf = some alternative)
    (aims : alternative.target = some target) (fresh : leaf ∉ left)
    (taken : machine.take occasion run leaf entryEvent alternative = .ok (next, reached))
    : machine.settle occasion run left leaf
      = machine.settle occasion next (leaf :: left) reached := by
  rw [settle_eq, chosen]
  simp only [aims, Option.isNone_some, Bool.false_eq_true, if_false, if_neg fresh, taken]
  rfl

/-- One that has been left before is not left again. -/
theorem settle_cycle
    (chosen : machine.automatic? occasion.payload run leaf = some alternative)
    (aims : alternative.target = some target) (again : leaf ∈ left)
    : machine.settle occasion run left leaf = .error (.chart (.automaticCycle leaf)) := by
  rw [settle_eq, chosen]
  simp only [aims, Option.isNone_some, Bool.false_eq_true, if_false, if_pos again]

/-- Settling goes along a chain as long as no leaf is left twice; by induction on the chain,
with the leaves that were left before.
-/
theorem Chain.settle_eq {departures : List Departure}
    (chain : machine.Chain occasion run leaf departures later last)
    (apart : Apart left departures)
    : machine.settle occasion run left leaf
      = machine.settle occasion later ((departures.map (·.leaf)).reverse ++ left) last := by
  induction chain generalizing left with
  | here => simp
  | leave chosen aims taken _ ih =>
      obtain ⟨fresh, apart⟩ := apart_cons_iff.mp apart
      rw [settle_leave chosen aims fresh taken, ih apart]
      simp

end Settle

/-- Settling ends in a cycle exactly when a chain that has left no leaf twice comes back to one
of them, and would leave it again.
-/
theorem settle_eq_cycle_iff {machine : Machine} {occasion : Occasion} {run : Run}
    {leaf last : String} (recalls : machine.Recalls run.history)
    (isLeaf : machine.isLeafState leaf = true)
    : machine.settle occasion run [] leaf = .error (.chart (.automaticCycle last))
      ↔ ∃ departures later alternative,
          machine.Chain occasion run leaf departures later last
          ∧ Apart [] departures
          ∧ last ∈ departures.map (·.leaf)
          ∧ machine.automatic? occasion.payload later last = some alternative
          ∧ alternative.target.isSome = true := by
  constructor
  · intro settled
    obtain ⟨departures, later, stop, chain, apart, ended⟩ :=
      machine.exists_apart_chain occasion run [] leaf
    obtain ⟨told, arrived⟩ := chain.keeps machine.memorable_tellsLeaf recalls isLeaf
    generalize equal : machine.settle occasion run [] leaf = result at settled ended
    cases ended with
    | idle quiet => cases settled
    | internal chosen internal => exact absurd (map_eq_error_iff.mp settled) act_ne_chart
    | cycle chosen aims again =>
        cases settled
        refine ⟨departures, later, _, chain, apart, by simpa using again, chosen, ?_⟩
        rw [aims]
        rfl
    | failed chosen aims fresh failed =>
        cases settled
        exact absurd failed (take_ne_cycle (declares_of_automatic? chosen) told arrived)
  · rintro ⟨departures, later, alternative, chain, apart, again, chosen, aims⟩
    obtain ⟨target, aims⟩ := Option.isSome_iff_exists.mp aims
    rw [chain.settle_eq apart]
    exact settle_cycle chosen aims (by simpa using again)

-----------------------------------------------------------------------------------------
-- Where calls come to rest
-----------------------------------------------------------------------------------------

/-- Why nothing more is done at a leaf: it has no automatic transition, or one whose guards all
fail, or the last thing done was the action of one without a target.
-/
inductive AtRest (machine : Machine) (payload : Json) (final : Run) (leaf : String) : Prop
  | without (missing : machine.chart.route? leaf entryEvent = none)
  | held {transition clauses}
    (route : machine.chart.route? leaf entryEvent = some transition)
    (guarded : transition.reaction = .guarded clauses)
    (allFail
      : ∀ clause ∈ clauses,
          clause.predicate.holds final.model payload machine.settings = false)
  | acted {before alternative}
    (chosen : machine.automatic? payload before leaf = some alternative)
    (internal : alternative.target = none)
    (acted : machine.act payload before alternative.action = .ok final)

theorem atRest_of_idle {machine : Machine} {payload : Json} {run : Run} {leaf : String}
    (quiet : machine.automatic? payload run leaf = none)
    : machine.AtRest payload run leaf := by
  cases route : machine.chart.route? leaf entryEvent with
  | none => exact .without route
  | some transition =>
      have unselected : transition.select? run.model payload machine.settings = none := by
        simpa [automatic?, route] using quiet
      obtain ⟨clauses, guarded, allFail⟩ := Transition.select?_eq_none_iff.mp unselected
      exact .held route guarded allFail

theorem ChainEnd.atRest {machine : Machine} {occasion : Occasion} {left : List String}
    {run final : Run} {leaf last : String}
    (ended : machine.ChainEnd occasion left run leaf (.ok (final, last)))
    : machine.AtRest occasion.payload final last := by
  obtain ⟨rfl, ⟨quiet, rfl⟩ | ⟨alternative, chosen, internal, acted⟩⟩ := ended.ok_cases
  · exact atRest_of_idle quiet
  · exact .acted chosen internal acted

-----------------------------------------------------------------------------------------
-- Calls to machines that have been called before
-----------------------------------------------------------------------------------------

/-- How a call ends: its ways down are no longer than the chart is deep, the chain from the leaf
where it settles leaves no leaf twice, and the call is that chain up to its end. It fails for a
cycle exactly when the chain returns to a leaf that would be left once more.
-/
structure Terminates (machine : Machine) (state : State) (call : Call) : Prop where
  descents
    : ∀ payload run name,
        machine.Descends state call payload run name
        → ∃ alternatives later last,
            machine.Way payload run name alternatives later last
            ∧ machine.DescentEnd payload later last (machine.descend payload run name)
            ∧ alternatives.length + machine.outline.depth name ≤ machine.outline.height
  steps
    : ∀ payload run name alternative next reached,
        machine.Entered state call run name
        → machine.Enters payload run name alternative next reached
        → machine.isLeafState reached = true
          ∨ machine.outline.depth name < machine.outline.depth reached
  chain
    : ∀ occasion run leaf,
        machine.SettlesFrom state call occasion run leaf
        → machine.perform state call
            = conclude state
                ((machine.settle occasion run [] leaf).map
                  (fun settled => commit settled.1 settled.2))
          ∧ ∃ departures later last,
              machine.Chain occasion run leaf departures later last
              ∧ (departures.map (·.leaf)).Nodup
              ∧ departures.length ≤ machine.outline.leaves.length
              ∧ machine.ChainEnd occasion (departures.map (·.leaf)).reverse later last
                  (machine.settle occasion run [] leaf)
  cycle
    : ∀ last,
        (machine.perform state call).2 = .failed (.chart (.automaticCycle last))
        ↔ ∃ occasion run leaf departures later alternative,
            machine.SettlesFrom state call occasion run leaf
            ∧ machine.Chain occasion run leaf departures later last
            ∧ (departures.map (·.leaf)).Nodup
            ∧ last ∈ departures.map (·.leaf)
            ∧ machine.automatic? occasion.payload later last = some alternative
            ∧ alternative.target.isSome = true
  rest
    : ∀ occasion run leaf final last,
        machine.SettlesFrom state call occasion run leaf
        → machine.settle occasion run [] leaf = .ok (final, last)
        → machine.AtRest occasion.payload final last

/-- A call to a poised machine fails for a cycle exactly when settling does. -/
theorem perform_eq_cycle_iff {machine : Machine} {state : State} {call : Call} {last : String}
    (poised : machine.Poised machine.TellsLeaf state)
    : (machine.perform state call).2 = .failed (.chart (.automaticCycle last))
      ↔ ∃ occasion run leaf,
          machine.SettlesFrom state call occasion run leaf
          ∧ machine.settle occasion run [] leaf = .error (.chart (.automaticCycle last)) := by
  constructor
  · exact settlesFrom_of_cycle poised
  · rintro ⟨occasion, run, leaf, settling, settled⟩
    rw [settling.perform_eq, settled]
    rfl

/-- After any calls, checkpoints of any content among those resumed, every further call
terminates within the bounds of the chart.
-/
theorem terminates_after (machine : Machine) (calls : List Call) (call : Call)
    : machine.Terminates (machine.after calls) call := by
  have poised : machine.Poised machine.TellsLeaf (machine.after calls) :=
    performAll_poised calls (machine.poised_fresh _)
  have memorable := machine.memorable_tellsLeaf
  refine {
    descents := ?_
    steps := ?_
    chain := ?_
    cycle := ?_
    rest := ?_
  }
  · intro payload run name descends
    obtain ⟨known, recalls⟩ := descends.known poised
    obtain ⟨alternatives, later, last, way, ended⟩ := exists_way known recalls
    exact ⟨alternatives, later, last, way, ended, way.length_le recalls⟩
  · intro payload run name alternative next reached entered step
    exact step.deeper (entered.told memorable poised)
  · intro occasion run leaf settling
    obtain ⟨recalls, isLeaf⟩ := settling.told memorable poised
    obtain ⟨departures, later, last, chain, apart, ended⟩ :=
      machine.exists_apart_chain occasion run [] leaf
    rw [List.append_nil] at ended
    have bound := chain.length_le recalls isLeaf apart
    exact ⟨settling.perform_eq, departures, later, last, chain, apart.distinct, bound, ended⟩
  · intro last
    rw [perform_eq_cycle_iff poised]
    constructor
    · rintro ⟨occasion, run, leaf, settling, settled⟩
      obtain ⟨recalls, isLeaf⟩ := settling.told memorable poised
      obtain ⟨departures, later, alternative, chain, apart, again, chosen, aims⟩ :=
        (settle_eq_cycle_iff recalls isLeaf).mp settled
      exact ⟨occasion, run, leaf, departures, later, alternative, settling, chain,
        apart.distinct, again, chosen, aims⟩
    · rintro ⟨occasion, run, leaf, departures, later, alternative, settling, chain, distinct,
        again, chosen, aims⟩
      obtain ⟨recalls, isLeaf⟩ := settling.told memorable poised
      have apart : Apart [] departures := ⟨distinct, fun _ _ before => nomatch before⟩
      exact ⟨occasion, run, leaf, settling, (settle_eq_cycle_iff recalls isLeaf).mpr
        ⟨departures, later, alternative, chain, apart, again, chosen, aims⟩⟩
  · intro occasion run leaf final last settling settled
    obtain ⟨departures, later, stop, chain, ended⟩ := machine.exists_chain occasion run [] leaf
    rw [settled] at ended
    exact ended.atRest

end Machine

end Statechart
