import Statechart.Proofs.Machine.Invariant

/-! Events that are answered without a target. The action of the alternative runs, and then the
leaf settles although it was not reached anew. Nothing else is done exactly when the automatic
transition of the leaf, on the model that the action gave, does nothing.
-/

namespace Statechart

namespace Machine

/-- A run that went on from another by actions: each added an output, and without any the model
is still the same.
-/
def Proceeds (earlier later : Run) : Prop :=
  ∃ added,
    later.outputs = earlier.outputs ++ added ∧ (added = [] → later.model = earlier.model)

theorem Proceeds.refl (run : Run) : Proceeds run run :=
  ⟨[], (List.append_nil _).symm, fun _ => rfl⟩

theorem Proceeds.trans {first second third : Run} (earlier : Proceeds first second)
    (later : Proceeds second third)
    : Proceeds first third := by
  obtain ⟨added, outputs, same⟩ := earlier
  obtain ⟨added', outputs', same'⟩ := later
  refine ⟨added ++ added', by rw [outputs', outputs, List.append_assoc], ?_⟩
  intro silent
  obtain ⟨nothing, nothing'⟩ := List.append_eq_nil_iff.mp silent
  exact (same' nothing').trans (same nothing)

/-- Where no output was added in the end, none was added up to any point in between. -/
theorem Proceeds.model_eq {first second third : Run} (earlier : Proceeds first second)
    (later : Proceeds second third) (silent : third.outputs = first.outputs)
    : second.model = first.model := by
  obtain ⟨added, outputs, same⟩ := earlier
  obtain ⟨added', outputs', _⟩ := later
  rw [outputs', outputs, List.append_assoc] at silent
  have nothing := List.append_right_eq_self.mp silent
  exact same (List.append_eq_nil_iff.mp nothing).1

/-- An action that is there adds its output. -/
theorem act_outputs {machine : Machine} {payload : Json} {run next : Run} {action : Action}
    (acted : machine.act payload run (some action) = .ok next)
    : next.outputs = run.outputs ++ [(action.run run.model payload machine.settings).output] := by
  obtain ⟨model, _, rfl⟩ := act_some_eq_ok_iff.mp acted
  rfl

theorem act_proceeds {machine : Machine} {payload : Json} {run next : Run}
    {action : Option Action} (acted : machine.act payload run action = .ok next)
    : Proceeds run next := by
  cases action with
  | none =>
      cases acted
      exact .refl run
  | some action => exact ⟨_, act_outputs acted, fun silent => by simp at silent⟩

theorem Way.proceeds {machine : Machine} {payload : Json} {run later : Run}
    {state last : String} {alternatives : List Alternative}
    (way : machine.Way payload run state alternatives later last)
    : Proceeds run later := by
  induction way with
  | here => exact .refl _
  | enter step _ ih => exact (act_proceeds step.acted).trans ih

theorem take_proceeds {machine : Machine} {occasion : Occasion} {run after : Run}
    {leaf event target reached : String} {alternative : Alternative}
    (declared : machine.Declares alternative) (aims : alternative.target = some target)
    (recalls : machine.Recalls run.history) (isLeaf : machine.isLeafState leaf = true)
    (taken : machine.take occasion run leaf event alternative = .ok (after, reached))
    : Proceeds run after := by
  obtain ⟨next, alternatives, later, departs, way, _, rfl⟩ :=
    take_ok declared aims recalls isLeaf taken
  -- Leaving states changes the history only.
  have acted : Proceeds run next := by
    simpa only [Proceeds, recordExits] using act_proceeds departs.acted
  exact acted.trans way.proceeds

theorem Chain.proceeds {machine : Machine} {occasion : Occasion} {run later : Run}
    {leaf last : String} {departures : List Departure}
    (chain : machine.Chain occasion run leaf departures later last)
    (recalls : machine.Recalls run.history) (isLeaf : machine.isLeafState leaf = true)
    : Proceeds run later := by
  induction chain with
  | here => exact .refl _
  | leave chosen aims taken _ ih =>
      have declared := declares_of_automatic? chosen
      obtain ⟨after, arrived⟩ :=
        take_keeps machine.memorable_tellsLeaf declared recalls isLeaf taken
      exact (take_proceeds declared aims recalls isLeaf taken).trans (ih after arrived)

theorem ChainEnd.proceeds {machine : Machine} {occasion : Occasion} {left : List String}
    {run final : Run} {leaf last : String}
    (ended : machine.ChainEnd occasion left run leaf (.ok (final, last)))
    : Proceeds run final := by
  obtain ⟨_, ⟨_, rfl⟩ | ⟨_, _, _, acted⟩⟩ := ended.ok_cases
  · exact .refl _
  · exact act_proceeds acted

/-- The automatic transition of a leaf does nothing: no guard of it holds, or the alternative
that it offers has neither a target nor an action.
-/
def Quiet (machine : Machine) (payload : Json) (run : Run) (leaf : String) : Prop :=
  ∀ alternative,
    machine.automatic? payload run leaf = some alternative
    → alternative.target = none ∧ alternative.action = none

/-- Where the leaf offers an alternative without a target, settling is its action. -/
theorem settle_internal {machine : Machine} {occasion : Occasion} {run : Run}
    {left : List String} {leaf : String} {alternative : Alternative}
    (chosen : machine.automatic? occasion.payload run leaf = some alternative)
    (internal : alternative.target = none)
    : machine.settle occasion run left leaf
      = (machine.act occasion.payload run alternative.action).map (fun run => (run, leaf)) := by
  have same {other} (chosen' : machine.automatic? occasion.payload run leaf = some other)
      : alternative = other :=
    Option.some.inj (chosen.symm.trans chosen')
  have ended : machine.ChainEnd occasion left run leaf (machine.settle occasion run left leaf) :=
    ended_of_rests (fun other chosen' => same chosen' ▸ internal)
  generalize machine.settle occasion run left leaf = result at ended
  cases ended with
  | idle quiet => simp [quiet] at chosen
  | internal chosen' => rw [same chosen']
  | cycle chosen' aims | failed chosen' aims => simp [← same chosen', internal] at aims

/-- A quiet leaf is settled at once. -/
theorem settle_quiet {machine : Machine} {occasion : Occasion} {run : Run}
    {left : List String} {leaf : String} (quiet : machine.Quiet occasion.payload run leaf)
    : machine.settle occasion run left leaf = .ok (run, leaf) := by
  have ended : machine.ChainEnd occasion left run leaf (machine.settle occasion run left leaf) :=
    ended_of_rests (fun other chosen => (quiet other chosen).1)
  generalize machine.settle occasion run left leaf = result at ended
  cases ended with
  | idle => rfl
  | internal chosen =>
      rw [(quiet _ chosen).2]
      rfl
  | cycle chosen aims | failed chosen aims => simp [(quiet _ chosen).1] at aims

/-- Settling at the same leaf without an output means that the leaf was quiet. A chain that left
the leaf and came back with the same model would leave it again.
-/
theorem Settles.quiet {machine : Machine} {occasion : Occasion} {run final : Run}
    {leaf : String} {departures : List Departure}
    (settles : machine.Settles occasion run leaf departures final leaf)
    (recalls : machine.Recalls run.history) (isLeaf : machine.isLeafState leaf = true)
    (silent : final.outputs = run.outputs)
    : machine.Quiet occasion.payload run leaf := by
  obtain ⟨later, stop, chain, ended⟩ := settles
  have proceeds := chain.proceeds recalls isLeaf
  have sameModel := proceeds.model_eq ended.proceeds silent
  obtain ⟨rfl, rest⟩ := ended.ok_cases
  intro alternative chosen
  have again : machine.automatic? occasion.payload later leaf = some alternative := by
    simpa only [automatic?, sameModel] using chosen
  refine ⟨ended.rests again, ?_⟩
  rcases rest with ⟨quiet, _⟩ | ⟨other, chosen', _, acted⟩
  · simp [quiet] at again
  obtain rfl := Option.some.inj (again.symm.trans chosen')
  cases present : alternative.action with
  | none => rfl
  | some action =>
      rw [present] at acted
      have added := act_outputs acted
      obtain ⟨earlier, outputs, _⟩ := proceeds
      simp [silent, outputs] at added

-----------------------------------------------------------------------------------------
-- Dispatching to an alternative without a target
-----------------------------------------------------------------------------------------

/-- A dispatch that ran an action and nothing else: the leaf, the history and the log are as they
were, and the model and the outputs are those of the action.
-/
structure OnlyActed (state : State) (leaf : String) (run : Run) (next : State)
    (outcome : Outcome)
    : Prop where
  active : next.active = some leaf
  history : next.history = state.history
  log : next.log = state.log
  model : next.model = run.model
  outputs : outcome.outputs = run.outputs

theorem act_outputs_le {machine : Machine} {payload : Json} {state : State} {run : Run}
    {action : Option Action} (acted : machine.act payload state.run action = .ok run)
    : run.outputs.length ≤ 1 := by
  cases action with
  | none =>
      cases acted
      exact Nat.zero_le 1
  | some action => simp [act_outputs acted, State.run]

/-- After any calls, an event that an alternative without a target answers runs the action of the
alternative, and it runs nothing else and changes neither leaf nor history nor log exactly when
the leaf is quiet on the model that the action gave.
-/
theorem internal_dispatch (machine : Machine) {calls : List Call} {leaf event : String}
    {payload : Json} {time : Instant} {alternative : Alternative} {next : State}
    {outcome : Outcome} (active : (machine.after calls).active = some leaf)
    (answered
      : machine.answer? (machine.after calls) leaf event payload = some alternative)
    (internal : alternative.target = none)
    (dispatched
      : machine.dispatch (machine.after calls) event payload time = .ok (next, outcome))
    : ∃ run,
        machine.act payload (machine.after calls).run alternative.action = .ok run
        ∧ run.outputs.length ≤ 1
        ∧ (OnlyActed (machine.after calls) leaf run next outcome
          ↔ machine.Quiet payload run leaf) := by
  have poised := performAll_poised calls (machine.poised_fresh _)
  have sent := (sent_of_dispatch dispatched).1
  rw [dispatch_answered sent active answered, take_internal internal] at dispatched
  obtain ⟨⟨run, _⟩, mapped, dispatched⟩ := bind_eq_ok_iff.mp dispatched
  obtain ⟨_, acted, same⟩ := map_eq_ok_iff.mp mapped
  cases same
  obtain ⟨⟨final, last⟩, settled, dispatched⟩ := bind_eq_ok_iff.mp dispatched
  cases dispatched
  obtain ⟨departures, settles⟩ := settles_of_settle settled
  obtain ⟨sameHistory, sameLog⟩ := act_keeps acted
  refine ⟨run, acted, act_outputs_le acted, ?_⟩
  constructor
  · intro onlyActed
    obtain rfl : last = leaf := Option.some.inj onlyActed.active
    have recalls : machine.Recalls run.history := sameHistory ▸ poised.history
    exact settles.quiet recalls (poised.active _ active) onlyActed.outputs
  · intro quiet
    rw [settle_quiet quiet] at settled
    cases settled
    exact ⟨rfl, sameHistory, sameLog, rfl, rfl⟩

/-- An action that only puts out its name. -/
def announce (name : String) : Action :=
  { name, run := fun _ _ _ => { output := .string name } }

/-- A bell that chimes on becoming idle, and that can be rung when it is idle or muted. -/
def bellChart : Chart where
  states := .leaf "idle" (.leaf "muted" .nil)
  transitions :=
    [⟨rootName, none, .always (some "idle") none⟩,
      ⟨"idle", none, .always none (some (announce "chime"))⟩,
      ⟨"idle", some "ring", .always none (some (announce "ring"))⟩,
      ⟨"idle", some "mute", .always (some "muted") none⟩,
      ⟨"muted", some "ring", .always none (some (announce "ring"))⟩]

def bell : Machine where
  chart := bellChart
  outline := ⟨[⟨rootName, []⟩, ⟨"idle", [rootName]⟩, ⟨"muted", [rootName]⟩]⟩
  accepted := rfl
  initialModel := .object []
  settings := .null

def idleBell : State :=
  bell.after [.start noon]

def mutedBell : State :=
  bell.after [.start noon, .dispatch "mute" .null noon]

/-- A muted bell that is rung only rings. -/
theorem mutedBell_rings
    : ∃ run next outcome,
        bell.dispatch mutedBell "ring" .null noon = .ok (next, outcome)
        ∧ OnlyActed mutedBell "muted" run next outcome
        ∧ outcome.outputs = [.string "ring"] := by
  have active : mutedBell.active = some "muted" := by decide +kernel
  have quiet : ∀ run, bell.Quiet .null run "muted" := by
    intro run alternative chosen
    cases chosen
  have dispatched
      : bell.dispatch mutedBell "ring" .null noon
        = .ok (commit { mutedBell.run with outputs := [.string "ring"] } "muted") := by
    rw [dispatch_answered (by decide) active rfl, take_internal rfl]
    change bell.settle _ _ [] "muted" >>= _ = _
    rw [settle_quiet (quiet _)]
    rfl
  obtain ⟨run, acted, _, exactly⟩ := bell.internal_dispatch active rfl rfl dispatched
  exact ⟨run, _, _, dispatched, exactly.mpr (quiet run), rfl⟩

/-- An idle bell that is rung chimes once more, although it was idle all the time. -/
theorem idleBell_chimes
    : idleBell.active = some "idle"
      ∧ ∃ alternative,
          bell.answer? idleBell "idle" "ring" .null = some alternative
          ∧ alternative.target = none
          ∧ ∃ next outcome,
              bell.dispatch idleBell "ring" .null noon = .ok (next, outcome)
              ∧ next.active = some "idle"
              ∧ outcome.outputs = [.string "ring", .string "chime"] := by
  have active : idleBell.active = some "idle" := by decide +kernel
  refine ⟨active, _, rfl, rfl, ?_⟩
  rw [dispatch_answered (by decide) active rfl, take_internal rfl]
  change ∃ next outcome, bell.settle _ _ [] "idle" >>= _ = .ok (next, outcome) ∧ _
  rw [settle_internal rfl rfl]
  exact ⟨_, _, rfl, rfl, rfl⟩

end Machine

end Statechart
