import Statechart.Proofs.Machine.Invariant

/-! What a successful call executes. It selects alternatives one after the other: the one that
answers an event, those by which states are entered on the way down, and automatic ones until the
leaf rests. Each guard is asked on the model as the actions before it left it, and the outputs of a
call are those of its actions in this order.
-/

namespace Statechart

namespace Machine

/-- A transition whose guards were asked, and the alternative taken, if there was one. -/
structure Selection where
  transition : Transition
  taken : Option Alternative

namespace Selection

def action? (selection : Selection) : Option Action :=
  selection.taken.bind (·.action)

end Selection

/-- The actions of the alternatives taken, in their order. -/
def actionsOf (selections : List Selection) : List Action :=
  selections.filterMap (·.action?)

-----------------------------------------------------------------------------------------
-- What is selected
-----------------------------------------------------------------------------------------

/-- What is selected on the way down from a state to a leaf, the outermost entry first. -/
inductive Entries (machine : Machine) (payload : Json)
    : Run → String → List Selection → Run → String → Prop
  | here {run leaf} (arrived : machine.isLeafState leaf = true)
    : Entries machine payload run leaf [] run leaf
  | enter {run state transition alternative next reached entries later last}
    (route : machine.chart.route? state entryEvent = some transition)
    (step : machine.Enters payload run state alternative next reached)
    (rest : Entries machine payload next reached entries later last)
    : Entries machine payload run state (⟨transition, some alternative⟩ :: entries) later last

/-- What is selected after a leaf is reached, until it rests: automatic alternatives, each before
the entries of its descent, and an internal one last if there is one.
-/
inductive Automatics (machine : Machine) (occasion : Occasion)
    : Run → String → List Selection → Run → String → Prop
  | without {run leaf} (missing : machine.chart.route? leaf entryEvent = none)
    : Automatics machine occasion run leaf [] run leaf
  | held {run leaf transition}
    (route : machine.chart.route? leaf entryEvent = some transition)
    (held : transition.select? run.model occasion.payload machine.settings = none)
    : Automatics machine occasion run leaf [⟨transition, none⟩] run leaf
  | internal {run leaf transition alternative final}
    (route : machine.chart.route? leaf entryEvent = some transition)
    (chosen
      : transition.select? run.model occasion.payload machine.settings = some alternative)
    (internal : alternative.target = none)
    (acted : machine.act occasion.payload run alternative.action = .ok final)
    : Automatics machine occasion run leaf [⟨transition, some alternative⟩] final leaf
  | leave {run leaf transition alternative target next entries later reached selections final last}
    (route : machine.chart.route? leaf entryEvent = some transition)
    (chosen
      : transition.select? run.model occasion.payload machine.settings = some alternative)
    (departs : machine.Departs occasion.payload run leaf alternative target next)
    (descent
      : machine.Entries occasion.payload next (landing next target) entries later reached)
    (rest
      : Automatics machine occasion
          { later with log := later.log.record ⟨leaf, reached, entryEvent, occasion.time⟩ }
          reached selections final last)
    : Automatics machine occasion run leaf
        (⟨transition, some alternative⟩ :: (entries ++ selections)) final last

/-- What a successful call selects, and the run and the leaf at which it ends. -/
inductive Selects (machine : Machine) (state : State)
    : Call → List Selection → Run → String → Prop
  | start {time entries run leaf selections final last}
    (descent : machine.Entries .null machine.firstRun rootName entries run leaf)
    (settles : machine.Automatics ⟨.null, time⟩ run leaf selections final last)
    : Selects machine state (.start time) (entries ++ selections) final last
  | unhandled {event payload time leaf}
    (active : state.active = some leaf) (missing : machine.handler? leaf event = none)
    : Selects machine state (.dispatch event payload time) [] state.run leaf
  | held {event payload time leaf transition}
    (active : state.active = some leaf)
    (handler : machine.handler? leaf event = some transition)
    (held : transition.select? state.model payload machine.settings = none)
    : Selects machine state (.dispatch event payload time) [⟨transition, none⟩] state.run leaf
  | internal {event payload time leaf transition alternative run selections final last}
    (active : state.active = some leaf)
    (handler : machine.handler? leaf event = some transition)
    (chosen : transition.select? state.model payload machine.settings = some alternative)
    (internal : alternative.target = none)
    (acted : machine.act payload state.run alternative.action = .ok run)
    (settles : machine.Automatics ⟨payload, time⟩ run leaf selections final last)
    : Selects machine state (.dispatch event payload time)
        (⟨transition, some alternative⟩ :: selections) final last
  | moved {event payload time leaf transition alternative target next entries later reached}
    {selections final last}
    (active : state.active = some leaf)
    (handler : machine.handler? leaf event = some transition)
    (chosen : transition.select? state.model payload machine.settings = some alternative)
    (departs : machine.Departs payload state.run leaf alternative target next)
    (descent : machine.Entries payload next (landing next target) entries later reached)
    (settles
      : machine.Automatics ⟨payload, time⟩
          { later with log := later.log.record ⟨leaf, reached, event, time⟩ }
          reached selections final last)
    : Selects machine state (.dispatch event payload time)
        (⟨transition, some alternative⟩ :: (entries ++ selections)) final last

-----------------------------------------------------------------------------------------
-- What selections execute
-----------------------------------------------------------------------------------------

/-- Carrying out selections from a model, one after the other: the models after each action, the
outputs of the actions, and the last model.
-/
inductive Unfolds (settings payload : Json)
    : Json → List Selection → List Json → List Json → Json → Prop
  | done {model} : Unfolds settings payload model [] [] [] model
  | idle {model selection rest models outputs last}
    (asked : selection.transition.select? model payload settings = selection.taken)
    (silent : selection.action? = none)
    (unfolds : Unfolds settings payload model rest models outputs last)
    : Unfolds settings payload model (selection :: rest) models outputs last
  | acted {model selection rest action next models outputs last}
    (asked : selection.transition.select? model payload settings = selection.taken)
    (acts : selection.action? = some action)
    (updated : Patch.apply (action.run model payload settings).update model = .ok next)
    (unfolds : Unfolds settings payload next rest models outputs last)
    : Unfolds settings payload model (selection :: rest) (next :: models)
        ((action.run model payload settings).output :: outputs) last

/-- Models and outputs of selections by their positions. Each action runs on the model at its own
position; its output stands there, and the model that its update makes comes next. The guards of a
selection are asked on the model after all actions before it.
-/
structure Executes (settings payload : Json) (selections : List Selection)
    (models outputs : List Json)
    : Prop where
  models_length : models.length = (actionsOf selections).length + 1
  outputs_length : outputs.length = (actionsOf selections).length
  actions
    : ∀ position action,
        (actionsOf selections)[position]? = some action
        → ∃ model next,
            models[position]? = some model
            ∧ models[position + 1]? = some next
            ∧ outputs[position]? = some (action.run model payload settings).output
            ∧ Patch.apply (action.run model payload settings).update model = .ok next
  guards
    : ∀ earlier selection later,
        selections = earlier ++ selection :: later
        → ∃ model,
            models[(actionsOf earlier).length]? = some model
            ∧ selection.transition.select? model payload settings = selection.taken

section Unfolding

variable {settings payload model last : Json} {selections : List Selection}
  {models outputs : List Json}

theorem Unfolds.append {more : List Selection} {models' outputs' : List Json} {last' : Json}
    (first : Unfolds settings payload model selections models outputs last)
    (second : Unfolds settings payload last more models' outputs' last')
    : Unfolds settings payload model (selections ++ more) (models ++ models')
        (outputs ++ outputs') last' := by
  induction first with
  | done => exact second
  | idle asked silent _ ih => exact .idle asked silent (ih second)
  | acted asked acts updated _ ih => exact .acted asked acts updated (ih second)

theorem Unfolds.getLast? (unfolds : Unfolds settings payload model selections models outputs last)
    : (model :: models).getLast? = some last := by
  induction unfolds with
  | done => rfl
  | idle _ _ _ ih => exact ih
  | acted _ _ _ _ ih => rw [List.getLast?_cons_cons, ih]

/-- What is said selection by selection is so by positions; by induction on the selections. -/
theorem Unfolds.executes (unfolds : Unfolds settings payload model selections models outputs last)
    : Executes settings payload selections (model :: models) outputs := by
  induction unfolds with
  | done => exact ⟨rfl, rfl, fun _ _ found => (nomatch found), fun _ _ _ split => by simp at split⟩
  | @idle model selection rest models outputs last asked silent _ ih =>
      have same (others : List Selection) : actionsOf (selection :: others) = actionsOf others :=
        List.filterMap_cons_none silent
      refine ⟨by rw [same, ih.models_length], by rw [same, ih.outputs_length], ?_, ?_⟩
      · rw [same]
        exact ih.actions
      · intro earlier other later split
        cases earlier with
        | nil =>
            cases split
            exact ⟨model, rfl, asked⟩
        | cons first earlier =>
            cases split
            rw [same]
            exact ih.guards earlier other later rfl
  | @acted model selection rest action next models outputs last asked acts updated _ ih =>
      have same (others : List Selection)
          : actionsOf (selection :: others) = action :: actionsOf others :=
        List.filterMap_cons_some acts
      refine ⟨?_, ?_, ?_, ?_⟩
      · rw [same, List.length_cons, ih.models_length, List.length_cons]
      · rw [same, List.length_cons, ih.outputs_length, List.length_cons]
      · intro position other found
        rw [same] at found
        cases position with
        | zero =>
            obtain rfl : action = other := by simpa using found
            exact ⟨model, next, rfl, rfl, rfl, updated⟩
        | succ position => exact ih.actions position other found
      · intro earlier other later split
        cases earlier with
        | nil =>
            cases split
            exact ⟨model, rfl, asked⟩
        | cons first earlier =>
            cases split
            rw [same]
            exact ih.guards earlier other later rfl

end Unfolding

/-- A run that goes on from another by carrying out selections. -/
def CarriesOut (machine : Machine) (payload : Json) (run : Run) (selections : List Selection)
    (later : Run)
    : Prop :=
  ∃ models outputs,
    Unfolds machine.settings payload run.model selections models outputs later.model
    ∧ later.outputs = run.outputs ++ outputs

theorem CarriesOut.refl (machine : Machine) (payload : Json) (run : Run)
    : machine.CarriesOut payload run [] run :=
  ⟨[], [], .done, (List.append_nil _).symm⟩

theorem CarriesOut.trans {machine : Machine} {payload : Json} {run middle later : Run}
    {selections more : List Selection}
    (first : machine.CarriesOut payload run selections middle)
    (second : machine.CarriesOut payload middle more later)
    : machine.CarriesOut payload run (selections ++ more) later := by
  obtain ⟨models, outputs, unfolds, added⟩ := first
  obtain ⟨models', outputs', unfolds', added'⟩ := second
  exact ⟨models ++ models', outputs ++ outputs', unfolds.append unfolds',
    by rw [added', added, List.append_assoc]⟩

/-- Asking guards that all fail changes nothing. -/
theorem carriesOut_held {machine : Machine} {payload : Json} {run : Run}
    {transition : Transition}
    (held : transition.select? run.model payload machine.settings = none)
    : machine.CarriesOut payload run [⟨transition, none⟩] run :=
  ⟨[], [], .idle held rfl .done, (List.append_nil _).symm⟩

/-- The action of an alternative that is taken runs on the model on which its guard was asked. -/
theorem carriesOut_act {machine : Machine} {payload : Json} {run next : Run}
    {transition : Transition} {alternative : Alternative}
    (chosen : transition.select? run.model payload machine.settings = some alternative)
    (acted : machine.act payload run alternative.action = .ok next)
    : machine.CarriesOut payload run [⟨transition, some alternative⟩] next := by
  cases acts : alternative.action with
  | none =>
      rw [acts] at acted
      cases acted
      exact ⟨[], [], .idle chosen acts .done, (List.append_nil _).symm⟩
  | some action =>
      rw [acts] at acted
      obtain ⟨model, updated, rfl⟩ := act_some_eq_ok_iff.mp acted
      exact ⟨[model], [_], .acted chosen acts updated .done, rfl⟩

theorem Entries.carriesOut {machine : Machine} {payload : Json} {run later : Run}
    {state last : String} {entries : List Selection}
    (descent : machine.Entries payload run state entries later last)
    : machine.CarriesOut payload run entries later := by
  induction descent with
  | here => exact .refl machine payload _
  | @enter run state transition alternative next reached entries later last route step _ ih =>
      have chosen : transition.select? run.model payload machine.settings = some alternative := by
        simpa [automatic?, route] using step.chosen
      exact (carriesOut_act chosen step.acted).trans ih

/-- Leaving states changes neither the model nor the outputs. -/
theorem Departs.carriesOut {machine : Machine} {payload : Json} {run next : Run}
    {leaf target : String} {alternative : Alternative} {transition : Transition}
    (departs : machine.Departs payload run leaf alternative target next)
    (chosen : transition.select? run.model payload machine.settings = some alternative)
    : machine.CarriesOut payload run [⟨transition, some alternative⟩] next := by
  have carries
      : machine.CarriesOut payload (machine.recordExits run leaf (Chart.targetState target))
          [⟨transition, some alternative⟩] next :=
    carriesOut_act chosen departs.acted
  exact carries

theorem Automatics.carriesOut {machine : Machine} {occasion : Occasion} {run final : Run}
    {leaf last : String} {selections : List Selection}
    (settles : machine.Automatics occasion run leaf selections final last)
    : machine.CarriesOut occasion.payload run selections final := by
  induction settles with
  | without missing => exact .refl machine occasion.payload _
  | held route held => exact carriesOut_held held
  | internal route chosen internal acted => exact carriesOut_act chosen acted
  | leave route chosen departs descent _ ih =>
      exact (departs.carriesOut chosen).trans (descent.carriesOut.trans ih)

/-- The model before a call: starting begins with the initial one. -/
def modelBefore (machine : Machine) (state : State) : Call → Json
  | .start _ => machine.initialModel
  | _ => state.model

/-- All outputs of a run are those of the selections if it went on from one without outputs. -/
theorem CarriesOut.exists_unfolds {machine : Machine} {payload : Json} {run final : Run}
    {selections : List Selection}
    (carries : machine.CarriesOut payload run selections final) (silent : run.outputs = [])
    : ∃ models,
        Unfolds machine.settings payload run.model selections models final.outputs
          final.model := by
  obtain ⟨models, outputs, unfolds, added⟩ := carries
  rw [silent, List.nil_append] at added
  exact ⟨models, added ▸ unfolds⟩

/-- Whatever a call selects, it carries out from the model that it begins with; by the kind of call,
each of which begins without outputs.
-/
theorem Selects.exists_unfolds {machine : Machine} {state : State} {call : Call} {final : Run}
    {last : String} {selections : List Selection}
    (selects : machine.Selects state call selections final last)
    : ∃ models,
        Unfolds machine.settings call.payload (machine.modelBefore state call) selections models
          final.outputs final.model := by
  cases selects with
  | start descent settles =>
      exact (descent.carriesOut.trans settles.carriesOut).exists_unfolds rfl
  | unhandled active missing => exact (CarriesOut.refl machine _ state.run).exists_unfolds rfl
  | held active handler held =>
      have carries := @carriesOut_held machine _ state.run _ held
      exact carries.exists_unfolds rfl
  | internal active handler chosen internal acted settles =>
      exact ((carriesOut_act chosen acted).trans settles.carriesOut).exists_unfolds rfl
  | moved active handler chosen departs descent settles =>
      have down := descent.carriesOut.trans settles.carriesOut
      exact ((departs.carriesOut chosen).trans down).exists_unfolds rfl

-----------------------------------------------------------------------------------------
-- Every call that succeeds selects
-----------------------------------------------------------------------------------------

/-- A way down to a leaf selects its alternatives, by induction on the way. -/
theorem Way.exists_entries {machine : Machine} {payload : Json} {run later : Run}
    {state last : String} {alternatives : List Alternative}
    (way : machine.Way payload run state alternatives later last)
    (arrived : machine.isLeafState last = true)
    : ∃ entries, machine.Entries payload run state entries later last := by
  induction way with
  | here => exact ⟨[], .here arrived⟩
  | enter step _ ih =>
      obtain ⟨transition, route, _⟩ := Option.bind_eq_some_iff.mp step.chosen
      obtain ⟨entries, descent⟩ := ih arrived
      exact ⟨_, .enter route step descent⟩

/-- So does taking an alternative with a target. -/
theorem exists_entries_of_take {machine : Machine} {occasion : Occasion} {run after : Run}
    {leaf event target reached : String} {alternative : Alternative}
    (declared : machine.Declares alternative) (aims : alternative.target = some target)
    (recalls : machine.Recalls run.history) (isLeaf : machine.isLeafState leaf = true)
    (taken : machine.take occasion run leaf event alternative = .ok (after, reached))
    : ∃ next entries later,
        machine.Departs occasion.payload run leaf alternative target next
        ∧ machine.Entries occasion.payload next (landing next target) entries later reached
        ∧ after
          = { later with log := later.log.record ⟨leaf, reached, event, occasion.time⟩ } := by
  obtain ⟨next, alternatives, later, departs, way, arrived, same⟩ :=
    take_ok declared aims recalls isLeaf taken
  obtain ⟨entries, descent⟩ := way.exists_entries arrived
  exact ⟨next, entries, later, departs, descent, same⟩

/-- Where settling comes to rest, nothing is selected, or guards that all fail, or an internal
alternative.
-/
theorem ChainEnd.exists_automatics {machine : Machine} {occasion : Occasion}
    {left : List String} {run final : Run} {leaf last : String}
    (ended : machine.ChainEnd occasion left run leaf (.ok (final, last)))
    : ∃ selections, machine.Automatics occasion run leaf selections final last := by
  obtain ⟨rfl, ⟨quiet, rfl⟩ | ⟨alternative, chosen, internal, acted⟩⟩ := ended.ok_cases
  · cases route : machine.chart.route? last entryEvent with
    | none => exact ⟨[], .without route⟩
    | some transition =>
        have held : transition.select? final.model occasion.payload machine.settings = none := by
          simpa [automatic?, route] using quiet
        exact ⟨_, .held route held⟩
  · obtain ⟨transition, route, selected⟩ := Option.bind_eq_some_iff.mp chosen
    exact ⟨_, .internal route selected internal acted⟩

/-- Along a chain each departure selects its alternative and those of its descent; by induction on
the chain.
-/
theorem Chain.exists_automatics {machine : Machine} {occasion : Occasion} {left : List String}
    {run later final : Run} {leaf stop last : String} {departures : List Departure}
    (chain : machine.Chain occasion run leaf departures later stop)
    (ended : machine.ChainEnd occasion left later stop (.ok (final, last)))
    (recalls : machine.Recalls run.history) (isLeaf : machine.isLeafState leaf = true)
    : ∃ selections, machine.Automatics occasion run leaf selections final last := by
  induction chain with
  | here => exact ended.exists_automatics
  | leave chosen aims taken _ ih =>
      have declared := declares_of_automatic? chosen
      obtain ⟨after, arrived⟩ :=
        take_keeps machine.memorable_tellsLeaf declared recalls isLeaf taken
      obtain ⟨selections, settles⟩ := ih ended after arrived
      obtain ⟨next, entries, later, departs, descent, rfl⟩ :=
        exists_entries_of_take declared aims recalls isLeaf taken
      obtain ⟨transition, route, selected⟩ := Option.bind_eq_some_iff.mp chosen
      exact ⟨_, .leave route selected departs descent settles⟩

theorem Settles.exists_automatics {machine : Machine} {occasion : Occasion} {run final : Run}
    {leaf last : String} {departures : List Departure}
    (settles : machine.Settles occasion run leaf departures final last)
    (recalls : machine.Recalls run.history) (isLeaf : machine.isLeafState leaf = true)
    : ∃ selections, machine.Automatics occasion run leaf selections final last := by
  obtain ⟨later, stop, chain, ended⟩ := settles
  exact chain.exists_automatics ended recalls isLeaf

theorem unchanged_eq_commit {state : State} {leaf : String} (active : state.active = some leaf)
    : unchanged state leaf = commit state.run leaf := by
  obtain ⟨model, _, history, log⟩ := state
  cases active
  rfl

/-- Whatever course a call takes, it selects what that needs; by the kind of course. -/
theorem Course.selects {machine : Machine} {state : State} {call : Call}
    {departures : List Departure} {result : State × Outcome}
    (course : machine.Course state call departures result)
    (poised : machine.Poised machine.TellsLeaf state)
    : ∃ selections final last,
        machine.Selects state call selections final last ∧ result = commit final last := by
  have before : machine.Recalls state.run.history := poised.history
  cases course with
  | start way arrived settles =>
      have recalls := History.all_empty machine.TellsLeaf
      obtain ⟨entries, descent⟩ := way.exists_entries arrived
      obtain ⟨selections, automatics⟩ :=
        settles.exists_automatics (way.keeps.1 ▸ recalls) arrived
      exact ⟨_, _, _, .start descent automatics, rfl⟩
  | @ignored leaf event payload time active unanswered =>
      cases handler : machine.handler? leaf event with
      | none => exact ⟨_, _, leaf, .unhandled active handler, unchanged_eq_commit active⟩
      | some transition =>
          have held : transition.select? state.model payload machine.settings = none := by
            simpa [answer?, handler] using unanswered
          exact ⟨_, _, leaf, .held active handler held, unchanged_eq_commit active⟩
  | internal active answered internal acted settles =>
      obtain ⟨transition, handler, chosen⟩ := Option.bind_eq_some_iff.mp answered
      obtain ⟨selections, automatics⟩ :=
        settles.exists_automatics ((act_keeps acted).1 ▸ before) (poised.active _ active)
      exact ⟨_, _, _, .internal active handler chosen internal acted automatics, rfl⟩
  | moved active answered aims taken settles =>
      have declared := declares_of_answer? answered
      have isLeaf := poised.active _ active
      obtain ⟨transition, handler, chosen⟩ := Option.bind_eq_some_iff.mp answered
      obtain ⟨recalls, arrived⟩ :=
        take_keeps machine.memorable_tellsLeaf declared before isLeaf taken
      obtain ⟨selections, automatics⟩ := settles.exists_automatics recalls arrived
      obtain ⟨next, entries, later, departs, descent, rfl⟩ :=
        exists_entries_of_take declared aims before isLeaf taken
      exact ⟨_, _, _, .moved active handler chosen departs descent automatics, rfl⟩

/-- What a call that succeeds did: what it selected, and the models that its actions made, from the
model before it to the one that it gives back and keeps.
-/
structure Accounts (machine : Machine) (state : State) (call : Call) (next : State)
    (outcome : Outcome) (selections : List Selection) (models : List Json)
    : Prop where
  selects
    : ∃ final last,
        machine.Selects state call selections final last ∧ (next, outcome) = commit final last
  executes : Executes machine.settings call.payload selections models outcome.outputs
  first : models.head? = some (machine.modelBefore state call)
  last : models.getLast? = some outcome.model
  stored : next.model = outcome.model

theorem Selects.accounts {machine : Machine} {state : State} {call : Call} {final : Run}
    {last : String} {selections : List Selection}
    (selects : machine.Selects state call selections final last)
    : ∃ models,
        machine.Accounts state call (commit final last).1 (commit final last).2 selections
          models := by
  obtain ⟨models, unfolds⟩ := selects.exists_unfolds
  exact ⟨_, ⟨final, last, selects, rfl⟩, unfolds.executes, rfl, unfolds.getLast?, rfl⟩

/-- The model and the outputs of every call that succeeds, wherever calls lead, are those of the
actions that it executes one after the other.
-/
theorem successes_execute (machine : Machine) (calls : List Call)
    : (∀ time next outcome,
          machine.start time = .ok (next, outcome)
          → ∃ selections models,
              machine.Accounts (machine.after calls) (.start time) next outcome selections models)
      ∧ ∀ event (payload : Option Json) time next outcome,
          machine.dispatch (machine.after calls) event (payload.getD .null) time
            = .ok (next, outcome)
          → ∃ selections models,
              machine.Accounts (machine.after calls)
                (.dispatch event (payload.getD .null) time) next outcome selections models := by
  have poised := performAll_poised calls (machine.poised_fresh _)
  have accounts {call departures next outcome}
      (course : machine.Course (machine.after calls) call departures (next, outcome))
      : ∃ selections models,
          machine.Accounts (machine.after calls) call next outcome selections models := by
    obtain ⟨selections, final, last, selects, same⟩ := course.selects poised
    cases same
    exact ⟨selections, selects.accounts⟩
  constructor
  · intro time next outcome started
    obtain ⟨departures, course⟩ := course_of_start (machine.after calls) started
    exact accounts course
  · intro event payload time next outcome dispatched
    obtain ⟨departures, course⟩ := course_of_dispatch dispatched
    exact accounts course

/-- An action that puts out its name and makes it the model. -/
def noteName (name : String) : Action where
  name
  run _ _ _ := { update := [.replace "" (.string name)], output := .string name }

/-- Whether a name is the model. -/
def noted (name : String) : Predicate where
  name
  holds model _ _ := model.same (.string name)

/-- A lift that comes when it is called, rides up if it was called last, and rings if it rode. -/
def liftChart : Chart where
  states := .compound "lift" (.leaf "lower" (.leaf "upper" .nil)) .nil
  transitions :=
    [⟨rootName, none, .always (some "lift") (some (noteName "call"))⟩,
      ⟨"lift", none,
        .guarded
          [⟨noted "ride", some "lower", none⟩,
            ⟨noted "call", some "upper", some (noteName "ride")⟩]⟩,
      ⟨"upper", none, .guarded [⟨noted "ride", none, some (noteName "ring")⟩]⟩]

def lift : Machine where
  chart := liftChart
  outline :=
    ⟨[⟨rootName, []⟩, ⟨"lift", [rootName]⟩, ⟨"lower", ["lift", rootName]⟩,
      ⟨"upper", ["lift", rootName]⟩]⟩
  accepted := rfl
  initialModel := .null
  settings := .null

/-- Each guard of the lift sees what the action before it noted. -/
theorem lift_rings
    : (lift.start noon).toOption.map
          (fun result => (result.2.state, result.2.outputs.filterMap Json.string?))
        = some ("upper", ["call", "ride", "ring"])
      ∧ ∃ next outcome selections models,
          lift.start noon = .ok (next, outcome)
          ∧ lift.Accounts (lift.after []) (.start noon) next outcome selections models := by
  have rings
      : (lift.start noon).toOption.map
          (fun result => (result.2.state, result.2.outputs.filterMap Json.string?))
        = some ("upper", ["call", "ride", "ring"]) := by
    decide +kernel
  refine ⟨rings, ?_⟩
  cases started : lift.start noon with
  | error failure =>
      rw [started] at rings
      cases rings
  | ok result =>
      obtain ⟨selections, models, accounts⟩ :=
        (lift.successes_execute []).1 noon result.1 result.2 started
      exact ⟨_, _, selections, models, rfl, accounts⟩

end Machine

end Statechart
