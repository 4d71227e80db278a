import Statechart.Machine.Basic

/-! Carrying out transitions. A run holds the model, the history, the log and the outputs of
a call that has not ended yet; nothing of it is kept when the call fails. Leaving states is
remembered first, then the action runs, then the target is entered down to a leaf.
-/

namespace Statechart

/-- The state of a call that has not ended yet. -/
structure Run where
  model : Json
  history : History
  log : Log
  outputs : List Json := []

/-- What an event brings along, and when it comes. -/
structure Occasion where
  payload : Json
  time : Instant

namespace Machine

-----------------------------------------------------------------------------------------
-- Actions and targets
-----------------------------------------------------------------------------------------

/-- Runs an action on the current model, makes its edits and keeps its output. -/
def act (machine : Machine) (payload : Json) (run : Run) : Option Action → Except Failure Run
  | none => .ok run
  | some action =>
      let result := action.run run.model payload machine.settings
      match Patch.check result.update with
      | .error error => .error (.malformedUpdate action.name error)
      | .ok changes =>
          match Patch.run changes run.model with
          | .error error => .error (.failedUpdate action.name error)
          | .ok model => .ok { run with model, outputs := run.outputs ++ [result.output] }

/-- The state that a target leads to, which must be one of the chart. -/
def resolve (machine : Machine) (target : String) : Except Failure String :=
  let state := Chart.targetState target
  if machine.outline.has state then .ok state else .error (.chart (.unknownState state))

/-- The leaf remembered for a state, if the target is one that goes back. -/
def remembered? (run : Run) (target state : String) : Option String :=
  if isHistoryTarget target then run.history.get? state else none

/-- Goes back to a remembered leaf, which must be one of the chart. It always is: exits are only
recorded at leaves, and a checkpoint that remembers anything else is refused, so that no call
fails here. To enter what is remembered would be the same at a leaf, but would never end at a
compound state that is remembered for itself.
-/
def returnTo (machine : Machine) (leaf : String) : Except Failure String :=
  if machine.outline.has leaf && machine.outline.isLeaf leaf then .ok leaf
  else .error (.chart (.unknownState leaf))

-----------------------------------------------------------------------------------------
-- Entering states
-----------------------------------------------------------------------------------------

/-- Enters a state down to a leaf. Each compound state on the way is entered by its first
automatic transition, whose target lies inside it; a target that goes back ends the way at
the leaf remembered for it.
-/
def descend (machine : Machine) (payload : Json) (run : Run) (state : String)
    : Except Failure (Run × String) :=
  if machine.outline.isLeaf state then .ok (run, state)
  else
    match machine.route? state entryEvent with
    | none => .error (.chart (.missingEntry state))
    | some transition =>
        match transition.select? run.model payload machine.settings with
        | none => .error (.chart (.unresolvedEntry state))
        | some ⟨_, none, _⟩ => .error (.chart (.entryWithoutTarget state))
        | some ⟨_, some target, action⟩ =>
            match machine.resolve target with
            | .error failure => .error failure
            | .ok next =>
                if h : machine.outline.contains state next then
                  match machine.act payload run action with
                  | .error failure => .error failure
                  | .ok run =>
                      match remembered? run target next with
                      | some leaf => (machine.returnTo leaf).map (fun leaf => (run, leaf))
                      | none =>
                          have := Outline.depth_lt_of_contains h
                          have := machine.outline.depth_le_height next
                          descend machine payload run next
                else .error (.chart (.entryOutside state target))
termination_by machine.outline.height - machine.outline.depth state
decreasing_by omega

/-- Reaches a leaf at a target: the one remembered for it, or one by entering it afresh. -/
def arrive (machine : Machine) (payload : Json) (run : Run) (target state : String)
    : Except Failure (Run × String) :=
  match remembered? run target state with
  | some leaf => (machine.returnTo leaf).map (fun leaf => (run, leaf))
  | none => machine.descend payload run state

-----------------------------------------------------------------------------------------
-- Leaving states
-----------------------------------------------------------------------------------------

/-- The compound states that are left on the way from a leaf to a state, the innermost first. -/
def exited (machine : Machine) (leaf state : String) : List String :=
  (machine.outline.enclosing leaf).takeWhile
    (fun outer => outer ≠ rootName && !machine.outline.contains outer state)

/-- Remembers the leaf for every compound state that is left. -/
def recordExits (machine : Machine) (run : Run) (leaf state : String) : Run :=
  { run with
    history :=
      (machine.exited leaf state).foldl (fun history outer => history.record outer leaf)
        run.history }

/-- Takes an alternative from a leaf and gives the leaf reached. Without a target only the
action runs.
-/
def take (machine : Machine) (occasion : Occasion) (run : Run) (leaf event : String)
    (alternative : Alternative)
    : Except Failure (Run × String) :=
  match alternative.target with
  | none =>
      (machine.act occasion.payload run alternative.action).map (fun run => (run, leaf))
  | some target => do
      let state ← machine.resolve target
      -- Going back to a state that is left by this very step leads to the leaf just left.
      let run := machine.recordExits run leaf state
      let run ← machine.act occasion.payload run alternative.action
      let (run, next) ← machine.arrive occasion.payload run target state
      let record : LogRecord :=
        { source := leaf, target := next, event, timestamp := occasion.time }
      return ({ run with log := run.log.record record }, next)

-----------------------------------------------------------------------------------------
-- Chains of automatic transitions
-----------------------------------------------------------------------------------------

/-- The transitions whose source is not among some states. -/
def remaining (machine : Machine) (left : List String) : List Transition :=
  machine.chart.transitions.filter (fun transition => !left.contains transition.source)

/-- Leaving a state that has a transition leaves fewer of them. -/
theorem remaining_length_lt {machine : Machine} {left : List String} {state event : String}
    {transition : Transition} (hr : machine.route? state event = some transition)
    (hl : left.contains state = false)
    : (machine.remaining (state :: left)).length < (machine.remaining left).length := by
  obtain ⟨hm, hs, -⟩ := route?_spec hr
  have hf : machine.remaining (state :: left)
      = (machine.remaining left).filter (fun t => !(t.source == state)) := by
    simp only [remaining, List.filter_filter, List.contains_cons, Bool.not_or]
  rw [hf]
  refine List.length_filter_lt_length_iff_exists.mpr ⟨transition, ?_, ?_⟩
  · refine List.mem_filter.mpr ⟨hm, ?_⟩
    rw [hs, hl]
    rfl
  · simp [hs]

/-- Takes automatic transitions from a leaf until none applies. One without a target ends
the chain after its action; a leaf that was left before cannot be left again.
-/
def settle (machine : Machine) (occasion : Occasion) (run : Run) (left : List String)
    (leaf : String)
    : Except Failure (Run × String) :=
  match hr : machine.route? leaf entryEvent with
  | none => .ok (run, leaf)
  | some transition =>
      match transition.select? run.model occasion.payload machine.settings with
      | none => .ok (run, leaf)
      | some alternative =>
          if alternative.target.isNone then
            (machine.act occasion.payload run alternative.action).map (fun run => (run, leaf))
          else if hl : left.contains leaf then .error (.chart (.automaticCycle leaf))
          else
            match machine.take occasion run leaf entryEvent alternative with
            | .error failure => .error failure
            | .ok (run, next) =>
                have := remaining_length_lt hr (by simpa using hl)
                settle machine occasion run (leaf :: left) next
termination_by (machine.remaining left).length
decreasing_by assumption

end Machine

end Statechart
