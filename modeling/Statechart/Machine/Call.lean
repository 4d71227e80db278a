import Statechart.Machine.Run
import Statechart.Memory.Checkpoint

/-! The calls of a machine: starting it, dispatching an event to it, taking a checkpoint and
resuming one. A call that succeeds gives the state after it; one that fails gives none, so
the state before it stays.
-/

namespace Statechart

namespace Machine

/-- The state and the outcome of a run that ended at a leaf. -/
def commit (run : Run) (leaf : String) : State × Outcome :=
  ({ model := run.model, active := some leaf, history := run.history, log := run.log },
    { model := run.model, state := leaf, outputs := run.outputs })

/-- The outcome of an event that nothing answers. -/
def unchanged (state : State) (leaf : String) : State × Outcome :=
  (state, { model := state.model, state := leaf, outputs := [] })

/-- Enters the root afresh, with the initial model, no history and an empty log, whatever
the machine did before.
-/
def start (machine : Machine) (time : Instant) : Except Failure (State × Outcome) := do
  let occasion : Occasion := { payload := .null, time }
  let run : Run := { model := machine.initialModel, history := {}, log := machine.emptyLog }
  let (run, leaf) ← machine.descend occasion.payload run rootName
  let (run, leaf) ← machine.settle occasion run [] leaf
  return commit run leaf

/-- The first transition for an event on the innermost state around a leaf that has one. -/
def handler? (machine : Machine) (leaf event : String) : Option Transition :=
  (machine.outline.ancestors leaf).findSome? (machine.route? · event)

/-- Dispatches an event. If no state around the active leaf answers it, or no guard of the
transition that does holds, nothing changes.
-/
def dispatch (machine : Machine) (state : State) (event : String) (payload : Json)
    (time : Instant)
    : Except Failure (State × Outcome) :=
  if event = entryEvent then .error (.reservedEvent event)
  else
    match state.active with
    | none => .error .notInitialized
    | some leaf =>
        match machine.handler? leaf event with
        | none => .ok (unchanged state leaf)
        | some transition =>
            match transition.select? state.model payload machine.settings with
            | none => .ok (unchanged state leaf)
            | some alternative => do
                let occasion : Occasion := { payload, time }
                let run : Run :=
                  { model := state.model, history := state.history, log := state.log }
                let (run, next) ← machine.take occasion run leaf event alternative
                let (run, next) ← machine.settle occasion run [] next
                return commit run next

/-- What a machine remembers, if it is initialized. -/
def checkpoint (state : State) (id : String) (time : Instant)
    : Except CheckpointError Checkpoint :=
  match state.active with
  | none => .error .notInitialized
  | some leaf =>
      .ok
        { version := Checkpoint.currentVersion, id, timestamp := time, activeState := leaf,
          model := state.model, history := state.history, log := state.log }

/-- Whether a name is that of a leaf of the chart. -/
def isLeafState (machine : Machine) (name : String) : Bool :=
  machine.outline.has name && machine.outline.isLeaf name

/-- Whether an entry of a history pairs a compound state and a leaf of the chart. -/
def fitsEntry (machine : Machine) (entry : String × String) : Bool :=
  machine.outline.has entry.1 && machine.outline.isCompound entry.1
    && machine.isLeafState entry.2

/-- Goes on from a checkpoint, if it fits the chart. -/
def resume (machine : Machine) (checkpoint : Checkpoint) : Except CheckpointError State :=
  if checkpoint.version ≠ Checkpoint.currentVersion then
    .error (.unsupportedVersion checkpoint.version)
  else if !machine.isLeafState checkpoint.activeState then
    .error (.notLeaf checkpoint.activeState)
  else
    match checkpoint.history.entries.find? (fun entry => !machine.fitsEntry entry) with
    | some (state, leaf) => .error (.strangeHistory state leaf)
    | none =>
        .ok
          { model := checkpoint.model, active := some checkpoint.activeState,
            history := checkpoint.history, log := checkpoint.log }

end Machine

end Statechart
