import Statechart.Memory.History
import Statechart.Memory.Log
import Statechart.Json.Printer

/-! Checkpoints: what a running machine remembers, as a value that outlives it, and its
text. The functions of the chart are not part of it.
-/

namespace Statechart

/-- What a running machine remembers. -/
structure Checkpoint where
  version : Nat
  id : String
  timestamp : Instant
  activeState : String
  model : Json
  history : History
  log : Log

/-- What can go wrong when a checkpoint is taken, read or resumed. -/
inductive CheckpointError where
  /-- A text that writes no checkpoint. -/
  | unreadable
  | unsupportedVersion (found : Nat)
  | notInitialized
  /-- The active state is not a leaf of the chart. -/
  | notLeaf (state : String)
  /-- An entry of the history does not pair a compound state and a leaf of the chart. -/
  | strangeHistory (state leaf : String)
deriving DecidableEq, Repr

namespace Checkpoint

/-- The version of checkpoints that are written and can be resumed. -/
def currentVersion : Nat :=
  1

/-- Versions are counted in 32 bits. -/
def versionBound : Nat :=
  Nat.pow 2 32

/-- The names of the fields, in the order in which they are written. -/
def fieldNames : List String :=
  ["version", "id", "timestamp", "control_state", "model", "history", "log"]

def json (checkpoint : Checkpoint) : Json :=
  .object
    [("version", Json.integer checkpoint.version), ("id", .string checkpoint.id),
      ("timestamp", .string checkpoint.timestamp.text),
      ("control_state", .string checkpoint.activeState), ("model", checkpoint.model),
      ("history", checkpoint.history.json), ("log", checkpoint.log.json)]

/-- The compact text of a checkpoint. -/
def text (checkpoint : Checkpoint) : String :=
  checkpoint.json.text

/-- Reads a checkpoint; its model is one level below the text. -/
def ofRaw? (raw : Json.Raw) : Option Checkpoint := do
  match ← raw.fields? fieldNames 7 with
  | [some version, some id, some timestamp, some activeState, some model, some history,
      some log] =>
      let version ← version.natural? versionBound
      let id ← id.string?
      let timestamp ← timestamp.string?.bind Instant.ofText?
      let activeState ← activeState.string?
      let model ← model.json? (Json.depthLimit - 1)
      let history ← History.ofRaw? history
      let log ← Log.ofRaw? log
      return { version, id, timestamp, activeState, model, history, log }
  | _ => none

/-- Reads a checkpoint from its text. -/
def ofText (text : String) : Except CheckpointError Checkpoint :=
  match (Json.Raw.ofText? text).bind ofRaw? with
  | some checkpoint => .ok checkpoint
  | none => .error .unreadable

end Checkpoint

namespace CheckpointError

def message : CheckpointError → String
  | .unreadable => "Could not read checkpoint JSON: not the fields of a checkpoint"
  | .unsupportedVersion found =>
      "Checkpoint format " ++ toString found ++ " cannot be resumed, this build reads format "
        ++ toString Checkpoint.currentVersion
  | .notInitialized => "Cannot checkpoint an interpreter before initialize()"
  | .notLeaf state =>
      s!"Checkpoint does not fit this chart: '{state}' is not a leaf state of this chart"
  | .strangeHistory state leaf =>
      s!"Checkpoint does not fit this chart: history entry '{state}' -> '{leaf}'"
        ++ " does not fit this chart"

end CheckpointError

end Statechart
