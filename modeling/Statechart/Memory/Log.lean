import Statechart.Json.Record
import Statechart.Time.Reader

/-! The log of a machine: the changes of its active leaf in order. With a capacity the
oldest records are dropped when one is added.
-/

namespace Statechart

/-- A change of the active leaf. -/
structure LogRecord where
  source : String
  target : String
  /-- What caused the change; the event of entering a state for an automatic one. -/
  event : String
  timestamp : Instant
deriving DecidableEq

/-- The changes since the log was begun, or the latest of them, oldest first. -/
structure Log where
  records : List LogRecord := []
  capacity : Option Nat := none
deriving DecidableEq

namespace LogRecord

def json (record : LogRecord) : Json :=
  .object
    [("from", .string record.source), ("to", .string record.target),
      ("event", .string record.event), ("timestamp", .string record.timestamp.text)]

def ofRaw? (raw : Json.Raw) : Option LogRecord := do
  match ← raw.fields? ["from", "to", "event", "timestamp"] 4 with
  | [some source, some target, some event, some timestamp] =>
      let source ← source.string?
      let target ← target.string?
      let event ← event.string?
      let timestamp ← timestamp.string?.bind Instant.ofText?
      return { source, target, event, timestamp }
  | _ => none

end LogRecord

namespace Log

/-- Adds a record, and drops the oldest ones that are more than the capacity. -/
def record (log : Log) (record : LogRecord) : Log :=
  let records := log.records ++ [record]
  match log.capacity with
  | none => { log with records }
  | some capacity => { log with records := records.drop (records.length - capacity) }

/-- The leaves visited: the source of the first record, then every target. -/
def path (log : Log) : List String :=
  (log.records.head?.map (·.source)).toList ++ log.records.map (·.target)

/-- Capacities are counted in 64 bits. -/
def capacityBound : Nat :=
  Nat.pow 2 64

def json (log : Log) : Json :=
  .object
    [("records", .array (log.records.map LogRecord.json)),
      ("capacity", (log.capacity.map (fun capacity => Json.integer capacity)).getD .null)]

/-- Reads a log. One with more records than its capacity is taken as it is. -/
def ofRaw? (raw : Json.Raw) : Option Log := do
  match ← raw.fields? ["records", "capacity"] 2 with
  | [some records, capacity] =>
      let records ← records.items?
      let records ← records.mapM LogRecord.ofRaw?
      let capacity ← Json.Raw.optional? (Json.Raw.natural? capacityBound) capacity
      return { records, capacity }
  | _ => none

end Log

end Statechart
