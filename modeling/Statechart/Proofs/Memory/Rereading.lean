import Statechart.Memory.Checkpoint
import Statechart.Proofs.Json.Rereading
import Statechart.Proofs.Time.Rereading

/-! Checkpoints are read back from their text. Everything but the model is read back whatever it
is; the model is one level below the text, and so is read back if it nests one level less deep
than a text may.
-/

namespace Statechart

open Json (Raw Exact)

namespace History

theorem ext {history other : History} (same : history.entries = other.entries)
    : history = other := by
  cases history
  cases other
  obtain rfl := same
  rfl

/-- An entry whose state comes after all others is put last. -/
theorem place_last {state leaf : String} {entries : List (String × String)}
    (before : ∀ entry ∈ entries, entry.1 < state)
    : place state leaf entries = entries ++ [(state, leaf)] := by
  induction entries with
  | nil => rfl
  | cons first rest ih =>
      obtain ⟨name, old⟩ := first
      have below : name < state := before (name, old) List.mem_cons_self
      have other : state ≠ name := fun same => String.lt_irrefl _ (same ▸ below)
      have notAbove : ¬ state < name :=
        fun above => String.lt_irrefl _ (String.lt_trans above below)
      have last := ih (fun entry member => before entry (List.mem_cons_of_mem _ member))
      rw [place, if_neg other, if_neg notAbove, last, List.cons_append]

/-- Recording the entries that are still missing gives the whole history, by induction on them. -/
theorem foldlM_record {history whole : History} {rest : List (String × String)}
    (split : whole.entries = history.entries ++ rest)
    : (Raw.ofMembers (rest.map (fun (state, leaf) => (state, .string leaf)))).foldlM
          (fun (history : History) (state, leaf) => do
            let state ← state
            let leaf ← leaf.string?
            return history.record state leaf)
          history
      = some whole := by
  induction rest generalizing history with
  | nil =>
      have same : history = whole := ext (by rw [split, List.append_nil])
      rw [same]
      rfl
  | cons entry rest ih =>
      obtain ⟨state, leaf⟩ := entry
      -- Entries ascend, so the next state comes after all that are recorded.
      have before : ∀ entry ∈ history.entries, entry.1 < state := by
        intro entry member
        have ascending := whole.ascending
        rw [split] at ascending
        exact (List.pairwise_append.mp ascending).2.2 entry member _ List.mem_cons_self
      have recorded : whole.entries = (history.record state leaf).entries ++ rest := by
        simp only [record, place_last before, split, List.append_assoc, List.singleton_append]
      exact ih recorded

/-- A history is read back from the object that writes it. -/
theorem ofRaw?_ofJson (history : History) : ofRaw? (Raw.ofJson history.json) = some history := by
  have split : history.entries = ({} : History).entries ++ history.entries := by simp
  exact foldlM_record split

theorem exact_json (history : History) : history.json.Exact := by
  refine .object ?_ ?_
  · have distinct : (history.entries.map (·.1)).Nodup := by
      refine List.pairwise_map.mpr (history.ascending.imp ?_)
      intro entry other below same
      exact String.lt_irrefl _ (same ▸ below)
    simpa [Function.comp_def] using distinct
  · intro member found
    obtain ⟨entry, _, rfl⟩ := List.mem_map.mp found
    exact .string entry.2

end History

/-- A record of the log is read back, field by field. -/
theorem LogRecord.ofRaw?_ofJson (record : LogRecord)
    : LogRecord.ofRaw? (Raw.ofJson record.json) = some record := by
  have fields
      : Raw.fields? ["from", "to", "event", "timestamp"] 4 (Raw.ofJson record.json)
        = some
            [some (.string (some record.source)), some (.string (some record.target)),
              some (.string (some record.event)), some (.string (some record.timestamp.text))] :=
    Raw.fields?_ofJson rfl (by decide)
  simp only [LogRecord.ofRaw?, fields, Raw.string?, Instant.ofText?_text, bind, Option.bind, pure]

theorem LogRecord.exact_json (record : LogRecord) : record.json.Exact := by
  refine .object (by simp) ?_
  intro member found
  simp only [List.mem_cons, List.not_mem_nil, or_false] at found
  rcases found with rfl | rfl | rfl | rfl <;> exact .string _

namespace Log

theorem mapM_ofRaw? (records : List LogRecord)
    : (Raw.ofItems (records.map LogRecord.json)).mapM LogRecord.ofRaw? = some records := by
  induction records with
  | nil => rfl
  | cons record records ih =>
      rw [List.map_cons, Raw.ofItems, List.mapM_cons, LogRecord.ofRaw?_ofJson, ih]
      rfl

/-- A log whose capacity, if there is one, can be counted. -/
def Counted (log : Log) : Prop :=
  ∀ capacity, log.capacity = some capacity → capacity < capacityBound

/-- A capacity is written as a number or as null, and read back from either. -/
theorem exists_capacity {log : Log} (counted : log.Counted)
    : ∃ written,
        log.json
          = .object [("records", .array (log.records.map LogRecord.json)), ("capacity", written)]
        ∧ written.Exact
        ∧ Raw.optional? (Raw.natural? capacityBound) (some (Raw.ofJson written))
          = some log.capacity := by
  obtain ⟨records, capacity⟩ := log
  cases capacity with
  | none => exact ⟨.null, rfl, .null, rfl⟩
  | some capacity =>
      have small : capacity < capacityBound := counted capacity rfl
      refine ⟨Json.integer capacity, rfl, .number (Number.fits64_natural small), ?_⟩
      simp [Json.integer, Raw.ofJson, Raw.optional?, Raw.natural?, small]

/-- A log is read back, with its capacity. -/
theorem ofRaw?_ofJson {log : Log} (counted : log.Counted)
    : ofRaw? (Raw.ofJson log.json) = some log := by
  obtain ⟨written, shape, _, counts⟩ := exists_capacity counted
  have fields
      : Raw.fields? ["records", "capacity"] 2 (Raw.ofJson log.json)
        = some
            [some (.array (Raw.ofItems (log.records.map LogRecord.json))),
              some (Raw.ofJson written)] := by
    rw [shape]
    exact Raw.fields?_ofJson rfl (by decide)
  simp only [ofRaw?, fields, Raw.items?, mapM_ofRaw?, counts, bind, Option.bind, pure]

theorem exact_json {log : Log} (counted : log.Counted) : log.json.Exact := by
  obtain ⟨written, shape, exact, _⟩ := exists_capacity counted
  rw [shape]
  have records : ∀ item ∈ log.records.map LogRecord.json, item.Exact := by
    intro item found
    obtain ⟨record, _, rfl⟩ := List.mem_map.mp found
    exact record.exact_json
  refine .object (by simp) ?_
  intro member found
  simp only [List.mem_cons, List.not_mem_nil, or_false] at found
  rcases found with rfl | rfl
  · exact .array records
  · exact exact

end Log

namespace Checkpoint

/-- A checkpoint that can be written without loss. -/
structure Writable (checkpoint : Checkpoint) : Prop where
  version : checkpoint.version < versionBound
  model : checkpoint.model.Exact
  log : checkpoint.log.Counted

/-- Of what a checkpoint is read from, only its model may nest too deep. -/
theorem ofRaw?_ofJson {checkpoint : Checkpoint} (writable : checkpoint.Writable)
    : ofRaw? (Raw.ofJson checkpoint.json)
      = if checkpoint.model.nesting ≤ Json.depthLimit - 1 then some checkpoint else none := by
  obtain ⟨version, model, log⟩ := writable
  have fields
      : Raw.fields? fieldNames 7 (Raw.ofJson checkpoint.json)
        = some
            [some (.number (some (.integer checkpoint.version))),
              some (.string (some checkpoint.id)),
              some (.string (some checkpoint.timestamp.text)),
              some (.string (some checkpoint.activeState)), some (Raw.ofJson checkpoint.model),
              some (Raw.ofJson checkpoint.history.json), some (Raw.ofJson checkpoint.log.json)] :=
    Raw.fields?_ofJson rfl (by decide)
  have counts
      : Raw.natural? versionBound (.number (some (.integer checkpoint.version)))
        = some checkpoint.version :=
    if_pos version
  have returns := Raw.returns_of_exact model (Json.depthLimit - 1)
  simp only [ofRaw?, fields, counts, Raw.string?, Instant.ofText?_text, returns,
    History.ofRaw?_ofJson, Log.ofRaw?_ofJson log, bind, Option.bind, pure]
  by_cases shallow : checkpoint.model.nesting ≤ Json.depthLimit - 1
  · simp only [if_pos shallow]
  · simp only [if_neg shallow]

theorem exact_json {checkpoint : Checkpoint} (writable : checkpoint.Writable)
    : checkpoint.json.Exact := by
  obtain ⟨version, model, log⟩ := writable
  have small : checkpoint.version < Nat.pow 2 64 := Nat.lt_trans version (by decide)
  refine .object (by simp) ?_
  intro member found
  simp only [List.mem_cons, List.not_mem_nil, or_false] at found
  rcases found with rfl | rfl | rfl | rfl | rfl | rfl | rfl
  · exact .number (Number.fits64_natural small)
  · exact .string _
  · exact .string _
  · exact .string _
  · exact model
  · exact checkpoint.history.exact_json
  · exact Log.exact_json log

/-- A checkpoint is read back from its text as it is, unless its model nests too deep. -/
theorem ofText_text {checkpoint : Checkpoint} (writable : checkpoint.Writable)
    : ofText checkpoint.text
      = if checkpoint.model.nesting ≤ Json.depthLimit - 1 then .ok checkpoint
        else .error .unreadable := by
  rw [ofText, text, Raw.ofText?_text (exact_json writable), Option.bind_some,
    ofRaw?_ofJson writable]
  by_cases shallow : checkpoint.model.nesting ≤ Json.depthLimit - 1
  · simp only [if_pos shallow]
  · simp only [if_neg shallow]

end Checkpoint

end Statechart
