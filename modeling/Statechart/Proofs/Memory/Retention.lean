import Mathlib.Data.List.DropRight
import Mathlib.Data.List.Forall2
import Statechart.Memory.Log

/-! What a log keeps. After each change a log holds the latest records of all that were made, as
many as its capacity allows, and nothing tells how often the oldest were dropped in between.
-/

namespace Statechart

namespace Log

/-- The latest of some entries, as many as a capacity allows. -/
def latest {α : Type} (capacity : Option Nat) (entries : List α) : List α :=
  match capacity with
  | none => entries
  | some most => entries.rtake most

section Latest

variable {α β : Type}

theorem latest_suffix (capacity : Option Nat) (entries : List α)
    : latest capacity entries <:+ entries := by
  cases capacity with
  | none => exact List.suffix_rfl
  | some most => exact List.drop_suffix _ entries

theorem length_latest (most : Nat) (entries : List α)
    : (latest (some most) entries).length = min most entries.length := by
  simp only [latest, List.rtake, List.length_drop]
  omega

theorem map_latest (change : α → β) (capacity : Option Nat) (entries : List α)
    : (latest capacity entries).map change = latest capacity (entries.map change) := by
  cases capacity with
  | none => rfl
  | some most => simp [latest, List.rtake]

/-- Dropping the oldest entries before one is added makes no difference to what is kept after it. -/
theorem latest_append_latest (capacity : Option Nat) (entries : List α) (entry : α)
    : latest capacity (latest capacity entries ++ [entry])
      = latest capacity (entries ++ [entry]) := by
  cases capacity with
  | none => rfl
  | some most =>
      cases most with
      | zero => simp [latest]
      | succ most =>
          have twice : (entries.rtake (most + 1)).rtake most = entries.rtake most := by
            simp [List.rtake_eq_reverse_take_reverse, List.take_take]
          simp only [latest, List.rtake_concat_succ, twice]

/-- Entries that are related one by one still are so where the oldest are dropped. -/
theorem forall₂_latest {related : α → β → Prop} {entries : List α} {others : List β}
    (same : List.Forall₂ related entries others) (capacity : Option Nat)
    : List.Forall₂ related (latest capacity entries) (latest capacity others) := by
  cases capacity with
  | none => exact same
  | some most =>
      simp only [latest, List.rtake, same.length_eq]
      exact List.forall₂_drop _ same

end Latest

@[simp]
theorem capacity_record (log : Log) (record : LogRecord)
    : (log.record record).capacity = log.capacity := by
  unfold Log.record
  split <;> rfl

/-- Adding a record keeps the latest of all that there are then. -/
theorem records_record (log : Log) (record : LogRecord)
    : (log.record record).records = latest log.capacity (log.records ++ [record]) := by
  unfold Log.record latest
  cases log.capacity <;> rfl

end Log

end Statechart
