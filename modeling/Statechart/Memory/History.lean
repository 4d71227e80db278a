import Statechart.Json.Record

/-! The history of a machine: for each compound state that was left, the leaf that was
active then. Entries are in order of the compound states' names, so that equal histories are
written alike.
-/

namespace Statechart

theorem History.nil_ascending : ([] : List (String × String)).Pairwise (fun a b => a.1 < b.1) :=
  .nil

/-- The entry of each compound state, in ascending order of names. -/
structure History where
  entries : List (String × String) := []
  ascending : entries.Pairwise (fun a b => a.1 < b.1) := by exact History.nil_ascending
deriving DecidableEq

namespace History

/-- Puts an entry in its place among others, or in the place of the one with its name. -/
def place (state leaf : String) : List (String × String) → List (String × String)
  | [] => [(state, leaf)]
  | (name, old) :: rest =>
      if state = name then (state, leaf) :: rest
      else if state < name then (state, leaf) :: (name, old) :: rest
      else (name, old) :: place state leaf rest

theorem mem_place {state leaf : String} {entries : List (String × String)}
    {entry : String × String} (h : entry ∈ place state leaf entries)
    : entry = (state, leaf) ∨ entry ∈ entries := by
  fun_induction place state leaf entries <;> grind

/-- An entry put in its place keeps the order. -/
theorem place_ascending (state leaf : String) (entries : List (String × String))
    (h : entries.Pairwise (fun a b => a.1 < b.1))
    : (place state leaf entries).Pairwise (fun a b => a.1 < b.1) := by
  fun_induction place state leaf entries with
  | case1 => simp
  | case2 old rest => simpa using h
  | case3 name old rest _ hlt =>
      refine List.pairwise_cons.mpr ⟨fun entry he => ?_, h⟩
      rcases List.mem_cons.mp he with rfl | he
      · exact hlt
      · exact String.lt_trans hlt ((List.pairwise_cons.mp h).1 entry he)
  | case4 name old rest hne hnlt ih =>
      obtain ⟨hbelow, hrest⟩ := List.pairwise_cons.mp h
      refine List.pairwise_cons.mpr ⟨fun entry he => ?_, ih hrest⟩
      rcases mem_place he with rfl | he
      · exact Classical.not_not.mp fun hn =>
          hne (String.le_antisymm (String.not_lt.mp hn) (String.not_lt.mp hnlt))
      · exact hbelow entry he

/-- Remembers the leaf that was active when a compound state was left. -/
def record (history : History) (state leaf : String) : History :=
  ⟨place state leaf history.entries,
    place_ascending state leaf history.entries history.ascending⟩

/-- The leaf remembered for a compound state. -/
def get? (history : History) (state : String) : Option String :=
  history.entries.lookup state

def size (history : History) : Nat :=
  history.entries.length

def isEmpty (history : History) : Bool :=
  history.entries.isEmpty

/-- The object that writes a history. -/
def json (history : History) : Json :=
  .object (history.entries.map (fun (state, leaf) => (state, .string leaf)))

/-- Reads a history from an object; of equal names the last gives the leaf. -/
def ofRaw? : Json.Raw → Option History
  | .object members =>
      members.foldlM
        (fun history (state, leaf) => do
          let state ← state
          let leaf ← leaf.string?
          return history.record state leaf)
        {}
  | _ => none

end History

end Statechart
