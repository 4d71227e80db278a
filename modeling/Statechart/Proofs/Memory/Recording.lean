import Statechart.Memory.History

/-! What a history tells after a leaf is recorded: the leaf for the state recorded, and for
every other state what it told before.
-/

namespace Statechart

namespace History

/-- Looking up after putting an entry in its place finds the new leaf for its state and for
others what was there; by the recursion of the placement.
-/
theorem lookup_place (state leaf outer : String) (entries : List (String × String))
    : (place state leaf entries).lookup outer
      = if outer = state then some leaf else entries.lookup outer := by
  fun_induction place state leaf entries with
  | case1 => exact Json.lookup_cons_eq state leaf [] outer
  | case2 old rest =>
      rw [Json.lookup_cons_eq, Json.lookup_cons_eq]
      split <;> rfl
  | case3 name old rest => rw [Json.lookup_cons_eq]
  | case4 name old rest differs _ ih =>
      rw [Json.lookup_cons_eq, Json.lookup_cons_eq, ih]
      by_cases same : outer = state
      · simp [same, differs]
      · simp [same]

@[simp]
theorem get?_record (history : History) (state leaf outer : String)
    : (history.record state leaf).get? outer
      = if outer = state then some leaf else history.get? outer :=
  lookup_place state leaf outer history.entries

@[simp]
theorem get?_empty (state : String) : ({} : History).get? state = none :=
  rfl

/-- An entry is what its state is looked up as: names in ascending order are all different. -/
theorem lookup_of_mem {entries : List (String × String)} {entry : String × String}
    (ascending : entries.Pairwise (fun a b => a.1 < b.1)) (member : entry ∈ entries)
    : entries.lookup entry.1 = some entry.2 := by
  induction entries with
  | nil => simp at member
  | cons first rest ih =>
      obtain ⟨state, leaf⟩ := first
      obtain ⟨below, ascending⟩ := List.pairwise_cons.mp ascending
      rw [Json.lookup_cons_eq]
      rcases List.mem_cons.mp member with rfl | member
      · exact if_pos rfl
      · have apart : entry.1 ≠ state := by
          intro same
          exact String.lt_irrefl _ (same ▸ below entry member)
        rw [if_neg apart]
        exact ih ascending member

theorem get?_of_mem {history : History} {entry : String × String}
    (member : entry ∈ history.entries)
    : history.get? entry.1 = some entry.2 :=
  lookup_of_mem history.ascending member

theorem mem_of_get? {history : History} {state leaf : String}
    (found : history.get? state = some leaf)
    : (state, leaf) ∈ history.entries := by
  obtain ⟨_, _, split, _⟩ := List.lookup_eq_some_iff.mp found
  simp [split]

/-- The keys of a history are the states that it tells a leaf for. -/
theorem mem_keys_iff {history : History} {state : String}
    : state ∈ history.entries.map (·.1) ↔ (history.get? state).isSome = true := by
  rw [get?, List.lookup_isSome_iff, List.mem_map]
  constructor
  · rintro ⟨entry, member, rfl⟩
    exact ⟨entry, member, beq_self_eq_true _⟩
  · rintro ⟨entry, member, same⟩
    exact ⟨entry, member, (eq_of_beq same).symm⟩

/-- What holds of every pair of a state and the leaf remembered for it. -/
def All (holds : String → String → Prop) (history : History) : Prop :=
  ∀ state leaf, history.get? state = some leaf → holds state leaf

theorem All.mono {holds others : String → String → Prop} {history : History}
    (told : history.All holds) (implies : ∀ state leaf, holds state leaf → others state leaf)
    : history.All others :=
  fun state leaf found => implies state leaf (told state leaf found)

theorem all_empty (holds : String → String → Prop) : All holds {} := by
  intro state leaf found
  simp at found

/-- Recording the same leaf for several states tells it for those and nothing new for the
others; by induction on the states.
-/
theorem get?_foldl_record (history : History) (leaf outer : String) (states : List String)
    : (states.foldl (fun history state => history.record state leaf) history).get? outer
      = if outer ∈ states then some leaf else history.get? outer := by
  induction states generalizing history with
  | nil => simp
  | cons state rest ih =>
      rw [List.foldl_cons, ih, get?_record]
      by_cases later : outer ∈ rest
      · simp [later]
      · simp [later]

end History

end Statechart
