/-! Names that a chart gives a meaning of its own: the root around all states, the event of
entering a state, and the targets that go back to where a state was left.
-/

namespace Statechart

/-- The state around all others. No declared state has its name. -/
def rootName : String :=
  "nok"

/-- The event that a state receives when it is entered. No caller sends it. -/
def entryEvent : String :=
  "init"

/-- What the name of a history target begins with, before the state that it goes back to. -/
def historyMark : String :=
  "history."

/-- The state that a history target goes back to, if the name is that of one. -/
def historyOwner? (name : String) : Option String :=
  if historyMark.toList.isPrefixOf name.toList then
    some (String.ofList (name.toList.drop historyMark.length))
  else none

def isHistoryTarget (name : String) : Bool :=
  (historyOwner? name).isSome

/-- The history target of a state. -/
def historyOf (state : String) : String :=
  historyMark ++ state

/-- The history target of a state goes back to that state. -/
theorem historyOwner?_historyOf (state : String)
    : historyOwner? (historyOf state) = some state := by
  have hm : historyMark.toList.length = historyMark.length := by rfl
  simp only [historyOwner?, historyOf, String.toList_append]
  rw [if_pos (by simp), ← hm, List.drop_left, String.ofList_toList]

/-- Only the history targets of a state go back to it. -/
theorem eq_historyOf_of_historyOwner? {name state : String} (h : historyOwner? name = some state)
    : name = historyOf state := by
  unfold historyOwner? at h
  split at h
  · rename_i marked
    obtain ⟨owner, split⟩ := List.isPrefixOf_iff_prefix.mp marked
    obtain rfl := Option.some.inj h
    have hm : historyMark.toList.length = historyMark.length := by rfl
    apply String.toList_injective
    rw [← split, ← hm, List.drop_left, historyOf, String.toList_append, String.toList_ofList]
  · cases h

/-- The states that no declared state may be called. -/
def isReservedName (name : String) : Bool :=
  name == rootName || isHistoryTarget name || name == ""

end Statechart
