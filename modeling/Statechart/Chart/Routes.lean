import Statechart.Chart.Basic

/-! The routes of a chart: where the transition for an event on a state stands among the
declared ones. The table is filled in one pass; of several transitions for the same state and
event the first declared one stays.
-/

namespace Statechart

/-- For each state with transitions, the positions of these by their events. -/
structure RouteTable where
  rows : List (String × List (String × Nat)) := []
deriving DecidableEq, Repr

namespace RouteTable

/-- The positions of the transitions of a state by their events. -/
def row (table : RouteTable) (state : String) : List (String × Nat) :=
  (table.rows.lookup state).getD []

/-- The position of the transition for an event on a state. -/
def position? (table : RouteTable) (state event : String) : Option Nat :=
  (table.row state).lookup event

/-- Enters the position of a transition, unless there is one for its state and event. -/
def enter (table : RouteTable) (state event : String) (position : Nat) : RouteTable :=
  if (table.position? state event).isSome then table
  else { rows := Json.put state ((event, position) :: table.row state) table.rows }

/-- Enters one transition after the other, each at its position; one whose source is not known
has no row.
-/
def enterAll (outline : Outline) (table : RouteTable) (transitions : List (Transition × Nat))
    : RouteTable :=
  transitions.foldl
    (fun table (transition, position) =>
      if outline.has transition.source then
        table.enter transition.source transition.trigger position
      else table)
    table

/-- The table of the transitions of a chart whose states have the given outline. -/
def ofTransitions (outline : Outline) (transitions : List Transition) : RouteTable :=
  enterAll outline {} transitions.zipIdx

-----------------------------------------------------------------------------------------
-- The table tells the first transition
-----------------------------------------------------------------------------------------

/-- A position that is entered is told for its state and event, if none was told before. -/
theorem position?_enter (table : RouteTable) (source trigger : String) (position : Nat)
    (state event : String)
    : (table.enter source trigger position).position? state event
      = (table.position? state event).or
          (if source = state ∧ trigger = event then some position else none) := by
  by_cases told : (table.position? source trigger).isSome = true
  · rw [enter, if_pos told]
    by_cases same : source = state ∧ trigger = event
    · obtain ⟨rfl, rfl⟩ := same
      rw [Option.or_of_isSome told]
    · rw [if_neg same, Option.or_none]
  · have untold : table.position? source trigger = none := by simpa using told
    rw [enter, if_neg told]
    by_cases same : source = state
    · subst same
      simp only [position?, row, Json.lookup_put, if_true, Option.getD_some] at untold ⊢
      rw [Json.lookup_cons_eq]
      by_cases answers : trigger = event
      · subst answers
        simp [untold]
      · simp [answers, Ne.symm answers]
    · simp [position?, row, Json.lookup_put, same, Ne.symm same]

/-- After entering transitions that stand at positions from some one on, the table tells what it
told before, or else the first of them for the state and event; by induction on the transitions.
-/
theorem position?_enterAll (outline : Outline) (table : RouteTable)
    (transitions : List Transition) (start : Nat) (state event : String)
    : (enterAll outline table (transitions.zipIdx start)).position? state event
      = (table.position? state event).or
          (if outline.has state then
            (transitions.findIdx? (fun t => t.source = state && t.trigger = event)).map
              (· + start)
          else none) := by
  induction transitions generalizing table start with
  | nil => simp [enterAll]
  | cons transition rest ih =>
      rw [List.zipIdx_cons, enterAll, List.foldl_cons, ← enterAll, ih, List.findIdx?_cons]
      have later
          : (fun position => position + (start + 1)) = fun position => position + 1 + start :=
        funext fun position => by omega
      by_cases here : transition.source = state ∧ transition.trigger = event
      · obtain ⟨rfl, rfl⟩ := here
        by_cases known : outline.has transition.source = true
        · simp [known, position?_enter]
        · simp [known]
      · have skipped
            : (transition.source = state && transition.trigger = event : Bool) = false := by
          simpa using here
        have kept
            : (if outline.has transition.source then
                  table.enter transition.source transition.trigger start
                else table).position? state event
              = table.position? state event := by
          split
          · rw [position?_enter, if_neg here, Option.or_none]
          · rfl
        simp only [kept, skipped, Bool.false_eq_true, if_false, Option.map_map,
          Function.comp_def, later]

/-- Where the table points, there is the first transition for the event on the state. -/
theorem ofTransitions_bind_getElem? (outline : Outline) (transitions : List Transition)
    (state event : String)
    : ((ofTransitions outline transitions).position? state event).bind (transitions[·]?)
      = if outline.has state then
          transitions.find? (fun t => t.source = state && t.trigger = event)
        else none := by
  rw [ofTransitions, position?_enterAll]
  split
  · simp [position?, row, List.find?_eq_bind_findIdx?_getElem?]
  · rfl

end RouteTable

end Statechart
