import Mathlib.Data.List.Find
import Statechart.Proofs.Chart.Validation
import Statechart.Proofs.Machine.Parallel
import Statechart.Proofs.Machine.Selection

/-! Which transition answers an event depends on the order of declaration, and transitions that come
after another one for the same state and event are never looked at. A chart without them is accepted
if the chart is, and its machine does the same on every request.
-/

namespace Statechart

-----------------------------------------------------------------------------------------
-- Leaving out what is shadowed
-----------------------------------------------------------------------------------------

section EraseDups

variable {α : Type} {same : α → α → Bool}

/-- What is left after erasing duplicates was there before; by induction on the length. -/
theorem mem_of_mem_eraseDupsBy {element : α} {list : List α}
    (member : element ∈ list.eraseDupsBy same)
    : element ∈ list := by
  induction size : list.length using Nat.strongRecOn generalizing list with
  | ind size ih =>
      cases list with
      | nil => exact member
      | cons first rest =>
          rw [List.eraseDupsBy_cons] at member
          rcases List.mem_cons.mp member with rfl | member
          · exact List.mem_cons_self
          · have shorter := List.length_filter_le (fun later => same later first = false) rest
            rw [List.length_cons] at size
            have found := ih _ (by omega) member rfl
            exact List.mem_cons_of_mem _ (List.mem_filter.mp found).1

/-- Erasing duplicates keeps the first element that passes a test which does not tell duplicates
apart; by induction on the length.
-/
theorem find?_eraseDupsBy {test : α → Bool}
    (alike : ∀ element other, same element other = true → test element = test other)
    (list : List α)
    : (list.eraseDupsBy same).find? test = list.find? test := by
  induction size : list.length using Nat.strongRecOn generalizing list with
  | ind size ih =>
      cases list with
      | nil => rfl
      | cons first rest =>
          rw [List.eraseDupsBy_cons, List.find?_cons, List.find?_cons]
          cases passes : test first with
          | true => rfl
          | false =>
              have shorter := List.length_filter_le (fun later => same later first = false) rest
              rw [List.length_cons] at size
              rw [ih _ (by omega) _ rfl, List.find?_filter]
              refine List.find?_congr fun other _ => ?_
              cases repeated : same other first with
              | true => simp [alike other first repeated, passes]
              | false => simp

end EraseDups

/-- Whether two transitions are declared on the same state for the same event. -/
def Transition.rivals (transition other : Transition) : Bool :=
  transition.source = other.source && transition.trigger = other.trigger

namespace Chart

/-- The chart without the transitions that come after another one for the same state and event. -/
def unshadowed (chart : Chart) : Chart :=
  { chart with transitions := chart.transitions.eraseDupsBy Transition.rivals }

/-- The first transition for an event on a state stays what it is. -/
theorem route?_unshadowed (chart : Chart) (state event : String)
    : chart.unshadowed.route? state event = chart.route? state event := by
  refine find?_eraseDupsBy (fun transition other same => ?_) chart.transitions
  simp only [Transition.rivals, Bool.and_eq_true, decide_eq_true_eq] at same
  rw [same.1, same.2]

theorem mem_of_mem_unshadowed {chart : Chart} {transition : Transition}
    (member : transition ∈ chart.unshadowed.transitions)
    : transition ∈ chart.transitions :=
  mem_of_mem_eraseDupsBy member

/-- Where a target leads is a matter of the tree. -/
theorem Leads.of_states {chart other : Chart} (same : other.states = chart.states)
    {target state : String} (leads : chart.Leads target state)
    : other.Leads target state := by
  cases leads with
  | state known => exact .state (by simpa only [Known, same] using known)
  | history compound => exact .history (by simpa only [Compound, Inside, same] using compound)

/-- A well-formed chart stays so: a state that is entered is so by the first of its transitions. -/
theorem WellFormed.unshadowed {chart : Chart} (wf : chart.WellFormed)
    : chart.unshadowed.WellFormed where
  populated := wf.populated
  sources transition member := wf.sources transition (mem_of_mem_unshadowed member)
  predicates transition member := wf.predicates transition (mem_of_mem_unshadowed member)
  actions transition member := wf.actions transition (mem_of_mem_unshadowed member)
  targets transition member alternative choice target aims := by
    obtain ⟨state, leads⟩ :=
      wf.targets transition (mem_of_mem_unshadowed member) alternative choice target aims
    exact ⟨state, leads.of_states (show chart.unshadowed.states = chart.states from rfl)⟩
  entries transition member enters alternative choice := by
    obtain ⟨target, aims, inside⟩ :=
      wf.entries transition (mem_of_mem_unshadowed member) ⟨enters.automatic, enters.compound⟩
        alternative choice
    refine ⟨target, aims, fun state leads => inside state ?_⟩
    exact leads.of_states (show chart.states = chart.unshadowed.states from rfl)
  entered state compound := by
    obtain ⟨transition, member, source, automatic⟩ := wf.entered state compound
    have declared : chart.Declares state entryEvent :=
      ⟨transition, member, source, eq_of_beq automatic⟩
    rw [← not_not (a := chart.Declares state entryEvent), ← route?_eq_none_iff,
      ← route?_unshadowed] at declared
    obtain ⟨first, route⟩ := Option.ne_none_iff_exists'.mp declared
    obtain ⟨kept, source, trigger⟩ := route?_spec route
    exact ⟨first, kept, source, by simp [Transition.isAutomatic, trigger]⟩

end Chart

namespace Machine

-----------------------------------------------------------------------------------------
-- The machine without shadowed transitions
-----------------------------------------------------------------------------------------

/-- An accepted chart is accepted without its shadowed transitions. -/
theorem validate_unshadowed (machine : Machine)
    : machine.chart.unshadowed.validate = .ok machine.outline := by
  obtain ⟨built, wf⟩ := Chart.validate_eq_ok_iff.mp machine.accepted
  exact Chart.validate_eq_ok_iff.mpr ⟨built, wf.unshadowed⟩

/-- The machine of the chart without its shadowed transitions. -/
def unshadowed (machine : Machine) : Machine where
  chart := machine.chart.unshadowed
  outline := machine.outline
  accepted := machine.validate_unshadowed
  initialModel := machine.initialModel
  settings := machine.settings
  capacity := machine.capacity

theorem agrees_unshadowed (machine : Machine) : machine.Agrees machine.unshadowed :=
  ⟨rfl, fun state event => machine.chart.route?_unshadowed state event, rfl⟩

/-- What is asked of a machine: a call, or a checkpoint of what it remembers. -/
inductive Request where
  | call (call : Call)
  | checkpoint (id : String) (time : Instant)

/-- What a request is answered with. -/
inductive Answer where
  | reply (reply : Reply)
  | taken (result : Except CheckpointError Checkpoint)

/-- Answers a request; taking a checkpoint changes nothing. -/
def serve (machine : Machine) (state : State) : Request → State × Answer
  | .call call =>
      let (state, reply) := machine.perform state call
      (state, .reply reply)
  | .checkpoint id time => (state, .taken (Machine.checkpoint state id time))

/-- Answers requests in order: the state after each of them, and the answer to it. -/
def serveAll (machine : Machine) (state : State) : List Request → List (State × Answer)
  | [] => []
  | request :: requests =>
      let (state, answer) := machine.serve state request
      (state, answer) :: machine.serveAll state requests

/-- Recording the same change at the same time keeps logs equal. -/
theorem recording_eq : Log.Recording Eq Eq := by
  rintro log _ ⟨source, target, event, time⟩ ⟨source', target', event', time'⟩ rfl change moment
  obtain ⟨rfl, rfl, rfl⟩ := change
  obtain rfl := moment
  rfl

/-- States whose logs are the same as well are one. -/
theorem State.Alike.eq {state other : State} (alike : State.Alike Eq state other)
    : state = other := by
  cases state
  cases other
  obtain ⟨rfl, rfl, rfl, rfl⟩ := alike
  rfl

/-- Without its shadowed transitions a machine does the same on every call. -/
theorem perform_unshadowed (machine : Machine) (state : State) (call : Call)
    : machine.unshadowed.perform state call = machine.perform state call := by
  have brings : BringsAlike Eq machine machine.unshadowed call :=
    ⟨fun _ _ => ⟨rfl, rfl⟩, fun _ _ => rfl⟩
  have together : Call.Alike Eq call call := by
    cases call with
    | start time => exact .start rfl
    | dispatch event payload time => exact .dispatch event payload rfl
    | resume checkpoint => exact .resume checkpoint
  have alike : State.Alike Eq state state := ⟨rfl, rfl, rfl, rfl⟩
  obtain ⟨next, reply⟩ :=
    perform_alike machine.agrees_unshadowed recording_eq brings alike together
  exact (Prod.ext next.eq reply).symm

/-- So it answers all requests alike, by induction on the requests. -/
theorem serveAll_unshadowed (machine : Machine) (state : State) (requests : List Request)
    : machine.unshadowed.serveAll state requests = machine.serveAll state requests := by
  have each (state : State) (request : Request)
      : machine.unshadowed.serve state request = machine.serve state request := by
    cases request with
    | call call => simp only [serve, perform_unshadowed]
    | checkpoint id time => rfl
  induction requests generalizing state with
  | nil => rfl
  | cons request requests ih => simp only [serveAll, each, ih]

/-- At a leaf an event is answered by the first transition declared for it on the nearest state that
declares any, and by no other: if no alternative of it holds, nothing changes, as when no state
declares the event. So transitions that come after another one for the same state and event can be
left out: the chart is still accepted, and every request is answered as before and leads to the
same state.
-/
theorem shadowed_inert (machine : Machine)
    : (∀ state leaf event payload time,
          state.active = some leaf
          → event ≠ entryEvent
          → (∀ outer ∈ machine.outline.ancestors leaf, ¬ machine.chart.Declares outer event)
              ∧ machine.dispatch state event payload time = .ok (unchanged state leaf)
            ∨ ∃ outer transition,
                machine.Handles leaf event outer transition
                ∧ ((∀ alternative ∈ transition.alternatives,
                        alternative.holds state.model payload machine.settings = false)
                    ∧ machine.dispatch state event payload time = .ok (unchanged state leaf)
                  ∨ ∃ alternative,
                      transition.Offers state.model payload machine.settings alternative
                      ∧ machine.dispatch state event payload time
                        = (do
                            let (run, next) ←
                              machine.take ⟨payload, time⟩ state.run leaf event alternative
                            let (run, next) ← machine.settle ⟨payload, time⟩ run [] next
                            return commit run next)))
      ∧ machine.chart.unshadowed.validate = .ok machine.outline
      ∧ machine.unshadowed.fresh = machine.fresh
      ∧ ∀ state requests,
          machine.unshadowed.serveAll state requests = machine.serveAll state requests := by
  refine ⟨?_, machine.validate_unshadowed, rfl, machine.serveAll_unshadowed⟩
  intro state leaf event payload time active sent
  cases answered : machine.answer? state leaf event payload with
  | none =>
      have same : machine.dispatch state event payload time = .ok (unchanged state leaf) :=
        dispatch_unanswered sent active answered
      rcases answer?_eq_none_iff.mp answered with undeclared | ⟨outer, transition, handles, fails⟩
      · exact Or.inl ⟨undeclared, same⟩
      · exact Or.inr ⟨outer, transition, handles, Or.inl ⟨fails, same⟩⟩
  | some alternative =>
      obtain ⟨outer, transition, handles, offers⟩ := answer?_eq_some_iff.mp answered
      exact Or.inr ⟨outer, transition, handles,
        Or.inr ⟨alternative, offers, dispatch_answered sent active answered⟩⟩

/-- A door that also cannot be shut while it is wide open, and two of whose transitions come after
others for the same state and event.
-/
def heavyDoor : Machine where
  chart :=
    { doorChart with
      transitions :=
        doorChart.transitions
          ++ [⟨"wide", some "close", .guarded [⟨⟨"calm", fun _ _ _ => false⟩, none, none⟩]⟩,
              ⟨"wide", some "push", .always (some "shut") none⟩,
              ⟨"open", some entryEvent, .always (some "ajar") none⟩] }
  outline := door.outline
  accepted := rfl
  initialModel := .null
  settings := .null

/-- Wide open it stays, although the state around it could shut it, and it does so as well without
the two.
-/
theorem heavyDoor_stays
    : (heavyDoor.after [.start noon]).active = some "wide"
      ∧ heavyDoor.dispatch (heavyDoor.after [.start noon]) "close" .null noon
        = .ok (unchanged (heavyDoor.after [.start noon]) "wide")
      ∧ heavyDoor.chart.transitions.length = heavyDoor.unshadowed.chart.transitions.length + 2
      ∧ heavyDoor.unshadowed.serveAll heavyDoor.unshadowed.fresh
          [.call (.start noon), .call (.dispatch "close" .null noon), .checkpoint "door" noon]
        = heavyDoor.serveAll heavyDoor.fresh
          [.call (.start noon), .call (.dispatch "close" .null noon), .checkpoint "door" noon] := by
  have active : (heavyDoor.after [.start noon]).active = some "wide" := by decide +kernel
  have handled
      : heavyDoor.handler? "wide" "close"
        = some ⟨"wide", some "close",
            .guarded [⟨⟨"calm", fun _ _ _ => false⟩, none, none⟩]⟩ :=
    rfl
  obtain ⟨considered, _, fresh, same⟩ := shadowed_inert heavyDoor
  refine ⟨active, ?_, by decide, ?_⟩
  · rcases considered _ "wide" "close" .null noon active (by decide) with
      ⟨_, stays⟩ | ⟨outer, transition, handles, ⟨_, stays⟩ | ⟨alternative, offers, _⟩⟩
    · exact stays
    · exact stays
    · obtain rfl :=
        Option.some.inj ((handler?_eq_some_iff.mpr ⟨outer, handles⟩).symm.trans handled)
      cases Transition.select?_eq_some_iff.mpr offers
  · rw [fresh]
    exact same _ _

end Machine

end Statechart
