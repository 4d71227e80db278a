import Statechart.Machine.Call

/-! Sessions: calls of one machine, made one after the other. Each call gives a reply and the
state that the next one starts from; a call that fails leaves that state as it was.
-/

namespace Statechart

namespace Machine

/-- A call that can change what a machine remembers. -/
inductive Call where
  | start (time : Instant)
  | dispatch (event : String) (payload : Json) (time : Instant)
  | resume (checkpoint : Checkpoint)

/-- What a call answers. -/
inductive Reply where
  | done (outcome : Outcome)
  | failed (failure : Failure)
  | resumed
  | refused (error : CheckpointError)

/-- The reply to a run that started from a state, and the state after it. -/
def conclude (state : State) : Except Failure (State × Outcome) → State × Reply
  | .ok (next, outcome) => (next, .done outcome)
  | .error failure => (state, .failed failure)

/-- Makes a call. -/
def perform (machine : Machine) (state : State) : Call → State × Reply
  | .start time => conclude state (machine.start time)
  | .dispatch event payload time => conclude state (machine.dispatch state event payload time)
  | .resume checkpoint =>
      match machine.resume checkpoint with
      | .ok next => (next, .resumed)
      | .error error => (state, .refused error)

/-- Makes calls in order: the state after the last of them, and the reply to each. -/
def performAll (machine : Machine) (state : State) : List Call → State × List Reply
  | [] => (state, [])
  | call :: calls =>
      let (state, reply) := machine.perform state call
      let (state, replies) := machine.performAll state calls
      (state, reply :: replies)

end Machine

end Statechart
