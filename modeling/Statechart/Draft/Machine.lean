import Statechart.Machine.Basic

/-! Drafts of machines. Only the chart must be given: the model is an empty object, the
settings are null and the log is unbounded unless told otherwise.
-/

namespace Statechart

/-- Why a draft cannot be finished as a machine. -/
inductive MachineFault where
  | missingChart
  | chart (problems : Problems)

namespace MachineFault

def message : MachineFault → String
  | .missingChart =>
      "Chart definition not specified. Call .definition(chart) before .build()"
  | .chart problems => problems.message

end MachineFault

/-- A machine that is still being described. -/
structure MachineDraft where
  chart : Option Chart := none
  initialModel : Json := .object []
  settings : Json := .null
  capacity : Option Nat := none

namespace MachineDraft

/-- The machine that a draft describes. -/
def finish (draft : MachineDraft) : Except MachineFault Machine :=
  match draft.chart with
  | none => .error .missingChart
  | some chart =>
      match Machine.ofChart chart draft.initialModel draft.settings draft.capacity with
      | .ok machine => .ok machine
      | .error problems => .error (.chart problems)

end MachineDraft

end Statechart
