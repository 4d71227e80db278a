import Statechart.Chart.Basic

/-! Charts as PlantUML state diagrams. A diagram is a block for each state, nested as the
states are, and lines for the alternatives of transitions. The transitions that enter a
compound state stand inside its block and start from `[*]`; all others follow the blocks.
-/

namespace Statechart

namespace Diagram

/-- Where an arrow starts: at the mark of an entry or at a state. -/
inductive Origin where
  | entryMark
  | state (name : String)
deriving DecidableEq, Repr

/-- What a line says about an alternative. -/
inductive Line where
  | arrow (origin : Origin) (target : String) (label : String)
  /-- An alternative without a target is a description of its state. -/
  | description (state : String) (label : String)
deriving DecidableEq, Repr

/-- Blocks side by side, each with the blocks after it. -/
inductive Blocks where
  | nil
  | leaf (name : String) (rest : Blocks)
  /-- A block around others and around the lines that enter it. -/
  | compound (name : String) (inside : Blocks) (entries : List Line) (rest : Blocks)
deriving DecidableEq, Repr

-----------------------------------------------------------------------------------------
-- Lines and blocks of a chart
-----------------------------------------------------------------------------------------

/-- The name to show for a function, which must not be blank. -/
def functionName (source : String) (kind : FunctionKind) (name : String)
    : Except Problem String :=
  if isBlankText name then .error (.anonymousFunction source kind) else .ok name

/-- The names to show for the functions of an alternative. -/
def functionNames (source : String) (alternative : Alternative)
    : Except Problem (Option String × Option String) := do
  let predicate ← alternative.predicate.mapM (fun p => functionName source .predicate p.name)
  let action ← alternative.action.mapM (fun a => functionName source .action a.name)
  return (predicate, action)

/-- The event, the predicate in brackets and the action after a slash, as far as they are
there.
-/
def labelText (event : String) : Option String × Option String → String
  | (some predicate, some action) => event ++ " [" ++ predicate ++ "] / " ++ action
  | (some predicate, none) => event ++ " [" ++ predicate ++ "]"
  | (none, some action) => event ++ " / " ++ action
  | (none, none) => event

/-- The label of an alternative. The event of entering a state is not shown. -/
def label (transition : Transition) (alternative : Alternative) : Except Problem String := do
  let names ← functionNames transition.source alternative
  return labelText (if transition.isAutomatic then "" else transition.trigger) names

/-- The name of the history mark that is drawn for a target of a state. -/
def drawnTarget (source target : String) : String :=
  match historyOwner? target with
  | some owner => source ++ "." ++ owner ++ ".H"
  | none => target

/-- The line of an alternative, drawn from its state or from the mark of an entry. -/
def Line.ofAlternative (origin : Origin) (transition : Transition) (alternative : Alternative)
    : Except Problem Line := do
  let label ← label transition alternative
  match alternative.target with
  | none =>
      return .description transition.source (String.ofList (trimStart label.toList))
  | some target => return .arrow origin (drawnTarget transition.source target) label

/-- One line for each alternative of a transition. -/
def Line.ofTransition (origin : Origin) (transition : Transition) : Except Problem (List Line) :=
  transition.alternatives.mapM (ofAlternative origin transition)

/-- The lines that enter a state, in order of declaration. -/
def entryLines (chart : Chart) (state : String) : Except Problem (List Line) := do
  let transitions := (chart.transitionsFrom state).filter (·.isAutomatic)
  return (← transitions.mapM (Line.ofTransition .entryMark)).flatten

/-- The blocks of states. -/
def Blocks.ofForest (chart : Chart) : Forest → Except Problem Blocks
  | .nil => .ok .nil
  | .leaf name rest => do
      let rest ← ofForest chart rest
      return .leaf name rest
  | .compound name inside rest => do
      let inside ← ofForest chart inside
      let entries ← entryLines chart name
      let rest ← ofForest chart rest
      return .compound name inside entries rest

/-- Whether a transition is drawn inside the block of its state. -/
def isNested (outline : Outline) (transition : Transition) : Bool :=
  !transition.isFromRoot && Chart.isEntry outline transition

/-- Where the arrows of a transition outside the blocks start. -/
def outerOrigin (transition : Transition) : Origin :=
  if transition.isAutomatic && transition.isFromRoot then .entryMark
  else .state transition.source

/-- The lines after the blocks, in order of declaration. -/
def outerLines (chart : Chart) (outline : Outline) : Except Problem (List Line) := do
  let transitions := chart.transitions.filter (fun transition => !isNested outline transition)
  let drawn ← transitions.mapM (fun t => Line.ofTransition (outerOrigin t) t)
  return drawn.flatten

-----------------------------------------------------------------------------------------
-- The text of lines and blocks
-----------------------------------------------------------------------------------------

def indent (depth : Nat) : String :=
  String.ofList (List.replicate (2 * depth) ' ')

def Origin.text : Origin → String
  | .entryMark => "[*]"
  | .state name => name

def Line.text : Line → String
  | .arrow origin target label =>
      origin.text ++ " --> " ++ target ++ if label = "" then "" else " : " ++ label
  | .description state label => state ++ " : " ++ label

/-- The name under which a state is shown. -/
def displayName (name : String) : String :=
  String.ofList (name.toList.map (fun c => if c = '_' then ' ' else c))

def header (depth : Nat) (name : String) : String :=
  indent depth ++ "state \"" ++ displayName name ++ "\" as " ++ name

/-- The text of each block, indented by its depth. -/
def Blocks.texts (depth : Nat) : Blocks → List String
  | .nil => []
  | .leaf name rest =>
      (header depth name ++ " <<NoContent>> \x7b\n" ++ indent depth ++ "\x7d")
        :: rest.texts depth
  | .compound name inside entries rest =>
      let content :=
        inside.texts (depth + 1) ++ entries.map (fun line => indent (depth + 1) ++ line.text)
      (header depth name ++ " \x7b\n" ++ String.intercalate "\n" content ++ "\n" ++ indent depth
        ++ "\x7d")
        :: rest.texts depth

end Diagram

/-- A chart drawn as blocks and the lines after them. -/
structure Diagram where
  blocks : Diagram.Blocks
  lines : List Diagram.Line
deriving DecidableEq, Repr

namespace Diagram

/-- Draws a chart whose states have an outline and whose functions have names. -/
def ofChart (chart : Chart) : Except Problems Diagram :=
  match Outline.ofForest chart.states with
  | .error problems => .error problems
  | .ok outline =>
      let drawn : Except Problem Diagram := do
        let blocks ← Blocks.ofForest chart chart.states
        let lines ← outerLines chart outline
        return { blocks, lines }
      drawn.mapError (fun problem => { first := problem })

/-- The text of a diagram: the blocks and, after an empty line, the lines. -/
def text (diagram : Diagram) : String :=
  let blocks := String.intercalate "\n" (diagram.blocks.texts 0)
  if diagram.lines.isEmpty then blocks
  else blocks ++ "\n\n" ++ String.intercalate "\n" (diagram.lines.map Line.text)

end Diagram

end Statechart
