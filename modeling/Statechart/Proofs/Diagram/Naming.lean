import Statechart.Diagram.PlantUml
import Statechart.Proofs.Fallible

/-! The names that diagrams and documents show for functions. One that does not show is a problem of
the transition that uses the function, and whatever needs the names is refused for such problems
alone.
-/

namespace Statechart

/-- The problem with a function of an alternative whose name does not show. -/
inductive Alternative.Nameless (source : String) (alternative : Alternative) : Problem → Prop
  | predicate {predicate} (uses : predicate ∈ alternative.predicate)
    (blank : isBlankText predicate.name = true)
    : Nameless source alternative (.anonymousFunction source .predicate)
  | action {action} (uses : action ∈ alternative.action)
    (blank : isBlankText action.name = true)
    : Nameless source alternative (.anonymousFunction source .action)

/-- The problems with the names of a transition's functions. -/
def Transition.Nameless (transition : Transition) (problem : Problem) : Prop :=
  ∃ alternative ∈ transition.alternatives, alternative.Nameless transition.source problem

/-- The problems with the names of a chart's functions. -/
def Chart.Nameless (chart : Chart) (problem : Problem) : Prop :=
  ∃ transition ∈ chart.transitions, transition.Nameless problem

theorem Alternative.nameless_iff {source : String} {alternative : Alternative} {problem : Problem}
    : alternative.Nameless source problem
      ↔ (∃ predicate ∈ alternative.predicate,
            isBlankText predicate.name = true ∧ problem = .anonymousFunction source .predicate)
        ∨ ∃ action ∈ alternative.action,
            isBlankText action.name = true ∧ problem = .anonymousFunction source .action := by
  constructor
  · intro nameless
    cases nameless with
    | predicate uses blank => exact Or.inl ⟨_, uses, blank, rfl⟩
    | action uses blank => exact Or.inr ⟨_, uses, blank, rfl⟩
  · intro nameless
    rcases nameless with ⟨_, uses, blank, rfl⟩ | ⟨_, uses, blank, rfl⟩
    · exact .predicate uses blank
    · exact .action uses blank

namespace Diagram

theorem functionName_refuses (source : String) (kind : FunctionKind) (name : String)
    : Refuses (fun problem => isBlankText name = true ∧ problem = .anonymousFunction source kind)
        (functionName source kind name) := by
  rw [functionName]
  split
  · rename_i blank
    exact .error ⟨blank, rfl⟩
  · rename_i shows
    exact .ok fun _ nameless => shows nameless.1

/-- The name of a function that is optional is refused like that of one that is there. -/
theorem optionalName_refuses {α : Type} (source : String) (kind : FunctionKind) (name : α → String)
    (function : Option α)
    : Refuses
        (fun problem =>
          ∃ used ∈ function,
            isBlankText (name used) = true ∧ problem = .anonymousFunction source kind)
        (function.mapM (fun used => functionName source kind (name used))) :=
  .mapM_option (fun used => functionName_refuses source kind (name used)) function

theorem functionNames_refuses (source : String) (alternative : Alternative)
    : Refuses (alternative.Nameless source) (functionNames source alternative) := by
  have predicate := optionalName_refuses source .predicate Predicate.name alternative.predicate
  have action := optionalName_refuses source .action Action.name alternative.action
  exact (predicate.bind fun _ => action.bind_ok fun _ => ⟨_, rfl⟩).congr fun _ =>
    Alternative.nameless_iff.symm

theorem label_refuses (transition : Transition) (alternative : Alternative)
    : Refuses (alternative.Nameless transition.source) (label transition alternative) :=
  (functionNames_refuses transition.source alternative).bind_ok fun _ => ⟨_, rfl⟩

end Diagram

end Statechart
