import Statechart.Proofs.Json.Exactness
import Statechart.State.Forest

/-! A forest is read back from the document that writes it, if the states of each level have
different names and every compound state has something inside it.
-/

namespace Statechart

namespace Forest

/-- The names of the states of the top level. -/
def siblings (forest : Forest) : List String :=
  forest.top.map (·.1)

/-- On every level, the states have different names. -/
def Distinct : Forest → Prop
  | .nil => True
  | .leaf name rest => name ∉ rest.siblings ∧ rest.Distinct
  | .compound name inside rest =>
      name ∉ rest.siblings ∧ inside.Distinct ∧ rest.Distinct

/-- Every compound state has something inside it. -/
def Filled : Forest → Prop
  | .nil => True
  | .leaf _ rest => rest.Filled
  | .compound _ inside rest => inside ≠ .nil ∧ inside.Filled ∧ rest.Filled

instance decidableDistinct : (forest : Forest) → Decidable forest.Distinct
  | .nil => .isTrue trivial
  | .leaf name rest =>
      have := decidableDistinct rest
      inferInstanceAs (Decidable (name ∉ rest.siblings ∧ rest.Distinct))
  | .compound name inside rest =>
      have := decidableDistinct inside
      have := decidableDistinct rest
      inferInstanceAs
        (Decidable (name ∉ rest.siblings ∧ inside.Distinct ∧ rest.Distinct))

instance decidableFilled : (forest : Forest) → Decidable forest.Filled
  | .nil => .isTrue trivial
  | .leaf _ rest => decidableFilled rest
  | .compound _ inside rest =>
      have := decidableFilled inside
      have := decidableFilled rest
      inferInstanceAs (Decidable (inside ≠ .nil ∧ inside.Filled ∧ rest.Filled))

variable {forest : Forest}

theorem map_fst_members (forest : Forest) : forest.members.map (·.1) = forest.siblings := by
  induction forest with
  | nil => rfl
  | leaf name rest ih => exact congrArg (name :: ·) ih
  | compound name inside rest _ ih => exact congrArg (name :: ·) ih

theorem Distinct.nodup (distinct : forest.Distinct) : forest.siblings.Nodup := by
  induction forest with
  | nil => exact List.nodup_nil
  | leaf name rest ih => exact List.nodup_cons.mpr ⟨distinct.1, ih distinct.2⟩
  | compound name inside rest _ ih => exact List.nodup_cons.mpr ⟨distinct.1, ih distinct.2.2⟩

/-- States with different names are all written. -/
theorem Distinct.collect_members (distinct : forest.Distinct)
    : Json.collect forest.members = forest.members := by
  refine Json.collect_distinct ?_
  rw [map_fst_members]
  exact distinct.nodup

/-- The states are read back from the members that write them; by induction on the forest. -/
theorem ofMembers_members (distinct : forest.Distinct) (filled : forest.Filled)
    : ofMembers forest.members = .ok forest := by
  induction forest with
  | nil => rfl
  | leaf name rest ih =>
      simp only [members, ofMembers, inside, ih distinct.2 filled, bind, Except.bind, pure,
        Except.pure, if_true, state]
  | compound name within rest ihInside ihRest =>
      obtain ⟨_, distinctInside, distinctRest⟩ := distinct
      obtain ⟨some, filledInside, filledRest⟩ := filled
      simp only [members, ofMembers, inside, distinctInside.collect_members,
        ihInside distinctInside filledInside, ihRest distinctRest filledRest, bind, Except.bind,
        pure, Except.pure]
      cases within with
      | nil => exact absurd rfl some
      | leaf => rfl
      | compound => rfl

/-- A forest is read back from its document. -/
theorem ofJson_json (distinct : forest.Distinct) (filled : forest.Filled)
    : ofJson forest.json = .ok forest := by
  rw [ofJson, json, distinct.collect_members, inside]
  exact ofMembers_members distinct filled

end Forest

end Statechart
