import Statechart.Proofs.State.Containment

/-! What the outline of a forest tells is what the forest itself shows: which names there are, which
states lie inside others, and which are compound.
-/

namespace Statechart

namespace Forest

/-- A state that lies inside another, at any depth. -/
inductive Nests (outer inner : String) : Forest → Prop
  | here {inside rest} (member : inner ∈ inside.names)
    : Nests outer inner (.compound outer inside rest)
  | deeper {name inside rest} (nested : Nests outer inner inside)
    : Nests outer inner (.compound name inside rest)
  | afterLeaf {name rest} (nested : Nests outer inner rest) : Nests outer inner (.leaf name rest)
  | afterCompound {name inside rest} (nested : Nests outer inner rest)
    : Nests outer inner (.compound name inside rest)

/-- What stands around a level stands around each of its entries; by induction on the forest. -/
theorem mem_enclosing_of_mem {forest : Forest} {around : List String} {entry : Outline.Entry}
    (member : entry ∈ forest.entries around) {outer : String} (outside : outer ∈ around)
    : outer ∈ entry.enclosing := by
  induction forest generalizing around with
  | nil => cases member
  | leaf name rest ih =>
      rcases List.mem_cons.mp member with rfl | member
      · exact outside
      · exact ih member outside
  | compound name inside rest ihInside ihRest =>
      simp only [entries, List.cons_append, List.mem_cons, List.mem_append] at member
      rcases member with rfl | member | member
      · exact outside
      · exact ihInside member (List.mem_cons_of_mem _ outside)
      · exact ihRest member outside

/-- A state around an entry stands around the whole level or has the entry's state inside it; by
induction on the forest.
-/
theorem nests_of_mem_enclosing {forest : Forest} {around : List String} {entry : Outline.Entry}
    (member : entry ∈ forest.entries around) {outer : String} (inside : outer ∈ entry.enclosing)
    : outer ∈ around ∨ forest.Nests outer entry.name := by
  induction forest generalizing around with
  | nil => cases member
  | leaf name rest ih =>
      rcases List.mem_cons.mp member with rfl | member
      · exact Or.inl inside
      · exact (ih member).imp_right .afterLeaf
  | compound name within rest ihInside ihRest =>
      simp only [entries, List.cons_append, List.mem_cons, List.mem_append] at member
      rcases member with rfl | member | member
      · exact Or.inl inside
      · rcases ihInside member with found | nested
        · rcases List.mem_cons.mp found with rfl | outside
          · refine Or.inr (.here ?_)
            exact map_name_entries within _ ▸ List.mem_map_of_mem member
          · exact Or.inl outside
        · exact Or.inr (.deeper nested)
      · exact (ihRest member).imp_right .afterCompound

/-- A state inside another has an entry with the other around it; by induction on the nesting. -/
theorem Nests.exists_entry {forest : Forest} {outer inner : String}
    (nested : forest.Nests outer inner) (around : List String)
    : ∃ entry ∈ forest.entries around, entry.name = inner ∧ outer ∈ entry.enclosing := by
  induction nested generalizing around with
  | here member =>
      rw [← map_name_entries _ (outer :: around)] at member
      obtain ⟨entry, found, rfl⟩ := List.mem_map.mp member
      exact ⟨entry, by simp [entries, found], rfl, mem_enclosing_of_mem found List.mem_cons_self⟩
  | @deeper name _ _ _ ih =>
      obtain ⟨entry, found, named, inside⟩ := ih (name :: around)
      exact ⟨entry, by simp [entries, found], named, inside⟩
  | afterLeaf _ ih | afterCompound _ ih =>
      obtain ⟨entry, found, named, inside⟩ := ih around
      exact ⟨entry, by simp [entries, found], named, inside⟩

end Forest

namespace Outline

section OfForest

variable {forest : Forest} {outline : Outline}

/-- No state of a forest with an outline has a reserved name. -/
theorem not_isReservedName_of_ofForest (built : ofForest forest = .ok outline) {name : String}
    (member : name ∈ forest.names)
    : isReservedName name = false :=
  ((Forest.declare_free (ofForest_eq_ok built).1).2.1 name member).1

theorem names_of_ofForest (built : ofForest forest = .ok outline)
    : outline.names = rootName :: forest.names := by
  obtain ⟨_, rfl⟩ := ofForest_eq_ok built
  simp only [names, List.map_cons, Forest.map_name_entries]

/-- The names that are known are those of the root and of the states of the forest. -/
theorem has_iff_of_ofForest (built : ofForest forest = .ok outline) {name : String}
    : outline.has name = true ↔ name = rootName ∨ name ∈ forest.names := by
  have wf := wellFormed_of_ofForest built
  rw [← List.mem_cons, ← names_of_ofForest built]
  constructor
  · exact fun known => List.mem_map.mpr ⟨_, wf.entry_of_has known, rfl⟩
  · intro member
    obtain ⟨entry, found, rfl⟩ := List.mem_map.mp member
    exact wf.has_of_entry found

/-- The root contains every state of the forest, and other states those inside them. -/
theorem contains_iff_of_ofForest (built : ofForest forest = .ok outline) {outer inner : String}
    : outline.contains outer inner = true
      ↔ outer = rootName ∧ inner ∈ forest.names ∨ forest.Nests outer inner := by
  have wf := wellFormed_of_ofForest built
  obtain ⟨_, rfl⟩ := ofForest_eq_ok built
  constructor
  · intro inside
    have known := wf.entry_of_has (wf.has_of_contains inside)
    rw [wf.contains_iff] at inside
    rcases List.mem_cons.mp known with isRoot | member
    · rw [(Entry.mk.inj isRoot).2] at inside
      cases inside
    · rcases Forest.nests_of_mem_enclosing member inside with around | nested
      · refine Or.inl ⟨List.mem_singleton.mp around, ?_⟩
        exact Forest.map_name_entries forest [rootName] ▸ List.mem_map_of_mem member
      · exact Or.inr nested
  · have around {entry : Entry} (member : entry ∈ forest.entries [rootName])
        (inside : outer ∈ entry.enclosing)
        : contains ⟨⟨rootName, []⟩ :: forest.entries [rootName]⟩ outer entry.name = true := by
      rw [wf.contains_iff, wf.enclosing_eq (List.mem_cons_of_mem _ member)]
      exact inside
    rintro (⟨rfl, member⟩ | nested)
    · rw [← Forest.map_name_entries forest [rootName]] at member
      obtain ⟨entry, found, rfl⟩ := List.mem_map.mp member
      exact around found (Forest.mem_enclosing_of_mem found List.mem_cons_self)
    · obtain ⟨entry, found, rfl, inside⟩ := nested.exists_entry [rootName]
      exact around found inside

theorem isEmpty_iff_of_ofForest (built : ofForest forest = .ok outline)
    : outline.isEmpty = true ↔ forest.names = [] := by
  have size : outline.size = forest.names.length + 1 := by
    rw [size, ← List.length_map Entry.name, ← names, names_of_ofForest built, List.length_cons]
  simp [isEmpty, size]

end OfForest

/-- A state is compound when it contains some other. -/
theorem WellFormed.isCompound_iff_exists {outline : Outline} (wf : outline.WellFormed)
    {state : String}
    : outline.isCompound state = true ↔ ∃ inner, outline.contains state inner = true := by
  constructor
  · intro compound
    obtain ⟨entry, member, head⟩ := isCompound_iff.mp compound
    refine ⟨entry.name, ?_⟩
    rw [wf.contains_iff, wf.enclosing_eq member]
    exact List.mem_of_mem_head? head
  · rintro ⟨inner, inside⟩
    exact (wf.compound_of_contains inside).2

end Outline

end Statechart
