import Statechart.Proofs.State.Nesting
import Statechart.Proofs.State.Rereading

/-! The states of a forest with what lies inside them, and what the outline of the forest tells of
them: the states directly inside one are those of the top level inside it, and it contains all those
inside it.
-/

namespace Statechart

namespace Forest

/-- The states with what lies inside them, each before those inside it, in order of declaration. -/
def nodes : Forest → List (String × Forest)
  | .nil => []
  | .leaf name rest => (name, .nil) :: rest.nodes
  | .compound name inside rest => (name, inside) :: inside.nodes ++ rest.nodes

/-- The root and the states, with what lies inside them. -/
def nodesWithRoot (forest : Forest) : List (String × Forest) :=
  (rootName, forest) :: forest.nodes

theorem map_fst_nodes (forest : Forest) : forest.nodes.map (·.1) = forest.names := by
  induction forest with
  | nil => rfl
  | leaf name rest ih => simp [nodes, names, ih]
  | compound name inside rest ihInside ihRest => simp [nodes, names, ihInside, ihRest]

theorem map_fst_nodesWithRoot (forest : Forest)
    : forest.nodesWithRoot.map (·.1) = rootName :: forest.names := by
  rw [nodesWithRoot, List.map_cons, map_fst_nodes]

theorem mem_names_of_mem_nodes {forest inside : Forest} {name : String}
    (node : (name, inside) ∈ forest.nodes)
    : name ∈ forest.names := by
  rw [← map_fst_nodes]
  exact List.mem_map_of_mem node

/-- What lies inside a state is told by its name, if no other state has it. -/
theorem inside_unique {forest : Forest} (distinct : (rootName :: forest.names).Nodup)
    {name : String} {inside other : Forest} (first : (name, inside) ∈ forest.nodesWithRoot)
    (second : (name, other) ∈ forest.nodesWithRoot)
    : inside = other := by
  rw [← map_fst_nodesWithRoot] at distinct
  exact congrArg Prod.snd (List.inj_on_of_nodup_map distinct first second rfl)

theorem siblings_eq_nil_iff {forest : Forest} : forest.siblings = [] ↔ forest = .nil := by
  cases forest <;> simp [siblings, top]

/-- A state lies inside another just if it is among those inside the other's node; by induction on
the nesting, and on the forest.
-/
theorem nests_iff {forest : Forest} {outer inner : String}
    : forest.Nests outer inner
      ↔ ∃ inside, (outer, inside) ∈ forest.nodes ∧ inner ∈ inside.names := by
  constructor
  · intro nested
    induction nested with
    | here member => exact ⟨_, List.mem_cons_self, member⟩
    | deeper _ ih =>
        obtain ⟨inside, node, member⟩ := ih
        exact ⟨inside, by simp [nodes, node], member⟩
    | afterLeaf _ ih | afterCompound _ ih =>
        obtain ⟨inside, node, member⟩ := ih
        exact ⟨inside, by simp [nodes, node], member⟩
  · rintro ⟨inside, node, member⟩
    induction forest with
    | nil => cases node
    | leaf name rest ih =>
        rcases List.mem_cons.mp node with same | node
        · cases same
          cases member
        · exact .afterLeaf (ih node)
    | compound name within rest ihInside ihRest =>
        simp only [nodes, List.cons_append, List.mem_cons, List.mem_append] at node
        rcases node with same | node | node
        · cases same
          exact .here member
        · exact .deeper (ihInside node)
        · exact .afterCompound (ihRest node)

-----------------------------------------------------------------------------------------
-- States directly inside a state
-----------------------------------------------------------------------------------------

/-- The states that entries tell to be directly inside a state. -/
def directlyInside (outer : String) (entries : List Outline.Entry) : List String :=
  (entries.filter (fun entry => entry.enclosing.head? = some outer)).map (·.name)

theorem directlyInside_cons_self (outer name : String) (around : List String)
    (entries : List Outline.Entry)
    : directlyInside outer (⟨name, outer :: around⟩ :: entries)
      = name :: directlyInside outer entries := by
  simp [directlyInside]

theorem directlyInside_cons_of_ne {outer parent : String} (apart : parent ≠ outer) (name : String)
    (around : List String) (entries : List Outline.Entry)
    : directlyInside outer (⟨name, parent :: around⟩ :: entries)
      = directlyInside outer entries := by
  simp [directlyInside, apart]

theorem directlyInside_append (outer : String) (entries others : List Outline.Entry)
    : directlyInside outer (entries ++ others)
      = directlyInside outer entries ++ directlyInside outer others := by
  simp [directlyInside]

/-- Only the state around a level and those of the level have states directly inside them. -/
theorem directlyInside_eq_nil {forest : Forest} {parent outer : String} (apart : parent ≠ outer)
    (absent : outer ∉ forest.names) (around : List String)
    : directlyInside outer (forest.entries (parent :: around)) = [] := by
  refine List.map_eq_nil_iff.mpr (List.filter_eq_nil_iff.mpr fun entry member => ?_)
  obtain ⟨linked, rest, equal, ⟨rfl, rfl⟩ | inside⟩ := entries_linked member
  · simp [equal, apart]
  · have named := List.mem_map_of_mem inside (f := Outline.Entry.name)
    rw [map_name_entries] at named
    simp only [equal, List.head?_cons, Option.some.injEq, decide_eq_true_eq]
    rintro rfl
    exact absent named

/-- Directly inside the state around a level are the states of its top level; by induction on the
forest.
-/
theorem directlyInside_level {forest : Forest} {outer : String} (absent : outer ∉ forest.names)
    (around : List String)
    : directlyInside outer (forest.entries (outer :: around)) = forest.siblings := by
  induction forest with
  | nil => rfl
  | leaf name rest ih =>
      rw [entries, directlyInside_cons_self, ih (fun member => absent (by simp [names, member]))]
      rfl
  | compound name inside rest _ ih =>
      simp only [names, List.cons_append, List.mem_cons, List.mem_append, not_or] at absent
      obtain ⟨apart, absentInside, absentRest⟩ := absent
      rw [entries, List.cons_append, directlyInside_cons_self, directlyInside_append,
        directlyInside_eq_nil (Ne.symm apart) absentInside, ih absentRest, List.nil_append]
      rfl

/-- Directly inside a state of a level are the states of the top level inside it; by induction on
the forest, where names that are all different keep the other parts of it out.
-/
theorem directlyInside_node {forest : Forest} {parent name : String} {inside : Forest}
    (node : (name, inside) ∈ forest.nodes) (distinct : (parent :: forest.names).Nodup)
    (around : List String)
    : directlyInside name (forest.entries (parent :: around)) = inside.siblings := by
  have outside {forest : Forest} {parent : String} (node : (name, inside) ∈ forest.nodes)
      (distinct : (parent :: forest.names).Nodup)
      : parent ≠ name := by
    rintro rfl
    exact (List.nodup_cons.mp distinct).1 (mem_names_of_mem_nodes node)
  induction forest generalizing parent around with
  | nil => cases node
  | leaf other rest ih =>
      have apart := outside node distinct
      simp only [names, List.nodup_cons, List.mem_cons, not_or] at distinct
      obtain ⟨⟨_, absent⟩, otherAbsent, distinctRest⟩ := distinct
      rw [entries, directlyInside_cons_of_ne apart]
      rcases List.mem_cons.mp node with same | node
      · cases same
        exact directlyInside_eq_nil apart otherAbsent around
      · exact ih node (List.nodup_cons.mpr ⟨absent, distinctRest⟩) around
  | compound other within rest ihInside ihRest =>
      have apart := outside node distinct
      simp only [names, List.cons_append, List.nodup_cons, List.mem_cons, List.mem_append, not_or,
        List.nodup_append] at distinct
      obtain ⟨⟨_, absentInside, absentRest⟩, ⟨otherInside, otherRest⟩, distinctInside,
        distinctRest, disjoint⟩ := distinct
      -- Of the entry of the other state, those inside it and those after it, one part is left.
      rw [entries, List.cons_append, directlyInside_cons_of_ne apart, directlyInside_append]
      simp only [nodes, List.cons_append, List.mem_cons, List.mem_append] at node
      rcases node with same | node | node
      · cases same
        rw [directlyInside_level otherInside, directlyInside_eq_nil apart otherRest,
          List.append_nil]
      · have here := mem_names_of_mem_nodes node
        have elsewhere : name ∉ rest.names := fun member => disjoint _ here _ member rfl
        rw [ihInside node (List.nodup_cons.mpr ⟨otherInside, distinctInside⟩),
          directlyInside_eq_nil apart elsewhere, List.append_nil]
      · have here := mem_names_of_mem_nodes node
        have elsewhere : name ∉ within.names := fun member => disjoint _ member _ here rfl
        have different : other ≠ name := fun same => otherRest (same ▸ here)
        rw [directlyInside_eq_nil different elsewhere, List.nil_append]
        exact ihRest node (List.nodup_cons.mpr ⟨absentRest, distinctRest⟩) around

end Forest

namespace Outline

section OfForest

variable {forest inside : Forest} {outline : Outline} {name : String}

theorem nodup_names_of_ofForest (built : ofForest forest = .ok outline)
    : (rootName :: forest.names).Nodup :=
  names_of_ofForest built ▸ (wellFormed_of_ofForest built).distinct

/-- The states directly inside a state of a forest are those of the top level inside it. -/
theorem children_of_ofForest (built : ofForest forest = .ok outline)
    (node : (name, inside) ∈ forest.nodesWithRoot)
    : outline.children name = inside.siblings := by
  have distinct := nodup_names_of_ofForest built
  obtain ⟨_, rfl⟩ := ofForest_eq_ok built
  have skipped : (⟨⟨rootName, []⟩ :: forest.entries [rootName]⟩ : Outline).children name
      = Forest.directlyInside name (forest.entries [rootName]) := by
    simp [children, Forest.directlyInside]
  rw [skipped]
  rcases List.mem_cons.mp node with same | node
  · cases same
    exact Forest.directlyInside_level (List.nodup_cons.mp distinct).1 []
  · exact Forest.directlyInside_node node distinct []

/-- A state of a forest contains just those inside its node. -/
theorem contains_iff_of_node (built : ofForest forest = .ok outline)
    (node : (name, inside) ∈ forest.nodesWithRoot) {inner : String}
    : outline.contains name inner = true ↔ inner ∈ inside.names := by
  have distinct := nodup_names_of_ofForest built
  rw [contains_iff_of_ofForest built, Forest.nests_iff]
  constructor
  · rintro (⟨rfl, member⟩ | ⟨other, found, member⟩)
    · exact Forest.inside_unique distinct node List.mem_cons_self ▸ member
    · exact Forest.inside_unique distinct node (List.mem_cons_of_mem _ found) ▸ member
  · intro member
    rcases List.mem_cons.mp node with same | node
    · cases same
      exact Or.inl ⟨rfl, member⟩
    · exact Or.inr ⟨inside, node, member⟩

end OfForest

end Outline

end Statechart
