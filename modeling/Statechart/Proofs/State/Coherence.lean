import Statechart.Proofs.State.Nodes
import Statechart.Proofs.State.Numbering

/-! The table of a forest shows the forest. In a coherent table numbers and names tell each other, a
state is among the children of the one around it, and depths count the states around. Entering a
state keeps the table coherent, and the outline of the table is that of the forest.
-/

namespace Statechart

namespace StateTable

-----------------------------------------------------------------------------------------
-- Coherent tables
-----------------------------------------------------------------------------------------

/-- A table of states under one root, in which what is told of a state twice is told alike. -/
structure Coherent (table : StateTable) : Prop where
  size_pos : 0 < table.size
  name_root : table.name 0 = rootName
  depth_root : table.depth 0 = 0
  number?_iff
    : ∀ {name number},
        table.number? name = some number ↔ number < table.size ∧ table.name number = name
  parent?_eq_none_iff : ∀ {number}, number < table.size → (table.parent? number = none ↔ number = 0)
  children_eq
    : ∀ {number},
        number < table.size
        → table.children number
          = (List.range table.size).filter (table.parent? · = some number)
  depth_eq
    : ∀ {child parent},
        table.parent? child = some parent → table.depth child = table.depth parent + 1

theorem lt_size_of_parent? {table : StateTable} {number parent : Nat}
    (above : table.parent? number = some parent)
    : number < table.size := by
  obtain ⟨row, there, _⟩ := Option.bind_eq_some_iff.mp above
  exact (List.getElem?_eq_some_iff.mp there).1

theorem number?_eq_none {table : StateTable} {name : String} (free : name ∉ table.taken)
    : table.number? name = none := by
  refine List.lookup_eq_none_iff.mpr fun entry member => bne_iff_ne.mpr ?_
  rintro rfl
  exact free (List.mem_map_of_mem member)

theorem coherent_root : root.Coherent where
  size_pos := Nat.one_pos
  name_root := rfl
  depth_root := rfl
  number?_iff := by
    intro name number
    have one : root.size = 1 := rfl
    rw [one, Nat.lt_one_iff]
    constructor
    · intro found
      simp only [number?, root, List.lookup_cons, List.lookup_nil] at found
      split at found
      · rename_i same
        cases found
        exact ⟨rfl, (beq_iff_eq.mp same).symm⟩
      · cases found
    · rintro ⟨rfl, rfl⟩
      rfl
  parent?_eq_none_iff := by
    intro number there
    obtain rfl : number = 0 := Nat.lt_one_iff.mp there
    exact iff_of_true rfl rfl
  children_eq := by
    intro number there
    obtain rfl : number = 0 := Nat.lt_one_iff.mp there
    rfl
  depth_eq := by
    intro child parent above
    obtain rfl : child = 0 := Nat.lt_one_iff.mp (lt_size_of_parent? above)
    cases above

namespace Coherent

variable {table : StateTable}

theorem name_injective (coherent : table.Coherent) {number other : Nat}
    (known : number < table.size) (same : table.name other = table.name number)
    (there : other < table.size)
    : other = number := by
  have first := coherent.number?_iff.mpr ⟨known, rfl⟩
  have second := coherent.number?_iff.mpr ⟨there, same⟩
  exact Option.some.inj (second.symm.trans first)

/-- The state around another is the one that has it among its children. -/
theorem parent?_iff (coherent : table.Coherent) {child parent : Nat}
    : table.parent? child = some parent ↔ child ∈ table.children parent := by
  by_cases known : parent < table.size
  · rw [coherent.children_eq known, List.mem_filter, List.mem_range, decide_eq_true_eq]
    exact ⟨fun above => ⟨lt_size_of_parent? above, above⟩, And.right⟩
  · have none : table.children parent = [] := by
      rw [children, List.getElem?_eq_none (Nat.le_of_not_lt known)]
      rfl
    rw [none]
    refine iff_of_false (fun above => known ?_) List.not_mem_nil
    exact Nat.lt_trans (lt_of_parent? above) (lt_size_of_parent? above)

section Enter

variable {parent : Nat} {name : String}

/-- A free name is the name of no state, so that it can tell the number of the new one. -/
theorem number?_iff_enter (coherent : table.Coherent) (known : parent < table.size)
    (free : name ∉ table.taken) {other : String} {number : Nat}
    : (table.enter parent known name).number? other = some number
      ↔ number < (table.enter parent known name).size
        ∧ (table.enter parent known name).name number = other := by
  have fresh := number?_eq_none free
  have absent : ¬ (number < table.size ∧ table.name number = name) := fun named =>
    Option.some_ne_none _ ((coherent.number?_iff.mpr named).symm.trans fresh)
  rw [number?_enter, size_enter]
  -- The number is that of a state that was there, that of the new one, or that of none.
  rcases Nat.lt_trichotomy number table.size with old | rfl | beyond
  · rw [name_enter_old table parent known name old]
    split
    · rename_i same
      subst same
      refine iff_of_false (fun last => ?_) (fun named => absent ⟨old, named.2⟩)
      exact Nat.ne_of_gt old (Option.some.inj last)
    · rw [coherent.number?_iff]
      exact and_congr_left fun _ => iff_of_true old (Nat.lt_succ_of_lt old)
  · rw [name_enter_new]
    split
    · rename_i same
      exact iff_of_true rfl ⟨Nat.lt_succ_self _, same.symm⟩
    · rename_i apart
      refine iff_of_false (fun found => ?_) (fun named => apart named.2.symm)
      exact Nat.lt_irrefl _ (coherent.number?_iff.mp found).1
  · refine iff_of_false (fun found => ?_) (fun named => by omega)
    split at found
    · cases found
      omega
    · have := (coherent.number?_iff.mp found).1
      omega

theorem parent?_eq_none_iff_enter (coherent : table.Coherent) (known : parent < table.size)
    {number : Nat} (there : number < (table.enter parent known name).size)
    : (table.enter parent known name).parent? number = none ↔ number = 0 := by
  rcases old_or_new table parent known name there with old | rfl
  · rw [parent?_enter_old table parent known name old, coherent.parent?_eq_none_iff old]
  · rw [parent?_enter_new]
    exact iff_of_false (Option.some_ne_none _) (Nat.ne_of_gt coherent.size_pos)

/-- The new state comes last among the children of the one around it, as it does in the table. -/
theorem children_eq_enter (coherent : table.Coherent) (known : parent < table.size) {number : Nat}
    (there : number < (table.enter parent known name).size)
    : (table.enter parent known name).children number
      = (List.range (table.enter parent known name).size).filter
        ((table.enter parent known name).parent? · = some number) := by
  have others
      : (List.range table.size).filter ((table.enter parent known name).parent? · = some number)
        = (List.range table.size).filter (table.parent? · = some number) := by
    refine List.filter_congr fun child inside => ?_
    rw [parent?_enter_old table parent known name (List.mem_range.mp inside)]
  rw [size_enter, List.range_succ, List.filter_append, others, List.filter_singleton,
    parent?_enter_new]
  rcases old_or_new table parent known name there with old | rfl
  · rw [children_enter_old table parent known name old, coherent.children_eq old]
    by_cases same : parent = number <;> simp [same]
  · have none : (List.range table.size).filter (table.parent? · = some table.size) = [] := by
      refine List.filter_eq_nil_iff.mpr fun child inside above => ?_
      have less := lt_of_parent? (of_decide_eq_true above)
      exact Nat.lt_asymm less (List.mem_range.mp inside)
    rw [children_enter_new, none]
    simp [Nat.ne_of_lt known]

theorem depth_eq_enter (coherent : table.Coherent) (known : parent < table.size)
    {child outer : Nat} (above : (table.enter parent known name).parent? child = some outer)
    : (table.enter parent known name).depth child
      = (table.enter parent known name).depth outer + 1 := by
  rcases old_or_new table parent known name (lt_size_of_parent? above) with old | rfl
  · rw [parent?_enter_old table parent known name old] at above
    have less := Nat.lt_trans (lt_of_parent? above) old
    rw [depth_enter_old table parent known name old,
      depth_enter_old table parent known name less, coherent.depth_eq above]
  · rw [parent?_enter_new] at above
    cases above
    rw [depth_enter_new, depth_enter_old table parent known name known]

/-- A state that is entered with a free name keeps a table coherent. -/
theorem enter (coherent : table.Coherent) (known : parent < table.size)
    (free : name ∉ table.taken)
    : (table.enter parent known name).Coherent where
  size_pos := by
    rw [size_enter]
    exact Nat.succ_pos _
  name_root := by
    rw [name_enter_old table parent known name coherent.size_pos, coherent.name_root]
  depth_root := by
    rw [depth_enter_old table parent known name coherent.size_pos, coherent.depth_root]
  number?_iff := coherent.number?_iff_enter known free
  parent?_eq_none_iff := coherent.parent?_eq_none_iff_enter known
  children_eq := coherent.children_eq_enter known
  depth_eq := coherent.depth_eq_enter known

end Enter

-----------------------------------------------------------------------------------------
-- Ways to the root of a coherent table
-----------------------------------------------------------------------------------------

/-- A way up has one state more than there are steps to the root. -/
theorem length_ancestors (coherent : table.Coherent) {number : Nat} (known : number < table.size)
    : (table.ancestors number).length = table.depth number + 1 := by
  induction number using table.up_induction with
  | top number above =>
      obtain rfl := (coherent.parent?_eq_none_iff known).mp above
      rw [ancestors_of_none above, coherent.depth_root, List.length_singleton]
  | inner number parent above ih =>
      have further := ih (Nat.lt_trans (lt_of_parent? above) known)
      rw [ancestors_of_parent? above, List.length_cons, further, coherent.depth_eq above]

/-- A way up ends at the root. -/
theorem getLast?_ancestors (coherent : table.Coherent) {number : Nat} (known : number < table.size)
    : (table.ancestors number).getLast? = some 0 := by
  induction number using table.up_induction with
  | top number above =>
      obtain rfl := (coherent.parent?_eq_none_iff known).mp above
      rw [ancestors_of_none above, List.getLast?_singleton]
  | inner number parent above ih =>
      have further := ih (Nat.lt_trans (lt_of_parent? above) known)
      rw [ancestors_of_parent? above, List.getLast?_cons, further, Option.getD_some]

-----------------------------------------------------------------------------------------
-- What the outline of a coherent table tells
-----------------------------------------------------------------------------------------

/-- Among states of the table, a state is told by its name. -/
theorem mem_map_name_iff (coherent : table.Coherent) {states : List Nat}
    (known : ∀ state ∈ states, state < table.size) {outer : Nat} (there : outer < table.size)
    : table.name outer ∈ states.map table.name ↔ outer ∈ states := by
  constructor
  · intro named
    obtain ⟨other, inside, same⟩ := List.mem_map.mp named
    exact coherent.name_injective there same (known other inside) ▸ inside
  · exact List.mem_map_of_mem

/-- The children of a state are those that the outline tells to be directly inside it. -/
theorem map_name_children (coherent : table.Coherent) {number : Nat} (known : number < table.size)
    : (table.children number).map table.name = table.outline.children (table.name number) := by
  rw [coherent.children_eq known, Outline.children, entries_outline, List.filter_map, List.map_map]
  refine congrArg₂ List.map rfl (List.filter_congr fun child inside => decide_eq_decide.mpr ?_)
  cases above : table.parent? child with
  | none => simp [path, ancestors_of_none above]
  | some parent =>
      have reached := Nat.lt_trans (lt_of_parent? above) (lt_size_of_parent? above)
      have tail : (table.path child).tail = table.path parent := by
        rw [path_of_parent? above, List.tail_cons]
      simp only [tail, head?_path, Option.some.injEq]
      constructor
      · rintro rfl
        rfl
      · exact fun same => coherent.name_injective known same reached

/-- The states around a state are those that the outline tells. -/
theorem enclosing_outline (wf : table.outline.WellFormed) {number : Nat}
    (known : number < table.size)
    : table.outline.enclosing (table.name number) = (table.path number).tail := by
  refine wf.enclosing_eq ?_
  rw [entries_outline]
  exact List.mem_map.mpr ⟨number, List.mem_range.mpr known, rfl⟩

/-- A state contains another just if the outline tells so of their names. -/
theorem contains_eq_outline (coherent : table.Coherent) (wf : table.outline.WellFormed)
    {outer number : Nat} (there : outer < table.size) (known : number < table.size)
    : table.contains outer number
      = table.outline.contains (table.name outer) (table.name number) := by
  have deep {state : Nat} (inside : state < table.size)
      : table.outline.depth (table.name state) = table.depth state := by
    rw [Outline.depth, enclosing_outline wf inside, List.length_tail, path, List.length_map,
      coherent.length_ancestors inside, Nat.add_sub_cancel]
  have reached : ∀ state ∈ (table.ancestors number).tail, state < table.size := fun state inside =>
    Nat.lt_of_le_of_lt (le_of_mem_ancestors (List.mem_of_mem_tail inside)) known
  have around : (table.path number).tail.contains (table.name outer)
      = (table.ancestors number).tail.contains outer := by
    rw [Bool.eq_iff_iff, List.contains_iff_mem, List.contains_iff_mem, path, ← List.map_tail,
      coherent.mem_map_name_iff reached there]
  rw [contains, Outline.contains, deep there, deep known, enclosing_outline wf known, around]

end Coherent

-----------------------------------------------------------------------------------------
-- Tables of forests
-----------------------------------------------------------------------------------------

/-- The state that some steps up from a state lead to, one to the state around at a time. -/
def climb (table : StateTable) : Nat → Nat → Option Nat
  | 0, number => some number
  | steps + 1, number => (table.parent? number).bind (table.climb steps)

/-- The way up from a state holds what each number of steps leads to; by induction on the steps. -/
theorem getElem?_ancestors (table : StateTable) (number steps : Nat)
    : (table.ancestors number)[steps]? = table.climb steps number := by
  induction steps generalizing number with
  | zero =>
      cases above : table.parent? number with
      | none => rw [ancestors_of_none above, climb, List.getElem?_cons_zero]
      | some parent => rw [ancestors_of_parent? above, climb, List.getElem?_cons_zero]
  | succ steps ih =>
      cases above : table.parent? number with
      | none =>
          rw [ancestors_of_none above, climb, above, List.getElem?_cons_succ, List.getElem?_nil,
            Option.bind_none]
      | some parent =>
          rw [ancestors_of_parent? above, climb, above, List.getElem?_cons_succ, ih parent,
            Option.bind_some]

/-- A table is a flat form of a forest: the states are numbered depth first below the root, and the
table tells of them what the forest shows.
-/
structure Shows (table : StateTable) (forest : Forest) : Prop where
  names : (List.range table.size).map table.name = rootName :: forest.names
  number?_iff
    : ∀ {name number},
        table.number? name = some number ↔ number < table.size ∧ table.name number = name
  children
    : ∀ {number name inside},
        forest.nodesWithRoot[number]? = some (name, inside)
        → (table.children number).map table.name = inside.siblings
  parent?_iff
    : ∀ {child parent}, table.parent? child = some parent ↔ child ∈ table.children parent
  parent_lt
    : ∀ {child parent}, table.parent? child = some parent → parent < child ∧ child < table.size
  isLeaf_iff
    : ∀ {number name inside},
        forest.nodesWithRoot[number]? = some (name, inside)
        → (table.isLeaf number = true ↔ inside = .nil)
  compounds
    : table.compounds.map table.name
      = (forest.nodesWithRoot.filter (fun node => node.2 ≠ .nil)).map (·.1)
  ancestors_climb : ∀ number steps, (table.ancestors number)[steps]? = table.climb steps number
  ancestors_end : ∀ {number}, number < table.size → (table.ancestors number).getLast? = some 0
  depth : ∀ {number}, number < table.size → (table.ancestors number).length = table.depth number + 1
  enclosing : table.outline.entries = ⟨rootName, []⟩ :: forest.entries [rootName]
  contains_iff
    : ∀ {outer number name inside},
        forest.nodesWithRoot[outer]? = some (name, inside)
        → number < table.size
        → (table.contains outer number = true ↔ table.name number ∈ inside.names)

section OfForest

variable {forest : Forest} {table : StateTable}

/-- A forest has a table when declaring its states tells no problem. -/
theorem ofForest_eq_ok (built : ofForest forest = .ok table)
    : (root.declare 0 Nat.one_pos forest).problems = []
      ∧ table = (root.declare 0 Nat.one_pos forest).grown := by
  unfold ofForest at built
  cases told : (root.declare 0 Nat.one_pos forest).problems with
  | cons problem others => simp [Problems.check, told] at built
  | nil =>
      simp only [Problems.check, told, Except.ok.injEq] at built
      exact ⟨rfl, built.symm⟩

theorem coherent_of_ofForest (built : ofForest forest = .ok table) : table.Coherent := by
  obtain ⟨_, rfl⟩ := ofForest_eq_ok built
  refine declare_keeps (fun table parent known name free coherent => ?_) Nat.one_pos forest
    coherent_root
  exact coherent.enter known (Forest.rejection?_eq_none_iff.mp free).2

/-- The outline of the table of a forest is the outline of the forest. -/
theorem outline_of_ofForest (built : ofForest forest = .ok table)
    : Outline.ofForest forest = .ok table.outline := by
  obtain ⟨told, rfl⟩ := ofForest_eq_ok built
  have free : (forest.declare [rootName]).1 = [] :=
    (problems_declare root 0 Nat.one_pos forest).symm.trans told
  have alone : root.path 0 = [rootName] := path_of_none rfl
  have entries := entries_outline_declare Nat.one_pos told
  have first : root.outline.entries = [⟨rootName, []⟩] := by
    rw [entries_outline, show root.size = 1 from rfl, List.range_one, List.map_singleton, alone]
    rfl
  rw [alone, first, List.singleton_append] at entries
  rw [Outline.ofForest, free, ← entries, Problems.check]

/-- The number of a node is known, and the table tells its name. -/
theorem name_of_node (built : ofForest forest = .ok table) {number : Nat} {name : String}
    {inside : Forest} (node : forest.nodesWithRoot[number]? = some (name, inside))
    : number < table.size ∧ table.name number = name := by
  have names := Outline.names_of_ofForest (outline_of_ofForest built)
  rw [← Forest.map_fst_nodesWithRoot, Outline.names, entries_outline, List.map_map] at names
  have there := congrArg (·[number]?) names
  simp only [List.getElem?_map, node, Option.map_some] at there
  obtain ⟨found, inside, named⟩ := Option.map_eq_some_iff.mp there
  obtain ⟨known, rfl⟩ := List.getElem?_eq_some_iff.mp inside
  rw [List.getElem_range] at named
  rw [List.length_range] at known
  exact ⟨known, named⟩

/-- The children of a node are the states of the top level inside it. -/
theorem map_name_children_of_node (built : ofForest forest = .ok table) {number : Nat}
    {name : String} {inside : Forest}
    (node : forest.nodesWithRoot[number]? = some (name, inside))
    : (table.children number).map table.name = inside.siblings := by
  obtain ⟨known, rfl⟩ := name_of_node built node
  rw [(coherent_of_ofForest built).map_name_children known,
    Outline.children_of_ofForest (outline_of_ofForest built) (List.mem_of_getElem? node)]

theorem isLeaf_iff_of_node (built : ofForest forest = .ok table) {number : Nat} {name : String}
    {inside : Forest} (node : forest.nodesWithRoot[number]? = some (name, inside))
    : table.isLeaf number = true ↔ inside = .nil := by
  rw [isLeaf, List.isEmpty_iff, ← Forest.siblings_eq_nil_iff,
    ← map_name_children_of_node built node, List.map_eq_nil_iff]

/-- The compound states are the nodes with something inside them: both are those that the outline
tells to be compound.
-/
theorem map_name_compounds (built : ofForest forest = .ok table)
    : table.compounds.map table.name
      = (forest.nodesWithRoot.filter (fun node => node.2 ≠ .nil)).map (·.1) := by
  have outlined := outline_of_ofForest built
  have coherent := coherent_of_ofForest built
  have numbered : table.compounds.map table.name
      = ((List.range table.size).map table.name).filter table.outline.isCompound := by
    rw [List.filter_map, compounds]
    refine congrArg₂ List.map rfl (List.filter_congr fun number inside => ?_)
    rw [Function.comp_apply, isCompound, isLeaf, Outline.isCompound, Outline.isLeaf,
      ← coherent.map_name_children (List.mem_range.mp inside), List.isEmpty_map]
  have nested : (forest.nodesWithRoot.filter (fun node => node.2 ≠ .nil)).map (·.1)
      = (forest.nodesWithRoot.map (·.1)).filter table.outline.isCompound := by
    rw [List.filter_map]
    refine congrArg₂ List.map rfl (List.filter_congr fun node member => ?_)
    rw [Function.comp_apply, Outline.isCompound, Outline.isLeaf,
      Outline.children_of_ofForest outlined member, Bool.eq_iff_iff]
    simp [Forest.siblings_eq_nil_iff]
  have names := Outline.names_of_ofForest outlined
  rw [Outline.names, entries_outline, List.map_map] at names
  rw [numbered, nested, Forest.map_fst_nodesWithRoot, ← names]
  rfl

/-- A forest that has a table is shown by it. -/
theorem shows_of_ofForest (built : ofForest forest = .ok table) : table.Shows forest where
  names := by
    have names := Outline.names_of_ofForest (outline_of_ofForest built)
    rw [Outline.names, entries_outline, List.map_map] at names
    exact names
  number?_iff := (coherent_of_ofForest built).number?_iff
  children := map_name_children_of_node built
  parent?_iff := (coherent_of_ofForest built).parent?_iff
  parent_lt := fun above => ⟨lt_of_parent? above, lt_size_of_parent? above⟩
  isLeaf_iff := isLeaf_iff_of_node built
  compounds := map_name_compounds built
  ancestors_climb := table.getElem?_ancestors
  ancestors_end := (coherent_of_ofForest built).getLast?_ancestors
  depth := (coherent_of_ofForest built).length_ancestors
  enclosing := by
    obtain ⟨_, equal⟩ := Outline.ofForest_eq_ok (outline_of_ofForest built)
    rw [equal]
  contains_iff := by
    intro outer number name inside node known
    have outlined := outline_of_ofForest built
    obtain ⟨there, rfl⟩ := name_of_node built node
    rw [(coherent_of_ofForest built).contains_eq_outline (Outline.wellFormed_of_ofForest outlined)
      there known, Outline.contains_iff_of_node outlined (List.mem_of_getElem? node)]

/-- A name is free for a state if it is not empty, not that of the root and not marked as that of a
history target.
-/
theorem isReservedName_eq_false_iff {name : String}
    : isReservedName name = false
      ↔ name ≠ "" ∧ name ≠ rootName ∧ ¬ historyMark.toList <+: name.toList := by
  have marked : isHistoryTarget name = true ↔ historyMark.toList <+: name.toList := by
    rw [isHistoryTarget, historyOwner?, ← List.isPrefixOf_iff_prefix]
    split <;> simp_all
  rw [← marked, isReservedName]
  simp only [Bool.or_eq_false_iff, beq_eq_false_iff_ne, Bool.not_eq_true]
  tauto

/-- A forest has a table just if the names of its states are free and all different, and the table
shows the forest.
-/
theorem ofForest_faithful (forest : Forest)
    : ((∃ table, ofForest forest = .ok table)
        ↔ (∀ name ∈ forest.names,
            name ≠ "" ∧ name ≠ rootName ∧ ¬ historyMark.toList <+: name.toList)
          ∧ forest.names.Nodup)
      ∧ ∀ table, ofForest forest = .ok table → table.Shows forest := by
  refine ⟨?_, fun _ => shows_of_ofForest⟩
  simp only [← isReservedName_eq_false_iff]
  constructor
  · rintro ⟨table, built⟩
    have told := (problems_declare root 0 Nat.one_pos forest).symm.trans (ofForest_eq_ok built).1
    obtain ⟨_, free, distinct⟩ := Forest.declare_free told
    exact ⟨fun name member => (free name member).1, distinct⟩
  · rintro ⟨free, distinct⟩
    have told : (root.declare 0 Nat.one_pos forest).problems = [] := by
      refine (problems_declare root 0 Nat.one_pos forest).trans ?_
      refine Forest.declare_eq_nil (fun name member => ⟨free name member, ?_⟩) distinct
      have taken : root.taken = [rootName] := rfl
      rw [taken, List.mem_singleton]
      exact (isReservedName_eq_false_iff.mp (free name member)).2.1
    refine ⟨(root.declare 0 Nat.one_pos forest).grown, ?_⟩
    simp only [ofForest, Problems.check, told]

/-- Two levels of states. -/
def lamp : Forest :=
  .compound "on" (.leaf "dim" (.leaf "bright" .nil)) (.leaf "off" .nil)

theorem lamp_faithful : ∃ table, ofForest lamp = .ok table ∧ table.Shows lamp := by
  obtain ⟨table, built⟩ := (ofForest_faithful lamp).1.mpr (by decide)
  exact ⟨table, built, (ofForest_faithful lamp).2 table built⟩

end OfForest

end StateTable

end Statechart
