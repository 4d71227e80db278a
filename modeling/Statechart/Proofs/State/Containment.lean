import Mathlib.Data.List.Nodup
import Mathlib.Tactic.Tauto
import Statechart.State.Outline

/-! Containment of states in the outline of a forest. Distinct names make every look-up
unique, and the states around a state are its parent and the states around that. From these
two facts containment is a strict order, and the way from a state to the root is a chain.
-/

namespace Statechart

/-- Taking elements while a test succeeds takes all that pass it, if the test cannot fail
before one that passes; by induction on the list.
-/
theorem mem_takeWhile_iff_of_pairwise {α : Type} {before : α → α → Prop} {test : α → Bool}
    {list : List α} (chain : list.Pairwise before)
    (early : ∀ {a b}, before a b → test b = true → test a = true) (x : α)
    : x ∈ list.takeWhile test ↔ x ∈ list ∧ test x = true := by
  induction list with
  | nil => simp
  | cons first rest ih =>
      obtain ⟨after, chain⟩ := List.pairwise_cons.mp chain
      by_cases passes : test first = true
      · rw [List.takeWhile_cons_of_pos passes, List.mem_cons, List.mem_cons, ih chain]
        constructor
        · rintro (rfl | ⟨member, ok⟩)
          · exact ⟨Or.inl rfl, passes⟩
          · exact ⟨Or.inr member, ok⟩
        · rintro ⟨rfl | member, ok⟩
          · exact Or.inl rfl
          · exact Or.inr ⟨member, ok⟩
      · rw [List.takeWhile_cons_of_neg passes]
        refine ⟨fun member => absurd member List.not_mem_nil, ?_⟩
        rintro ⟨member, ok⟩
        rcases List.mem_cons.mp member with rfl | member
        · exact absurd ok passes
        · exact absurd (early (after x member) ok) passes

namespace Forest

/-- A name can be declared exactly when it is neither reserved nor taken. -/
theorem rejection?_eq_none_iff {seen : List String} {name : String}
    : rejection? seen name = none ↔ isReservedName name = false ∧ name ∉ seen := by
  unfold rejection?
  split
  · simp_all
  · split <;> simp_all

/-- States declared without a problem have free names, all different, and take exactly
those; by induction on the forest, with the names taken inside a state seen after it.
-/
theorem declare_free {forest : Forest} {seen : List String}
    (h : (forest.declare seen).1 = [])
    : (∀ name, name ∈ (forest.declare seen).2 ↔ name ∈ forest.names ∨ name ∈ seen)
      ∧ (∀ name ∈ forest.names, isReservedName name = false ∧ name ∉ seen)
      ∧ forest.names.Nodup := by
  induction forest generalizing seen with
  | nil => simp [declare, names]
  | leaf name rest ih =>
      cases hr : rejection? seen name with
      | some problem => simp [declare, hr] at h
      | none =>
          simp only [declare, hr] at h ⊢
          obtain ⟨taken, free, distinct⟩ := ih h
          obtain ⟨unreserved, fresh⟩ := rejection?_eq_none_iff.mp hr
          refine ⟨?_, ?_, ?_⟩
          · intro other
            rw [taken]
            simp only [names, List.mem_cons]
            tauto
          · intro other member
            rcases List.mem_cons.mp member with rfl | member
            · exact ⟨unreserved, fresh⟩
            · exact ⟨(free other member).1, fun hs => (free other member).2 (by simp [hs])⟩
          · exact List.nodup_cons.mpr
              ⟨fun member => (free name member).2 (by simp), distinct⟩
  | compound name inside rest ihInside ihRest =>
      cases hr : rejection? seen name with
      | some problem => simp [declare, hr] at h
      | none =>
          simp only [declare, hr, List.append_eq_nil_iff] at h ⊢
          obtain ⟨takenInside, freeInside, distinctInside⟩ := ihInside h.1
          obtain ⟨takenRest, freeRest, distinctRest⟩ := ihRest h.2
          obtain ⟨unreserved, fresh⟩ := rejection?_eq_none_iff.mp hr
          -- What follows a state must avoid its name and all names inside it.
          have apart {other} (member : other ∈ rest.names)
              : other ∉ inside.names ∧ other ≠ name ∧ other ∉ seen := by
            have outside := (freeRest other member).2
            rw [takenInside] at outside
            simp only [List.mem_cons, not_or] at outside
            exact ⟨outside.1, outside.2⟩
          refine ⟨?_, ?_, ?_⟩
          · intro other
            rw [takenRest, takenInside]
            simp only [names, List.cons_append, List.mem_cons, List.mem_append]
            tauto
          · intro other member
            simp only [names, List.cons_append, List.mem_cons, List.mem_append] at member
            rcases member with rfl | member | member
            · exact ⟨unreserved, fresh⟩
            · exact ⟨(freeInside other member).1,
                fun hs => (freeInside other member).2 (by simp [hs])⟩
            · exact ⟨(freeRest other member).1, (apart member).2.2⟩
          · simp only [names, List.cons_append, List.nodup_cons, List.mem_append, not_or]
            refine ⟨⟨fun member => (freeInside name member).2 (by simp), ?_⟩, ?_⟩
            · exact fun member => (apart member).2.1 rfl
            · refine List.nodup_append.mpr ⟨distinctInside, distinctRest, ?_⟩
              rintro inner memberInside outer memberRest rfl
              exact (apart memberRest).1 memberInside

/-- States with free names, all different, are declared without a problem; by induction on the
forest.
-/
theorem declare_eq_nil {forest : Forest} {seen : List String}
    (free : ∀ name ∈ forest.names, isReservedName name = false ∧ name ∉ seen)
    (distinct : forest.names.Nodup)
    : (forest.declare seen).1 = [] := by
  induction forest generalizing seen with
  | nil => rfl
  | leaf name rest ih =>
      simp only [names, List.mem_cons, forall_eq_or_imp, List.nodup_cons] at free distinct
      simp only [declare, rejection?_eq_none_iff.mpr free.1]
      refine ih (fun other member => ?_) distinct.2
      obtain ⟨unreserved, fresh⟩ := free.2 other member
      refine ⟨unreserved, List.not_mem_cons_of_ne_of_not_mem ?_ fresh⟩
      rintro rfl
      exact distinct.1 member
  | compound name inside rest ihInside ihRest =>
      simp only [names, List.cons_append, List.mem_cons, List.mem_append, List.nodup_cons, not_or,
        List.nodup_append] at free distinct
      obtain ⟨⟨absentInside, absentRest⟩, distinctInside, distinctRest, disjoint⟩ := distinct
      simp only [declare, rejection?_eq_none_iff.mpr (free name (Or.inl rfl)),
        List.append_eq_nil_iff]
      have inner : (inside.declare (name :: seen)).1 = [] := by
        refine ihInside (fun other member => ?_) distinctInside
        obtain ⟨unreserved, fresh⟩ := free other (Or.inr (Or.inl member))
        refine ⟨unreserved, List.not_mem_cons_of_ne_of_not_mem ?_ fresh⟩
        rintro rfl
        exact absentInside member
      refine ⟨inner, ihRest (fun other member => ?_) distinctRest⟩
      obtain ⟨unreserved, fresh⟩ := free other (Or.inr (Or.inr member))
      refine ⟨unreserved, fun taken => ?_⟩
      rcases ((declare_free inner).1 other).mp taken with taken | taken
      · exact disjoint other taken other member rfl
      · rcases List.mem_cons.mp taken with rfl | taken
        · exact absentRest member
        · exact fresh taken

/-- The entries of a forest carry its names in order. -/
theorem map_name_entries (forest : Forest) (enclosing : List String)
    : (forest.entries enclosing).map (·.name) = forest.names := by
  induction forest generalizing enclosing with
  | nil => rfl
  | leaf name rest ih => simp [entries, names, ih]
  | compound name inside rest ihInside ihRest => simp [entries, names, ihInside, ihRest]

/-- Around every entry stands the state around the whole level, or a state with an entry of
its own, followed by what stands around that; by induction on the forest.
-/
theorem entries_linked {forest : Forest} {outer : String} {around : List String}
    {entry : Outline.Entry} (member : entry ∈ forest.entries (outer :: around))
    : ∃ parent rest,
        entry.enclosing = parent :: rest
        ∧ ((parent = outer ∧ rest = around)
          ∨ ⟨parent, rest⟩ ∈ forest.entries (outer :: around)) := by
  induction forest generalizing outer around with
  | nil => simp [entries] at member
  | leaf name rest ih =>
      rcases List.mem_cons.mp member with rfl | member
      · exact ⟨outer, around, rfl, Or.inl ⟨rfl, rfl⟩⟩
      · obtain ⟨parent, others, around, linked⟩ := ih member
        exact ⟨parent, others, around, linked.imp_right (List.mem_cons_of_mem _)⟩
  | compound name inside rest ihInside ihRest =>
      simp only [entries, List.cons_append, List.mem_cons, List.mem_append] at member ⊢
      rcases member with rfl | member | member
      · exact ⟨outer, around, rfl, Or.inl ⟨rfl, rfl⟩⟩
      · obtain ⟨parent, others, equal, ⟨rfl, rfl⟩ | linked⟩ := ihInside member
        · exact ⟨_, _, equal, Or.inr (Or.inl rfl)⟩
        · exact ⟨parent, others, equal, Or.inr (Or.inr (Or.inl linked))⟩
      · obtain ⟨parent, others, equal, linked⟩ := ihRest member
        exact ⟨parent, others, equal, linked.imp_right (fun found => Or.inr (Or.inr found))⟩

end Forest

-----------------------------------------------------------------------------------------
-- Outlines in which every look-up is unique
-----------------------------------------------------------------------------------------

namespace Outline

/-- An outline whose states are told apart by their names and in which the states around a
state are its parent and the states around that, up to the root.
-/
structure WellFormed (outline : Outline) : Prop where
  distinct : outline.names.Nodup
  root : ⟨rootName, []⟩ ∈ outline.entries
  linked
    : ∀ entry ∈ outline.entries,
        entry = ⟨rootName, []⟩
        ∨ ∃ parent rest, entry.enclosing = parent :: rest ∧ ⟨parent, rest⟩ ∈ outline.entries

/-- A forest has an outline when declaring its states tells no problem. -/
theorem ofForest_eq_ok {forest : Forest} {outline : Outline}
    (h : ofForest forest = .ok outline)
    : (forest.declare [rootName]).1 = []
      ∧ outline = ⟨⟨rootName, []⟩ :: forest.entries [rootName]⟩ := by
  unfold ofForest at h
  cases hd : (forest.declare [rootName]).1 with
  | cons problem others => simp [Problems.check, hd] at h
  | nil =>
      simp only [Problems.check, hd, Except.ok.injEq] at h
      exact ⟨rfl, h.symm⟩

/-- The outline of a forest is well formed: declaring its states told no problem. -/
theorem wellFormed_of_ofForest {forest : Forest} {outline : Outline}
    (h : ofForest forest = .ok outline)
    : outline.WellFormed := by
  obtain ⟨told, rfl⟩ := ofForest_eq_ok h
  obtain ⟨_, free, distinct⟩ := Forest.declare_free told
  refine ⟨?_, List.mem_cons_self, ?_⟩
  · simp only [names, List.map_cons, Forest.map_name_entries]
    exact List.nodup_cons.mpr ⟨fun member => (free rootName member).2 (by simp), distinct⟩
  · intro entry member
    refine (List.mem_cons.mp member).imp_right (fun member => ?_)
    obtain ⟨parent, rest, equal, ⟨rfl, rfl⟩ | linked⟩ := Forest.entries_linked member
    · exact ⟨rootName, [], equal, List.mem_cons_self⟩
    · exact ⟨parent, rest, equal, List.mem_cons_of_mem _ linked⟩

namespace WellFormed

variable {outline : Outline}

/-- An entry is the one that its name is looked up as: no other entry has the name. -/
theorem entry?_eq (wf : outline.WellFormed) {entry : Entry} (member : entry ∈ outline.entries)
    : outline.entry? entry.name = some entry := by
  cases hf : outline.entry? entry.name with
  | none => exact absurd (decide_eq_true rfl) (List.find?_eq_none.mp hf entry member)
  | some found =>
      have same : found.name = entry.name := by simpa using List.find?_some hf
      rw [List.inj_on_of_nodup_map wf.distinct (List.mem_of_find?_eq_some hf) member same]

/-- The states around a known state are those of its entry. -/
theorem enclosing_eq (wf : outline.WellFormed) {name : String} {around : List String}
    (member : ⟨name, around⟩ ∈ outline.entries)
    : outline.enclosing name = around := by
  rw [enclosing, wf.entry?_eq member, Option.map_some, Option.getD_some]

theorem enclosing_root (wf : outline.WellFormed) : outline.enclosing rootName = [] :=
  wf.enclosing_eq wf.root

/-- A known state has an entry with the states around it. -/
theorem entry_of_has (wf : outline.WellFormed) {name : String} (h : outline.has name = true)
    : ⟨name, outline.enclosing name⟩ ∈ outline.entries := by
  obtain ⟨⟨found, around⟩, hf⟩ := Option.isSome_iff_exists.mp h
  have member := List.mem_of_find?_eq_some hf
  obtain rfl : found = name := by simpa using List.find?_some hf
  rwa [wf.enclosing_eq member]

theorem has_of_entry (wf : outline.WellFormed) {name : String} {around : List String}
    (member : ⟨name, around⟩ ∈ outline.entries)
    : outline.has name = true := by
  rw [has, wf.entry?_eq member, Option.isSome_some]

theorem has_root (wf : outline.WellFormed) : outline.has rootName = true :=
  wf.has_of_entry wf.root

/-- The state directly around a state has an entry with what stands around it. -/
theorem parent_entry (wf : outline.WellFormed) {name parent : String} {rest : List String}
    (member : ⟨name, parent :: rest⟩ ∈ outline.entries)
    : ⟨parent, rest⟩ ∈ outline.entries := by
  rcases wf.linked _ member with equal | ⟨_, _, equal, linked⟩
  · simp at equal
  · obtain ⟨rfl, rfl⟩ := List.cons.inj equal
    exact linked

/-- The list around an entry goes on from any state in it as that state's own list; by
induction on the list, one parent at a time.
-/
theorem around_split (wf : outline.WellFormed) {around : List String} {name outer : String}
    (member : ⟨name, around⟩ ∈ outline.entries) (inside : outer ∈ around)
    : ∃ inner, around = inner ++ outer :: outline.enclosing outer := by
  induction around generalizing name with
  | nil => simp at inside
  | cons parent rest ih =>
      have linked := wf.parent_entry member
      rcases List.mem_cons.mp inside with rfl | inside
      · exact ⟨[], by rw [wf.enclosing_eq linked, List.nil_append]⟩
      · obtain ⟨inner, equal⟩ := ih linked inside
        exact ⟨parent :: inner, by rw [List.cons_append, ← equal]⟩

/-- A state with others around it is known. -/
theorem has_of_mem_enclosing {outer name : String} (h : outer ∈ outline.enclosing name)
    : outline.has name = true := by
  cases hf : outline.entry? name with
  | none => simp [enclosing, hf] at h
  | some entry => rw [has, hf, Option.isSome_some]

/-- Containment only asks for the states around a state: the comparison of depths that comes
before it never rules out one of them.
-/
theorem contains_iff (wf : outline.WellFormed) {outer name : String}
    : outline.contains outer name = true ↔ outer ∈ outline.enclosing name := by
  simp only [contains, Bool.and_eq_true, decide_eq_true_eq, List.contains_iff_mem,
    and_iff_right_iff_imp]
  intro member
  obtain ⟨inner, equal⟩ :=
    wf.around_split (wf.entry_of_has (has_of_mem_enclosing member)) member
  simp only [depth, equal, List.length_append, List.length_cons]
  omega

theorem contains_trans (wf : outline.WellFormed) {outer middle name : String}
    (ho : outline.contains outer middle = true) (hm : outline.contains middle name = true)
    : outline.contains outer name = true := by
  rw [wf.contains_iff] at *
  obtain ⟨inner, equal⟩ := wf.around_split (wf.entry_of_has (has_of_mem_enclosing hm)) hm
  simp [equal, ho]

theorem has_of_contains (wf : outline.WellFormed) {outer name : String}
    (h : outline.contains outer name = true)
    : outline.has name = true :=
  has_of_mem_enclosing (wf.contains_iff.mp h)

/-- Nothing contains the root. -/
theorem not_contains_root (wf : outline.WellFormed) (outer : String)
    : ¬ outline.contains outer rootName = true := by
  simp [wf.contains_iff, wf.enclosing_root]

/-- On the way to the root every state lies inside those after it; by induction on the list
around an entry.
-/
theorem around_pairwise (wf : outline.WellFormed) {around : List String} {name : String}
    (member : ⟨name, around⟩ ∈ outline.entries)
    : around.Pairwise (fun inner outer => outline.contains outer inner = true) := by
  induction around generalizing name with
  | nil => exact .nil
  | cons parent rest ih =>
      have linked := wf.parent_entry member
      refine List.pairwise_cons.mpr ⟨fun outer inside => ?_, ih linked⟩
      exact wf.contains_iff.mpr (by rwa [wf.enclosing_eq linked])

theorem enclosing_pairwise (wf : outline.WellFormed) (name : String)
    : (outline.enclosing name).Pairwise
        (fun inner outer => outline.contains outer inner = true) := by
  cases hf : outline.entry? name with
  | none => simp [enclosing, hf]
  | some entry => exact wf.around_pairwise (wf.entry_of_has (by rw [has, hf, Option.isSome_some]))

/-- The root contains every other state; by induction on the list around its entry. -/
theorem root_mem_around (wf : outline.WellFormed) {around : List String} {name : String}
    (member : ⟨name, around⟩ ∈ outline.entries)
    : name = rootName ∨ rootName ∈ around := by
  induction around generalizing name with
  | nil =>
      rcases wf.linked _ member with equal | ⟨_, _, equal, _⟩
      · exact Or.inl (congrArg Entry.name equal)
      · simp at equal
  | cons parent rest ih =>
      rcases ih (wf.parent_entry member) with rfl | inside
      · exact Or.inr List.mem_cons_self
      · exact Or.inr (List.mem_cons_of_mem _ inside)

theorem contains_root (wf : outline.WellFormed) {name : String}
    (known : outline.has name = true) (inner : name ≠ rootName)
    : outline.contains rootName name = true :=
  wf.contains_iff.mpr ((wf.root_mem_around (wf.entry_of_has known)).resolve_left inner)

-----------------------------------------------------------------------------------------
-- Leaves and compound states
-----------------------------------------------------------------------------------------

/-- A state is compound when it stands directly around another. -/
theorem isCompound_iff {state : String}
    : outline.isCompound state = true
      ↔ ∃ entry ∈ outline.entries, entry.enclosing.head? = some state := by
  simp [isCompound, isLeaf, children]

/-- A state around an entry stands directly around some entry; by induction on the list. -/
theorem isCompound_of_mem_around (wf : outline.WellFormed) {around : List String}
    {name outer : String} (member : ⟨name, around⟩ ∈ outline.entries) (inside : outer ∈ around)
    : outline.isCompound outer = true := by
  induction around generalizing name with
  | nil => simp at inside
  | cons parent rest ih =>
      rcases List.mem_cons.mp inside with rfl | inside
      · exact isCompound_iff.mpr ⟨_, member, rfl⟩
      · exact ih (wf.parent_entry member) inside

/-- A state that contains another is known and compound. -/
theorem compound_of_contains (wf : outline.WellFormed) {outer name : String}
    (h : outline.contains outer name = true)
    : outline.has outer = true ∧ outline.isCompound outer = true := by
  have inside := wf.contains_iff.mp h
  have member := wf.entry_of_has (has_of_mem_enclosing inside)
  have compound := wf.isCompound_of_mem_around member inside
  obtain ⟨⟨child, around⟩, childMember, head⟩ := isCompound_iff.mp compound
  cases around with
  | nil => simp at head
  | cons parent rest =>
      obtain rfl : parent = outer := by simpa using head
      exact ⟨wf.has_of_entry (wf.parent_entry childMember), compound⟩

/-- A compound state is known: the entry of a state directly inside it links to its own. -/
theorem has_of_isCompound (wf : outline.WellFormed) {state : String}
    (h : outline.isCompound state = true)
    : outline.has state = true := by
  obtain ⟨⟨child, around⟩, member, head⟩ := isCompound_iff.mp h
  cases around with
  | nil => simp at head
  | cons parent rest =>
      obtain rfl : parent = state := by simpa using head
      exact wf.has_of_entry (wf.parent_entry member)

/-- The root of an outline with other states is compound: of two entries with different names
one is inside the root.
-/
theorem isCompound_root (wf : outline.WellFormed) (h : outline.isEmpty = false)
    : outline.isCompound rootName = true := by
  obtain ⟨entry, member, inner⟩ : ∃ entry ∈ outline.entries, entry.name ≠ rootName := by
    have distinct := wf.distinct
    simp only [isEmpty, size, beq_eq_false_iff_ne] at h
    match he : outline.entries with
    | [] => simpa [he] using wf.root
    | [_] => simp [he] at h
    | first :: second :: others =>
        have apart : first.name ≠ second.name := by
          simp only [names, he, List.map_cons, List.nodup_cons, List.mem_cons, not_or] at distinct
          exact distinct.1.1
        by_cases isRoot : first.name = rootName
        · exact ⟨second, by simp, fun same => apart (isRoot.trans same.symm)⟩
        · exact ⟨first, by simp, isRoot⟩
  exact (wf.compound_of_contains (wf.contains_root (wf.has_of_entry member) inner)).2

/-- Taking the states around a state up to the first that contains another, or the root,
takes all that do not contain the other, but never the root: a state that contains the other
lies inside all states that come later.
-/
theorem mem_takeWhile_enclosing (wf : outline.WellFormed) {name other outer : String}
    : outer ∈ (outline.enclosing name).takeWhile
          (fun outer => outer ≠ rootName && !outline.contains outer other)
      ↔ outer ≠ rootName
        ∧ outline.contains outer name = true
        ∧ outline.contains outer other = false := by
  have early {inner outer : String} (h : outline.contains outer inner = true)
      : (outer ≠ rootName && !outline.contains outer other) = true
        → (inner ≠ rootName && !outline.contains inner other) = true := by
    simp only [Bool.and_eq_true, decide_eq_true_eq, Bool.not_eq_true']
    rintro ⟨_, free⟩
    refine ⟨?_, Bool.eq_false_iff.mpr fun inside => ?_⟩
    · rintro rfl
      exact wf.not_contains_root _ h
    · exact Bool.eq_false_iff.mp free (wf.contains_trans h inside)
  rw [mem_takeWhile_iff_of_pairwise (wf.enclosing_pairwise name) early, ← wf.contains_iff]
  simp only [Bool.and_eq_true, decide_eq_true_eq, Bool.not_eq_true']
  tauto

end WellFormed

end Outline

end Statechart
