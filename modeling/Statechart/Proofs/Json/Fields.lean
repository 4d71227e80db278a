import Mathlib.Data.List.Nodup
import Statechart.Proofs.Fallible
import Statechart.Proofs.Json.Rereading

/-! Records written as objects. What a reader finds of each field decides what an object says as a
record, whatever the order of its members and whatever other members there are. Leaving out what no
reader looks at gives an object that says the same.
-/

namespace Statechart

namespace Json

def isNull : Json → Bool
  | .null => true
  | _ => false

def isObject : Json → Bool
  | .object _ => true
  | _ => false

theorem exists_members_of_isObject {document : Json} (object : document.isObject = true)
    : ∃ members, document = .object members := by
  cases document <;> cases object
  exact ⟨_, rfl⟩

/-- The items of the array that a member of an object is; none if there is no such array. -/
def itemsUnder (name : String) : Json → List Json
  | .object members => ((members.lookup name).bind items?).getD []
  | _ => []

namespace Record

/-- The members that write the fields of a record. Those that are absent are left out. -/
def written (fields : List (String × Option Json)) : List (String × Json) :=
  fields.filterMap (fun (name, value) => value.map (name, ·))

/-- The members that a reader of some fields looks at: those of the fields, unless null. -/
def given (names : List String) (members : List (String × Json)) : List (String × Json) :=
  members.filter (fun (name, value) => names.contains name && !value.isNull)

/-- The document of a record without members that are null or belong to none of its fields, and with
the others changed by name.
-/
def bare (names : List String) (change : String → Json → Json) : Json → Json
  | .object members =>
      .object ((given names members).map (fun (name, value) => (name, change name value)))
  | other => other

-----------------------------------------------------------------------------------------
-- What a reader finds of a field
-----------------------------------------------------------------------------------------

section Field

variable {α β : Type} {members : List (String × α)} {name : String} {value : Option α}

/-- A field is found when it is the only member with its name, or absent when there is none. -/
theorem field?_eq_some_iff
    : field? members name = some value
      ↔ members.filter (fun member => member.1 = name) = (value.map (name, ·)).toList := by
  have named {member : String × α}
      (found : member ∈ members.filter (fun member => member.1 = name))
      : member.1 = name := by
    simpa using (List.mem_filter.mp found).2
  rw [field?]
  split
  · rename_i none
    cases value <;> simp [none]
  · rename_i member only
    obtain rfl := named (only ▸ List.mem_singleton_self member)
    cases value <;> simp [only, Prod.ext_iff]
  · rename_i none several
    constructor
    · intro found
      cases found
    · intro found
      cases value with
      | none => exact absurd found none
      | some value => exact absurd found (several _)

theorem field?_of_notMem (absent : name ∉ members.map (·.1))
    : field? members name = some none := by
  refine field?_eq_some_iff.mpr (List.filter_eq_nil_iff.mpr ?_)
  intro member listed named
  exact absent (List.mem_map.mpr ⟨member, listed, of_decide_eq_true named⟩)

/-- The value of a key is that of the first member with the key. -/
theorem lookup_eq_head? (members : List (String × α)) (name : String)
    : members.lookup name
      = (members.filter (fun member => member.1 = name)).head?.map (·.2) := by
  induction members with
  | nil => rfl
  | cons first rest ih =>
      obtain ⟨other, old⟩ := first
      rw [lookup_cons_eq, List.filter_cons, ih]
      by_cases same : other = name
      · simp [same]
      · simp [same, Ne.symm same]

theorem lookup_of_field? (found : field? members name = some value)
    : members.lookup name = value := by
  rw [lookup_eq_head?, field?_eq_some_iff.mp found]
  cases value <;> rfl

theorem mem_of_field? (found : field? members name = some value) {content : α}
    : (name, content) ∈ members ↔ value = some content := by
  have listed : (name, content) ∈ members
      ↔ (name, content) ∈ members.filter (fun member => member.1 = name) := by
    simp [List.mem_filter]
  rw [listed, field?_eq_some_iff.mp found]
  cases value <;> simp [eq_comm]

theorem mem_map_fst_iff (found : field? members name = some value)
    : name ∈ members.map (·.1) ↔ value.isSome := by
  simp [mem_of_field? found, Option.isSome_iff_exists]

/-- Fields that are all found, or absent, are all different. -/
theorem nodup_of_field? {find : String → Option α}
    (found : ∀ name, field? members name = some (find name))
    : (members.map (·.1)).Nodup := by
  rw [List.nodup_iff_count_le_one]
  intro name
  have counted : (members.map (·.1)).count name
      = (members.filter (fun member => member.1 = name)).length := by
    rw [List.count, List.countP_map, List.countP_eq_length_filter]
    rfl
  rw [counted, field?_eq_some_iff.mp (found name)]
  cases find name <;> simp

theorem field?_map {change : String → α → β} (found : field? members name = some value)
    : field? (members.map (fun (name, value) => (name, change name value))) name
      = some (value.map (change name)) := by
  have filtered := field?_eq_some_iff.mp found
  rw [field?_eq_some_iff, List.filter_map]
  simp only [Function.comp_def, filtered]
  cases value <;> rfl

/-- The fields that are written are found as they were. -/
theorem field?_written {fields : List (String × Option Json)} {field : Option (Option Json)}
    (found : field? fields name = some field)
    : field? (written fields) name = some field.join := by
  have filtered : (written fields).filter (fun member => member.1 = name)
      = written (fields.filter (fun member => member.1 = name)) := by
    rw [written, written, List.filter_filterMap, List.filterMap_filter]
    refine List.filterMap_congr ?_
    intro (other, value) _
    cases value <;> by_cases same : other = name <;> simp [same]
  rw [field?_eq_some_iff, filtered, field?_eq_some_iff.mp found]
  obtain _ | _ | value := field <;> rfl

end Field

/-- What a field has to be read: nothing if it is absent or null. -/
def present : Option Json → Option Json
  | some .null => none
  | field => field

theorem eq_of_present {field : Option Json} {value : Json} (there : present field = some value)
    : field = some value := by
  obtain _ | value := field
  · cases there
  · cases value <;> cases there <;> rfl

section Given

variable {names : List String} {members : List (String × Json)} {name : String}

theorem field?_given {value : Option Json} (listed : name ∈ names)
    (found : field? members name = some value)
    : field? (given names members) name = some (present value) := by
  rw [field?_eq_some_iff, given, List.filter_comm, field?_eq_some_iff.mp found]
  obtain _ | value := value
  · rfl
  · cases value <;> simp [present, isNull, listed]

theorem field?_given_other (other : name ∉ names)
    : field? (given names members) name = some none := by
  apply field?_of_notMem
  intro listed
  obtain ⟨member, found, rfl⟩ := List.mem_map.mp listed
  simp only [given, List.mem_filter, Bool.and_eq_true, List.contains_iff_mem] at found
  exact other found.2.1

end Given

end Record

theorem itemsUnder_of_field? {members : List (String × Json)} {name : String}
    {field : Option Json} (found : Record.field? members name = some field)
    : itemsUnder name (.object members) = (field.bind items?).getD [] := by
  rw [itemsUnder, Record.lookup_of_field? found]

/-- An optional field is read from what it has to be read. -/
theorem rel_of_optional? {α : Type} {read : Json → Option α} {field : Option Json}
    {result : Option α} (found : optional? read field = some result)
    : Option.Rel (fun value content => read value = some content) (Record.present field)
        result := by
  rcases field with _ | value
  · cases found
    exact .none
  · cases value with
    | null =>
        cases found
        exact .none
    | _ =>
        obtain ⟨content, given, rfl⟩ := Option.map_eq_some_iff.mp found
        exact .some given

-----------------------------------------------------------------------------------------
-- Documents that are the same
-----------------------------------------------------------------------------------------

theorem same_string (text : String) : same (.string text) (.string text) = true := by
  simp [same]

theorem sameItems_iff {items others : List Json}
    : sameItems items others = true
      ↔ List.Forall₂ (fun item other => same item other = true) items others := by
  induction items generalizing others with
  | nil => cases others <;> simp [sameItems]
  | cons item items ih => cases others <;> simp [sameItems, ih]

/-- Values read from items are written as what is left of the items, if each of them is. -/
theorem same_array {α : Type} {read : Json → Option α} {write : α → Json} {rest : Json → Json}
    {items : List Json} {values : List α} (found : items.mapM read = some values)
    (each
      : ∀ item ∈ items, ∀ value, read item = some value → same (write value) (rest item) = true)
    : same (.array (values.map write)) (.array (items.map rest)) = true := by
  have pairs := (List.forall₂_and_left _ _).mpr ⟨each, mapM_eq_some_iff.mp found⟩
  rw [same, sameItems_iff, List.forall₂_map_left_iff, List.forall₂_map_right_iff]
  exact (pairs.imp fun item value ⟨written, found⟩ => written value found).flip

theorem sameMembers_iff {members others : List (String × Json)}
    : sameMembers members others = true
      ↔ ∀ member ∈ members,
          ∃ other, others.lookup member.1 = some other ∧ same member.2 other = true := by
  induction members with
  | nil => simp [sameMembers]
  | cons member members ih =>
      obtain ⟨key, value⟩ := member
      cases found : others.lookup key <;> simp [sameMembers, ih, found]

/-- Objects are the same when a reader finds the same of each field in both. -/
theorem same_object {members others : List (String × Json)} {find find' : String → Option Json}
    (found : ∀ name, Record.field? members name = some (find name))
    (found' : ∀ name, Record.field? others name = some (find' name))
    (alike : ∀ name, Option.Rel (same · · = true) (find name) (find' name))
    : same (.object members) (.object others) = true := by
  have listed (name : String) : name ∈ members.map (·.1) ↔ name ∈ others.map (·.1) := by
    rw [Record.mem_map_fst_iff (found name), Record.mem_map_fst_iff (found' name)]
    have alike := alike name
    generalize find name = here at alike
    generalize find' name = there at alike
    cases alike <;> simp
  have length : members.length = others.length := by
    have perm := (List.perm_ext_iff_of_nodup (Record.nodup_of_field? found)
      (Record.nodup_of_field? found')).mpr listed
    simpa using perm.length_eq
  have counterparts : sameMembers members others = true := by
    rw [sameMembers_iff]
    intro (name, value) member
    have alike := alike name
    rw [(Record.mem_of_field? (found name)).mp member] at alike
    obtain ⟨other, whole, same⟩ : ∃ other, find' name = some other ∧ same value other := by
      generalize find' name = there at alike
      cases alike with
      | some same => exact ⟨_, rfl, same⟩
    exact ⟨other, whole ▸ Record.lookup_of_field? (found' name), same⟩
  simp [same, length, counterparts]

/-- What a record writes is what is left of an object in which its reader finds the same of each
field.
-/
theorem same_bare {fields : List (String × Option Json)} {change : String → Json → Json}
    {members : List (String × Json)} (distinct : (fields.map (·.1)).Nodup)
    (found
      : ∀ field ∈ fields,
          ∃ value,
            Record.field? members field.1 = some value
            ∧ Option.Rel (same · · = true) field.2
                ((Record.present value).map (change field.1)))
    : same (.object (Record.written fields))
          (Record.bare (fields.map (·.1)) change (.object members))
        = true := by
  have both (name : String) : ∃ here there,
      Record.field? (Record.written fields) name = some here
      ∧ Record.field?
            ((Record.given (fields.map (·.1)) members).map
              (fun (name, value) => (name, change name value)))
            name
          = some there
      ∧ Option.Rel (same · · = true) here there := by
    by_cases listed : name ∈ fields.map (·.1)
    · obtain ⟨field, isField, rfl⟩ := List.mem_map.mp listed
      obtain ⟨value, there, alike⟩ := found field isField
      have here := Record.field?_written (Raw.field?_of_mem distinct isField)
      exact ⟨_, _, here, Record.field?_map (Record.field?_given listed there), alike⟩
    · have here := Record.field?_written (Record.field?_of_notMem listed)
      exact ⟨_, _, here, Record.field?_map (Record.field?_given_other listed), .none⟩
  choose find find' here there alike using both
  exact same_object here there alike

end Json

end Statechart
