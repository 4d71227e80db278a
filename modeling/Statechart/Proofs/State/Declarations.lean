import Statechart.Proofs.Fallible
import Statechart.Proofs.State.Rereading

/-! Trees of states and the documents that declare them. Each member of an object declares a state
that is called like its key, and its value declares what lies inside the state. Null, an empty text
and an empty object all declare nothing. The tree that is read has the keys of the document as its
names, and is written as the document with nothing in one spelling.
-/

namespace Statechart

namespace Json

/-- A document in which no object repeats a key. -/
inductive Keyed : Json → Prop
  | null : Keyed .null
  | bool (value) : Keyed (.bool value)
  | number (value) : Keyed (.number value)
  | string (text) : Keyed (.string text)
  | array {items} (each : ∀ item ∈ items, Keyed item) : Keyed (.array items)
  | object {members} (distinct : (members.map (·.1)).Nodup)
    (each : ∀ member ∈ members, Keyed member.2)
    : Keyed (.object members)

theorem Keyed.members {members : List (String × Json)} (keyed : Keyed (.object members))
    : (members.map (·.1)).Nodup ∧ ∀ member ∈ members, Keyed member.2 := by
  cases keyed with
  | object distinct each => exact ⟨distinct, each⟩

mutual
/-- The keys of an object and of the objects inside it, each before those in its value. -/
def keys : Json → List String
  | .object members => membersKeys members
  | _ => []

def membersKeys : List (String × Json) → List String
  | [] => []
  | (name, value) :: members => name :: keys value ++ membersKeys members
end

end Json

namespace Forest

-----------------------------------------------------------------------------------------
-- Documents of states
-----------------------------------------------------------------------------------------

/-- A document of what lies inside a state: null, an empty text, or an object of such documents. -/
inductive Readable : Json → Prop
  | null : Readable .null
  | empty : Readable (.string "")
  | object {members} (each : ∀ member ∈ members, Readable member.2) : Readable (.object members)

/-- A document that declares nothing. -/
inductive Vacant : Json → Prop
  | null : Vacant .null
  | empty : Vacant (.string "")
  | object : Vacant (.object [])

mutual
/-- A document of what lies inside a state, where an empty text declares nothing. -/
def respelledInside : Json → Json
  | .null => .string ""
  | .object members =>
      if members.isEmpty then .string "" else .object (respelledMembers members)
  | other => other

def respelledMembers : List (String × Json) → List (String × Json)
  | [] => []
  | (name, value) :: members => (name, respelledInside value) :: respelledMembers members
end

/-- A document of all states with nothing in one spelling: an empty object for the whole of it, and
an empty text anywhere below.
-/
def respelled : Json → Json
  | .null => .object []
  | .string text => if text = "" then .object [] else .string text
  | .object members => .object (respelledMembers members)
  | other => other

/-- States that members declare, one by one: a leaf when its value declares nothing, and else a
compound state.
-/
inductive Declares : List (String × Json) → Forest → Prop
  | nil : Declares [] .nil
  | leaf {name value members rest} (vacant : Vacant value) (after : Declares members rest)
    : Declares ((name, value) :: members) (.leaf name rest)
  | compound {name inner inside members rest} (some : inside ≠ .nil)
    (within : Declares inner inside) (after : Declares members rest)
    : Declares ((name, .object inner) :: members) (.compound name inside rest)

-----------------------------------------------------------------------------------------
-- The reader finds what is declared
-----------------------------------------------------------------------------------------

section Reading

variable {name : String} {value : Json} {members : List (String × Json)} {forest : Forest}

/-- A state around others is a compound state. -/
theorem state_of_ne_nil {inside : Forest} (some : inside ≠ .nil) (name : String) (rest : Forest)
    : state name inside rest = .compound name inside rest := by
  cases inside with
  | nil => exact absurd rfl some
  | leaf => rfl
  | compound => rfl

theorem inside_eq_ok_iff
    : inside name value = .ok forest
      ↔ (value = .null ∨ value = .string "") ∧ forest = .nil
        ∨ ∃ members, value = .object members ∧ ofMembers members = .ok forest := by
  cases value with
  | null => simp [inside, eq_comm]
  | string text =>
      by_cases empty : text = ""
      · simp [inside, empty, eq_comm]
      · simp [inside, empty]
  | object members => simp [inside]
  | bool | number | array => simp [inside]

theorem ofMembers_cons_eq_ok_iff
    : ofMembers ((name, value) :: members) = .ok forest
      ↔ ∃ inner rest,
          inside name value = .ok inner
          ∧ ofMembers members = .ok rest
          ∧ state name inner rest = forest := by
  simp only [ofMembers, bind_eq_ok_iff, pure, Except.pure, Except.ok.injEq, exists_and_left]

/-- States are read from members only. -/
theorem ofMembers_eq_nil (read : ofMembers members = .ok .nil) : members = [] := by
  cases members with
  | nil => rfl
  | cons member members =>
      obtain ⟨inner, rest, _, _, same⟩ := ofMembers_cons_eq_ok_iff.mp read
      cases inner <;> cases same

theorem inside_eq_nil_iff : inside name value = .ok .nil ↔ Vacant value := by
  constructor
  · intro read
    rcases inside_eq_ok_iff.mp read with ⟨rfl | rfl, _⟩ | ⟨members, rfl, read⟩
    · exact .null
    · exact .empty
    · rw [ofMembers_eq_nil read]
      exact .object
  · intro vacant
    cases vacant <;> rfl

/-- What is read from members is what they declare; one way by induction on the forest, the other
on how it is declared.
-/
theorem ofMembers_eq_ok_iff : ofMembers members = .ok forest ↔ Declares members forest := by
  constructor
  · intro read
    induction forest generalizing members with
    | nil =>
        rw [ofMembers_eq_nil read]
        exact .nil
    | leaf name rest ih =>
        cases members with
        | nil => cases read
        | cons member members =>
            obtain ⟨inner, others, readInner, readOthers, same⟩ := ofMembers_cons_eq_ok_iff.mp read
            cases inner <;> cases same
            exact .leaf (inside_eq_nil_iff.mp readInner) (ih readOthers)
    | compound name within rest ihInside ihRest =>
        cases members with
        | nil => cases read
        | cons member members =>
            obtain ⟨key, value⟩ := member
            obtain ⟨inner, others, readInner, readOthers, same⟩ := ofMembers_cons_eq_ok_iff.mp read
            have some : inner ≠ .nil := by
              intro none
              subst none
              cases same
            rw [state_of_ne_nil some] at same
            cases same
            rcases inside_eq_ok_iff.mp readInner with ⟨_, none⟩ | ⟨own, rfl, readOwn⟩
            · exact absurd none some
            · exact .compound some (ihInside readOwn) (ihRest readOthers)
  · intro declares
    induction declares with
    | nil => rfl
    | leaf vacant _ ih =>
        exact ofMembers_cons_eq_ok_iff.mpr ⟨_, _, inside_eq_nil_iff.mpr vacant, ih, rfl⟩
    | compound some _ _ ihInside ihRest =>
        exact ofMembers_cons_eq_ok_iff.mpr ⟨_, _, ihInside, ihRest, state_of_ne_nil some _ _⟩

/-- The tree of a document: none for nothing, and otherwise what its members declare. -/
theorem ofJson_eq_ok_iff {document : Json}
    : ofJson document = .ok forest
      ↔ (document = .null ∨ document = .string "") ∧ forest = .nil
        ∨ ∃ members, document = .object members ∧ Declares members forest := by
  simp only [ofJson, inside_eq_ok_iff, ofMembers_eq_ok_iff]

end Reading

-----------------------------------------------------------------------------------------
-- Which documents are read
-----------------------------------------------------------------------------------------

theorem Vacant.readable {value : Json} (vacant : Vacant value) : Readable value := by
  cases vacant with
  | null => exact .null
  | empty => exact .empty
  | object => exact .object (List.forall_mem_nil _)

theorem Declares.readable {members : List (String × Json)} {forest : Forest}
    (declares : Declares members forest)
    : ∀ member ∈ members, Readable member.2 := by
  induction declares with
  | nil => exact List.forall_mem_nil _
  | leaf vacant _ ih => exact List.forall_mem_cons.mpr ⟨vacant.readable, ih⟩
  | compound _ _ _ ihInside ihRest =>
      exact List.forall_mem_cons.mpr ⟨.object ihInside, ihRest⟩

/-- Members are read one by one; by induction on the list. -/
theorem exists_ofMembers {members : List (String × Json)}
    (each : ∀ member ∈ members, ∀ name, ∃ forest, inside name member.2 = .ok forest)
    : ∃ forest, ofMembers members = .ok forest := by
  induction members with
  | nil => exact ⟨.nil, rfl⟩
  | cons member members ih =>
      obtain ⟨name, value⟩ := member
      obtain ⟨first, others⟩ := List.forall_mem_cons.mp each
      obtain ⟨inner, readInner⟩ := first name
      obtain ⟨rest, readRest⟩ := ih others
      exact ⟨_, ofMembers_cons_eq_ok_iff.mpr ⟨inner, rest, readInner, readRest, rfl⟩⟩

theorem Readable.exists_inside {value : Json} (readable : Readable value) (name : String)
    : ∃ forest, inside name value = .ok forest := by
  induction readable generalizing name with
  | null => exact ⟨.nil, rfl⟩
  | empty => exact ⟨.nil, rfl⟩
  | object _ ih => exact exists_ofMembers ih

theorem exists_ofJson_iff {document : Json}
    : (∃ forest, ofJson document = .ok forest) ↔ Readable document := by
  constructor
  · intro ⟨forest, read⟩
    rcases ofJson_eq_ok_iff.mp read with ⟨rfl | rfl, _⟩ | ⟨members, rfl, declares⟩
    · exact .null
    · exact .empty
    · exact .object declares.readable
  · intro readable
    exact readable.exists_inside rootName

-----------------------------------------------------------------------------------------
-- What is read
-----------------------------------------------------------------------------------------

section Declared

variable {members : List (String × Json)} {forest : Forest}

theorem Vacant.keys_eq {value : Json} (vacant : Vacant value) : value.keys = [] := by
  cases vacant <;> rfl

theorem Vacant.respelledInside_eq {value : Json} (vacant : Vacant value)
    : respelledInside value = .string "" := by
  cases vacant <;> rfl

namespace Declares

/-- The keys are the names. -/
theorem names_eq (declares : Declares members forest)
    : forest.names = Json.membersKeys members := by
  induction declares with
  | nil => rfl
  | leaf vacant _ ih => simp [names, Json.membersKeys, vacant.keys_eq, ih]
  | compound _ _ _ ihInside ihRest =>
      simp [names, Json.membersKeys, Json.keys, ihInside, ihRest]

theorem siblings_eq (declares : Declares members forest)
    : forest.siblings = members.map (·.1) := by
  induction declares with
  | nil => rfl
  | leaf _ _ ih => simpa [siblings, top] using ih
  | compound _ _ _ _ ih => simpa [siblings, top] using ih

/-- States of one level have different names if no object repeats a key. -/
theorem distinct (declares : Declares members forest) (keyed : Json.Keyed (.object members))
    : forest.Distinct := by
  induction declares with
  | nil => trivial
  | leaf _ after ih =>
      obtain ⟨different, each⟩ := keyed.members
      obtain ⟨absent, different⟩ := List.nodup_cons.mp different
      rw [← after.siblings_eq] at absent
      exact ⟨absent, ih (.object different (List.forall_mem_cons.mp each).2)⟩
  | compound _ _ after ihInside ihRest =>
      obtain ⟨different, each⟩ := keyed.members
      obtain ⟨absent, different⟩ := List.nodup_cons.mp different
      obtain ⟨own, others⟩ := List.forall_mem_cons.mp each
      rw [← after.siblings_eq] at absent
      exact ⟨absent, ihInside own, ihRest (.object different others)⟩

/-- The states are written as the members with nothing in one spelling; by induction on how they are
declared.
-/
theorem members_eq (declares : Declares members forest) (distinct : forest.Distinct)
    : forest.members = respelledMembers members := by
  induction declares with
  | nil => rfl
  | leaf vacant _ ih =>
      rw [Forest.members, respelledMembers, vacant.respelledInside_eq, ih distinct.2]
  | compound some within _ ihInside ihRest =>
      obtain ⟨_, distinctInside, distinctRest⟩ := distinct
      rw [Forest.members, respelledMembers, respelledInside, distinctInside.collect_members,
        ihInside distinctInside, ihRest distinctRest, if_neg]
      intro none
      rw [List.isEmpty_iff.mp none] at within
      cases within
      exact some rfl

end Declares

theorem names_of_ofJson {document : Json} (read : ofJson document = .ok forest)
    : forest.names = document.keys := by
  rcases ofJson_eq_ok_iff.mp read with ⟨rfl | rfl, rfl⟩ | ⟨members, rfl, declares⟩
  · rfl
  · rfl
  · exact declares.names_eq

theorem json_of_ofJson {document : Json} (read : ofJson document = .ok forest)
    (keyed : document.Keyed)
    : forest.json = respelled document := by
  rcases ofJson_eq_ok_iff.mp read with ⟨rfl | rfl, rfl⟩ | ⟨members, rfl, declares⟩
  · rfl
  · rfl
  · have distinct := declares.distinct keyed
    rw [json, distinct.collect_members, declares.members_eq distinct, respelled]

end Declared

/-- A tree whose siblings have different names and whose compound states have something inside them
is read back from its document, which is the one that is written state by state. A tree is read from
just those documents in which everything is nothing or an object. It has the keys of the document as
its names and, if no object repeats a key, is written as the document with nothing in one spelling.
-/
theorem trees_survive_documents
    : (∀ forest : Forest,
        forest.Distinct
        → forest.Filled
        → ofJson forest.json = .ok forest ∧ forest.writtenJson = forest.json)
      ∧ (∀ document, (∃ forest, ofJson document = .ok forest) ↔ Readable document)
      ∧ ∀ document forest,
          ofJson document = .ok forest
          → forest.names = document.keys
            ∧ (document.Keyed → forest.json = respelled document) := by
  refine ⟨?_, fun document => exists_ofJson_iff, ?_⟩
  · intro forest distinct filled
    refine ⟨ofJson_json distinct filled, ?_⟩
    rw [writtenJson, json, distinct.collect_members]
  · intro document forest read
    exact ⟨names_of_ofJson read, json_of_ofJson read⟩

/-- A drawer that is locked or not while it is shut. -/
def drawer : Forest :=
  .compound "shut" (.leaf "locked" (.leaf "unlocked" .nil)) (.leaf "open" .nil)

/-- The drawer with nothing in three spellings. -/
def drawerDocument : Json :=
  .object
    [("shut", .object [("locked", .null), ("unlocked", .object [])]), ("open", .string "")]

theorem keyed_drawerDocument : drawerDocument.Keyed := by
  have inside : Json.Keyed (.object [("locked", .null), ("unlocked", .object [])]) :=
    .object (by decide) (by simp [Json.Keyed.null, Json.Keyed.object])
  exact .object (by decide) (by simp [inside, Json.Keyed.string])

theorem drawer_survives
    : drawer.Distinct
      ∧ drawer.Filled
      ∧ ofJson drawer.json = .ok drawer
      ∧ Readable drawerDocument
      ∧ ofJson drawerDocument = .ok drawer
      ∧ drawer.names = drawerDocument.keys
      ∧ drawer.json = respelled drawerDocument := by
  obtain ⟨back, readable, told⟩ := trees_survive_documents
  have distinct : drawer.Distinct := by decide
  have filled : drawer.Filled := by decide
  have read : ofJson drawerDocument = .ok drawer := rfl
  obtain ⟨names, written⟩ := told drawerDocument drawer read
  exact ⟨distinct, filled, (back drawer distinct filled).1, (readable _).mp ⟨_, read⟩, read, names,
    written keyed_drawerDocument⟩

end Forest

end Statechart
