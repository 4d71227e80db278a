import Statechart.Number.Numeral

/-! Documents: the values that models, payloads, settings and outputs are made of. An object
keeps its members in order: writing a member that is there keeps its place, a new one goes
last, and removing one moves the later ones up.
-/

namespace Statechart

/-- A document. -/
inductive Json where
  | null
  | bool (value : Bool)
  | number (value : Number)
  | string (text : String)
  | array (items : List Json)
  | object (members : List (String × Json))
deriving Repr, Inhabited

namespace Json

def integer (value : Int) : Json :=
  .number (.integer value)

/-- Writes a member, in its place if the key is there and at the end if not. -/
def put (key : String) (value : α) : List (String × α) → List (String × α)
  | [] => [(key, value)]
  | (name, old) :: rest =>
      if name = key then (name, value) :: rest else (name, old) :: put key value rest

theorem lookup_cons_eq (name : String) (value : α) (members : List (String × α)) (key : String)
    : ((name, value) :: members).lookup key
      = if key = name then some value else members.lookup key := by
  rw [List.lookup_cons]
  by_cases same : key = name
  · simp [same]
  · rw [beq_eq_false_iff_ne.mpr same, if_neg same]

/-- After writing a member its key has the new value, and every other key the old one. -/
theorem lookup_put (key : String) (value : α) (members : List (String × α)) (name : String)
    : (put key value members).lookup name
      = if name = key then some value else members.lookup name := by
  induction members with
  | nil => rw [put, lookup_cons_eq]
  | cons first rest ih =>
      obtain ⟨other, old⟩ := first
      rw [put]
      split
      · rename_i same
        subst same
        rw [lookup_cons_eq, lookup_cons_eq]
        split <;> rfl
      · rename_i differs
        rw [lookup_cons_eq, lookup_cons_eq, ih]
        by_cases same : name = other
        · subst same
          rw [if_pos rfl, if_neg differs, if_pos rfl]
        · rw [if_neg same, if_neg same]

/-- Leaves out the member with a key. -/
def without (key : String) (members : List (String × α)) : List (String × α) :=
  members.eraseP (fun member => member.1 = key)

/-- Writes members one after the other, so that the last of equal keys gives the value. -/
def collect (members : List (String × α)) : List (String × α) :=
  members.foldl (fun written member => put member.1 member.2 written) []

mutual
/-- Equality of documents: the order of an object's members does not matter. -/
def same : Json → Json → Bool
  | .null, .null => true
  | .bool a, .bool b => a == b
  | .number a, .number b => a.same b
  | .string a, .string b => a == b
  | .array items, .array others => sameItems items others
  | .object members, .object others =>
      members.length == others.length && sameMembers members others
  | _, _ => false

def sameItems : List Json → List Json → Bool
  | [], [] => true
  | item :: items, other :: others => same item other && sameItems items others
  | _, _ => false

/-- Whether each member has its counterpart among the others. -/
def sameMembers : List (String × Json) → List (String × Json) → Bool
  | [], _ => true
  | (key, value) :: members, others =>
      (match others.lookup key with
        | some other => same value other
        | none => false)
      && sameMembers members others
end

end Json

end Statechart
