import Statechart.Json.Raw

/-! Records in documents. A record is written as an object of its fields, in any order and
among others, or as the array of its fields in their order. Reading one gives its fields by
position, and leaves to the caller which of them may be absent.
-/

namespace Statechart

namespace Json

namespace Record

/-- The value of a field among members that may repeat others but not this one. -/
def field? (members : List (String × α)) (name : String) : Option (Option α) :=
  match members.filter (fun member => member.1 = name) with
  | [] => some none
  | [member] => some (some member.2)
  | _ => none

/-- The fields of a record written as an object. -/
def ofMembers? (names : List String) (members : List (String × α))
    : Option (List (Option α)) :=
  names.mapM (field? members)

/-- The fields of a record written as an array. At least so many of them are there, and only
the last ones are left out.
-/
def ofItems? (names : List String) (least : Nat) (items : List α)
    : Option (List (Option α)) :=
  if least ≤ items.length ∧ items.length ≤ names.length then
    some (items.map some ++ List.replicate (names.length - items.length) none)
  else none

end Record

/-- The fields of the record that a document writes. -/
def fields? (names : List String) (least : Nat) : Json → Option (List (Option Json))
  | .object members => Record.ofMembers? names members
  | .array items => Record.ofItems? names least items
  | _ => none

/-- The fields of the record that a text writes. Every key must be readable. -/
def Raw.fields? (names : List String) (least : Nat) : Raw → Option (List (Option Raw))
  | .object members => do
      let members ← members.mapM (fun member => member.1.map (fun key => (key, member.2)))
      Record.ofMembers? names members
  | .array items => Record.ofItems? names least items
  | _ => none

def string? : Json → Option String
  | .string text => some text
  | _ => none

def items? : Json → Option (List Json)
  | .array items => some items
  | _ => none

/-- An optional field: absent, null or a value that can be read. -/
def optional? (read : Json → Option α) : Option Json → Option (Option α)
  | none => some none
  | some .null => some none
  | some value => (read value).map some

namespace Raw

def string? : Raw → Option String
  | .string text => text
  | _ => none

def items? : Raw → Option (List Raw)
  | .array items => some items
  | _ => none

/-- A natural below a bound. -/
def natural? (bound : Nat) : Raw → Option Nat
  | .number (some (.integer (.ofNat n))) => if n < bound then some n else none
  | _ => none

/-- An optional field: absent, null or a value that can be read. -/
def optional? (read : Raw → Option α) : Option Raw → Option (Option α)
  | none => some none
  | some .null => some none
  | some value => (read value).map some

end Raw

end Json

end Statechart
