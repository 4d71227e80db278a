import Statechart.Json.Token
import Statechart.Json.Basic

/-! A text as written: its tree of arrays and objects with repeated keys kept and with
scalars that may stand for nothing. Reading a document out of it is a second step, so that a
reader can pass over the parts it has no use for.
-/

namespace Statechart

namespace Json

/-- The tree of a text. -/
inductive Raw where
  | null
  | bool (value : Bool)
  | number (value : Option Number)
  | string (text : Option String)
  | array (items : List Raw)
  | object (members : List (Option String × Raw))
deriving Repr, Inhabited

namespace Raw

-----------------------------------------------------------------------------------------
-- From tokens to a tree
-----------------------------------------------------------------------------------------

/-- A container that is still open, with its finished parts in reverse. -/
inductive Frame where
  | items (done : List Raw)
  /-- An object that waits for the value of a key. -/
  | member (done : List (Option String × Raw)) (key : Option String)

mutual
/-- Goes on where a value must come. -/
def value? : List Frame → List Token → Option Raw
  | stack, .null :: rest => after? stack .null rest
  | stack, .bool value :: rest => after? stack (.bool value) rest
  | stack, .number value :: rest => after? stack (.number value) rest
  | stack, .string text :: rest => after? stack (.string text) rest
  | stack, .openArray :: .closeArray :: rest => after? stack (.array []) rest
  | stack, .openArray :: rest => value? (.items [] :: stack) rest
  | stack, .openObject :: .closeObject :: rest => after? stack (.object []) rest
  | stack, .openObject :: .string key :: .colon :: rest =>
      value? (.member [] key :: stack) rest
  | _, _ => none

/-- Goes on after a value that is complete. -/
def after? : List Frame → Raw → List Token → Option Raw
  | [], value, [] => some value
  | .items done :: stack, value, .comma :: rest => value? (.items (value :: done) :: stack) rest
  | .items done :: stack, value, .closeArray :: rest =>
      after? stack (.array (value :: done).reverse) rest
  | .member done last :: stack, value, .comma :: .string key :: .colon :: rest =>
      value? (.member ((last, value) :: done) key :: stack) rest
  | .member done last :: stack, value, .closeObject :: rest =>
      after? stack (.object ((last, value) :: done).reverse) rest
  | _, _, _ => none
end

/-- The tree of a text that holds one value and nothing after it. -/
def ofText? (text : String) : Option Raw :=
  (Token.scan? text.toList).bind (value? [])

-----------------------------------------------------------------------------------------
-- Trees and documents
-----------------------------------------------------------------------------------------

mutual
/-- The document that a tree stands for, if it nests at most so many containers and every
scalar in it stands for something. Of equal keys the last gives the value and the first the
place.
-/
def json? (depth : Nat) : Raw → Option Json
  | .null => some .null
  | .bool value => some (.bool value)
  | .number value => value.map .number
  | .string text => text.map .string
  | .array items =>
      match depth with
      | 0 => none
      | depth + 1 => (itemsJson? depth items).map .array
  | .object members =>
      match depth with
      | 0 => none
      | depth + 1 =>
          (membersJson? depth members).map (fun members => .object (collect members))

def itemsJson? (depth : Nat) : List Raw → Option (List Json)
  | [] => some []
  | item :: items => do
      let item ← json? depth item
      let items ← itemsJson? depth items
      return item :: items

def membersJson? (depth : Nat) : List (Option String × Raw) → Option (List (String × Json))
  | [] => some []
  | (key, value) :: members => do
      let key ← key
      let value ← json? depth value
      let members ← membersJson? depth members
      return (key, value) :: members
end

mutual
/-- The tree of a document's text. -/
def ofJson : Json → Raw
  | .null => .null
  | .bool value => .bool value
  | .number value => .number (some value)
  | .string text => .string (some text)
  | .array items => .array (ofItems items)
  | .object members => .object (ofMembers members)

def ofItems : List Json → List Raw
  | [] => []
  | item :: items => ofJson item :: ofItems items

def ofMembers : List (String × Json) → List (Option String × Raw)
  | [] => []
  | (key, value) :: members => (some key, ofJson value) :: ofMembers members
end

end Raw

/-- The number of containers that a text may nest, the outermost and empty ones included. -/
def depthLimit : Nat :=
  127

/-- Reads a document from its text. -/
def ofText? (text : String) : Option Json :=
  (Raw.ofText? text).bind (Raw.json? depthLimit)

end Json

end Statechart
