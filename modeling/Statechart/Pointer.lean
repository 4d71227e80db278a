import Statechart.Json.Basic

/-! Pointers into documents. The text of a pointer is empty or a sequence of keys that each
follow a slash; inside a key `~1` stands for a slash and `~0` for a tilde. A key names the
member of an object, or the position in an array by its decimal digits.
-/

namespace Statechart

/-- A location in a document, by the text that writes it. -/
structure Pointer where
  text : String
  rooted : text.toList.head?.all (· = '/') = true
deriving DecidableEq

namespace Pointer

/-- The pointer with a given text, which must be empty or begin with a slash. -/
def ofText? (text : String) : Option Pointer :=
  if h : text.toList.head?.all (· = '/') = true then some ⟨text, h⟩ else none

/-- The parts of a text between slashes. -/
def segments : List Char → List (List Char)
  | [] => [[]]
  | c :: rest =>
      if c = '/' then [] :: segments rest
      else
        match segments rest with
        | [] => [[c]]
        | segment :: others => (c :: segment) :: others

/-- Puts a character in the place of every two others that stand side by side. -/
def replacePair (first second new : Char) : List Char → List Char
  | a :: b :: rest =>
      if a = first ∧ b = second then new :: replacePair first second new rest
      else a :: replacePair first second new (b :: rest)
  | text => text

/-- Puts the characters in place of their escapes, slashes before tildes. -/
def unescape (segment : List Char) : List Char :=
  replacePair '~' '0' '~' (replacePair '~' '1' '/' segment)

/-- The keys on the way from the root of a document. -/
def keys (pointer : Pointer) : List String :=
  (segments pointer.text.toList).tail.map (fun segment => String.ofList (unescape segment))

/-- What stands before and after the last slash of a text. -/
def splitLast? : List Char → Option (List Char × List Char)
  | [] => none
  | c :: rest =>
      match splitLast? rest with
      | some (before, last) => some (c :: before, last)
      | none => if c = '/' then some ([], rest) else none

/-- What stands before the last slash begins as the text does, or is empty. -/
theorem rooted_of_splitLast? {text before last : List Char}
    (h : splitLast? text = some (before, last)) (rooted : text.head?.all (· = '/') = true)
    : before.head?.all (· = '/') = true := by
  cases text with
  | nil => cases h
  | cons c rest =>
      rw [splitLast?] at h
      split at h
      · cases h
        exact rooted
      · split at h
        · cases h
          rfl
        · cases h

/-- The pointer to the container of a place and the last key, unless the place is the root. -/
def split? (pointer : Pointer) : Option (Pointer × String) :=
  match h : splitLast? pointer.text.toList with
  | none => none
  | some (before, last) =>
      have rooted : (String.ofList before).toList.head?.all (· = '/') = true := by
        rw [String.toList_ofList]
        exact rooted_of_splitLast? h pointer.rooted
      some (⟨String.ofList before, rooted⟩, String.ofList (unescape last))

/-- Whether the text of one pointer goes on, key by key, where that of another ends. -/
def goesOn (pointer outer : Pointer) : Bool :=
  (outer.text.toList ++ ['/']).isPrefixOf pointer.text.toList

end Pointer

namespace Json

/-- Positions are counted in 64 bits. -/
def positionBound : Nat :=
  Nat.pow 2 64

/-- The number of 64 bits that decimal digits write, after a plus sign or without one. -/
def natural64? (text : List Char) : Option Nat :=
  let digits := if text.head? = some '+' then text.tail else text
  if digits ≠ [] ∧ digits.all Char.isDigit then
    let number := Nat.ofDigitChars 10 digits 0
    if number < positionBound then some number else none
  else none

/-- The position that a key names in an array on the way to a place: a number that does not begin
with a plus sign, and not with a zero unless this is all of it.
-/
def stepPosition? (key : String) : Option Nat :=
  let text := key.toList
  if text.head? = some '+' ∨ (text.head? = some '0' ∧ text.length ≠ 1) then none
  else natural64? text

/-- The position that the last key names in an array: decimal digits without a leading zero. -/
def position? (key : String) : Option Nat :=
  let digits := key.toList
  if digits ≠ [] ∧ digits.all Char.isDigit ∧ (digits = ['0'] ∨ digits.head? ≠ some '0') then
    natural64? digits
  else none

/-- The value that a key names inside a document. -/
def child? (key : String) : Json → Option Json
  | .object members => members.lookup key
  | .array items => (stepPosition? key).bind (items[·]?)
  | _ => none

/-- The value at the end of a path of keys. -/
def get? : List String → Json → Option Json
  | [], value => some value
  | key :: keys, value => (value.child? key).bind (get? keys)

/-- The value at a pointer. -/
def at? (value : Json) (pointer : Pointer) : Option Json :=
  value.get? pointer.keys

/-- Changes the value at the end of a path and gives what the change gives, or fails as told when
nothing is there.
-/
def modifyGet (missing : ε) (change : Json → Except ε (α × Json))
    : List String → Json → Except ε (α × Json)
  | [], value => change value
  | key :: keys, .object members =>
      match members.lookup key with
      | none => .error missing
      | some child =>
          (modifyGet missing change keys child).map
            (fun (given, child) => (given, .object (put key child members)))
  | key :: keys, .array items =>
      match stepPosition? key with
      | none => .error missing
      | some position =>
          match items[position]? with
          | none => .error missing
          | some child =>
              (modifyGet missing change keys child).map
                (fun (given, child) => (given, .array (items.set position child)))
  | _ :: _, _ => .error missing

/-- Changes the value at the end of a path, or fails as told when nothing is there. -/
def modify (missing : ε) (change : Json → Except ε Json) (keys : List String) (value : Json)
    : Except ε Json :=
  (modifyGet missing (fun value => (change value).map (fun value => ((), value))) keys value).map
    (·.2)

end Json

end Statechart
