import Statechart.Json.Record
import Statechart.Pointer

/-! Edits of a document, as they are written and as they are carried out. An edit may lack
what its kind needs or give what it does not; checking it names the fault or yields a
change.
-/

namespace Statechart

/-- The kinds of edits. -/
inductive EditKind where
  | add
  | remove
  | replace
  | move
  | copy
  | test
deriving DecidableEq, Repr

namespace EditKind

def all : List EditKind :=
  [.add, .remove, .replace, .move, .copy, .test]

def name : EditKind → String
  | .add => "add"
  | .remove => "remove"
  | .replace => "replace"
  | .move => "move"
  | .copy => "copy"
  | .test => "test"

/-- Whether an edit of this kind brings a value of its own. -/
def needsValue : EditKind → Bool
  | .add | .replace | .test => true
  | _ => false

/-- Whether an edit of this kind takes its value from another place. -/
def needsSource : EditKind → Bool
  | .move | .copy => true
  | _ => false

/-- Reads a kind from its name, or from an object that gives the name no content. -/
def ofJson? : Json → Option EditKind
  | .string text => all.find? (fun kind => kind.name = text)
  | .object [(text, .null)] => all.find? (fun kind => kind.name = text)
  | _ => none

end EditKind

-----------------------------------------------------------------------------------------
-- Edits as written
-----------------------------------------------------------------------------------------

/-- An edit as written. A value that is null is not an absent one. -/
structure Edit where
  kind : EditKind
  path : String
  value : Option Json := none
  source : Option String := none

namespace Edit

def add (path : String) (value : Json) : Edit :=
  { kind := .add, path, value := some value }

def remove (path : String) : Edit :=
  { kind := .remove, path }

def replace (path : String) (value : Json) : Edit :=
  { kind := .replace, path, value := some value }

def move (source path : String) : Edit :=
  { kind := .move, path, source := some source }

def copy (source path : String) : Edit :=
  { kind := .copy, path, source := some source }

def test (path : String) (value : Json) : Edit :=
  { kind := .test, path, value := some value }

/-- Reads an edit. Only a value and a source may be absent. -/
def ofJson? (document : Json) : Option Edit := do
  match ← document.fields? ["op", "path", "value", "from"] 2 with
  | [some kind, some path, value, source] =>
      let kind ← EditKind.ofJson? kind
      let path ← path.string?
      let source ← Json.optional? Json.string? source
      return { kind, path, value, source }
  | _ => none

/-- Writes an edit without its absent fields. -/
def json (edit : Edit) : Json :=
  .object
    ([("op", .string edit.kind.name), ("path", .string edit.path)]
      ++ (edit.value.map (fun value => ("value", value))).toList
      ++ (edit.source.map (fun source => ("from", .string source))).toList)

end Edit

-----------------------------------------------------------------------------------------
-- Faults
-----------------------------------------------------------------------------------------

/-- What is wrong with an edit, or with carrying it out. -/
inductive EditFault where
  | invalidPath (path : String)
  | missingValue (kind : EditKind)
  | missingSource (kind : EditKind)
  | pathUnresolvable (path : String)
  | sourceUnresolvable (source : String)
  | illegalPosition (path : String)
  | positionOutOfBounds (path : String)
  | noContainer (path : String)
  | moveIntoItself (source path : String)
  | testFailed (path : String)
deriving DecidableEq, Repr

/-- A fault of the edit at a position of a list. -/
structure PatchError where
  position : Nat
  fault : EditFault
deriving DecidableEq, Repr

namespace EditFault

def message : EditFault → String
  | .invalidPath path => s!"path '{path}' must be empty or start with '/'"
  | .missingValue kind => "`" ++ kind.name ++ "` requires a `value`"
  | .missingSource kind => "`" ++ kind.name ++ "` requires a `from`"
  | .pathUnresolvable path =>
      s!"cannot perform the operation at '{path}', which does not exist"
  | .sourceUnresolvable source => s!"cannot take a value from '{source}', which does not exist"
  | .illegalPosition path => s!"'{path}' does not end in a valid array index"
  | .positionOutOfBounds path => s!"array index in '{path}' is out of bounds"
  | .noContainer path => s!"cannot add at '{path}', its parent is not a container"
  | .moveIntoItself source path => s!"cannot move '{source}' into its own child '{path}'"
  | .testFailed path => s!"test failed at '{path}'"

end EditFault

def PatchError.message (error : PatchError) : String :=
  "Operation " ++ toString error.position ++ ": " ++ error.fault.message

-----------------------------------------------------------------------------------------
-- Edits as carried out
-----------------------------------------------------------------------------------------

/-- An edit that has all that its kind needs. -/
inductive Change where
  | add (path : Pointer) (value : Json)
  | remove (path : Pointer)
  | replace (path : Pointer) (value : Json)
  | move (source path : Pointer)
  | copy (source path : Pointer)
  | test (path : Pointer) (value : Json)

namespace Edit

def pointer (text : String) : Except EditFault Pointer :=
  match Pointer.ofText? text with
  | some pointer => .ok pointer
  | none => .error (.invalidPath text)

def requiredValue (edit : Edit) : Except EditFault Json :=
  match edit.value with
  | some value => .ok value
  | none => .error (.missingValue edit.kind)

def requiredSource (edit : Edit) : Except EditFault Pointer :=
  match edit.source with
  | some source => pointer source
  | none => .error (.missingSource edit.kind)

/-- The change that an edit asks for, or the first fault in how it is written. -/
def check (edit : Edit) : Except EditFault Change := do
  let path ← pointer edit.path
  match edit.kind with
  | .add => return .add path (← edit.requiredValue)
  | .remove => return .remove path
  | .replace => return .replace path (← edit.requiredValue)
  | .move => return .move (← edit.requiredSource) path
  | .copy => return .copy (← edit.requiredSource) path
  | .test => return .test path (← edit.requiredValue)

end Edit

end Statechart
