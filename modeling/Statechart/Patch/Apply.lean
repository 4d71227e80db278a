import Statechart.Patch.Edit

/-! Carrying out a list of edits. All edits are checked before the first one is carried out,
and the document given is never changed: either every edit succeeds and a new document
results, or the first fault is reported.
-/

namespace Statechart

namespace Json

/-- The key that writes the position after the last item of an array. -/
def pastEnd : String :=
  "-"

/-- Adds a value under a key of a container. Items at and after its position move up. -/
def addChild (path key : String) (value : Json) : Json → Except EditFault Json
  | .object members => .ok (.object (put key value members))
  | .array items =>
      if key = pastEnd then .ok (.array (items ++ [value]))
      else
        match position? key with
        | none => .error (.illegalPosition path)
        | some position =>
            if position ≤ items.length then .ok (.array (items.insertIdx position value))
            else .error (.positionOutOfBounds path)
  | _ => .error (.noContainer path)

/-- Removes the value under a key of a container and gives it. Later members and items move up. -/
def removeChild (path key : String) : Json → Except EditFault (Json × Json)
  | .object members =>
      match members.lookup key with
      | none => .error (.pathUnresolvable path)
      | some removed => .ok (removed, .object (without key members))
  | .array items =>
      match position? key with
      | none => .error (.pathUnresolvable path)
      | some position =>
          match items[position]? with
          | none => .error (.pathUnresolvable path)
          | some removed => .ok (removed, .array (items.eraseIdx position))
  | _ => .error (.pathUnresolvable path)

/-- Adds a value at a pointer; at the root it takes the place of the whole document. -/
def add (document : Json) (path : Pointer) (value : Json) : Except EditFault Json :=
  match path.split? with
  | none => .ok value
  | some (container, key) =>
      modify (.pathUnresolvable path.text) (addChild path.text key value) container.keys document

/-- Removes the value at a pointer and gives it and what is left; at the root that is null. -/
def remove (document : Json) (path : Pointer) : Except EditFault (Json × Json) :=
  match path.split? with
  | none => .ok (document, .null)
  | some (container, key) =>
      modifyGet (.pathUnresolvable path.text) (removeChild path.text key) container.keys document

/-- Puts a value in the place of the one at a pointer. -/
def replace (document : Json) (path : Pointer) (value : Json) : Except EditFault Json :=
  modify (.pathUnresolvable path.text) (fun _ => .ok value) path.keys document

/-- The value at the place that an edit takes it from. -/
def sourceValue (document : Json) (source : Pointer) : Except EditFault Json :=
  match document.at? source with
  | some value => .ok value
  | none => .error (.sourceUnresolvable source.text)

end Json

namespace Change

/-- Carries out one change. Moving a value to where it is changes nothing. -/
def apply (document : Json) : Change → Except EditFault Json
  | .add path value => document.add path value
  | .remove path => (document.remove path).map (·.2)
  | .replace path value => document.replace path value
  | .move source path => do
      let _ ← document.sourceValue source
      if source.text = path.text then return document
      if path.goesOn source then throw (.moveIntoItself source.text path.text)
      let (value, rest) ←
        (document.remove source).mapError (fun _ => .sourceUnresolvable source.text)
      rest.add path value
  | .copy source path => do
      let value ← document.sourceValue source
      document.add path value
  | .test path value =>
      match document.at? path with
      | none => .error (.pathUnresolvable path.text)
      | some actual => if actual.same value then .ok document else .error (.testFailed path.text)

end Change

namespace Patch

/-- Tells at which position of a list a fault arose. -/
def located (position : Nat) : Except EditFault α → Except PatchError α
  | .ok value => .ok value
  | .error fault => .error ⟨position, fault⟩

/-- The changes that edits ask for, or the first fault in how they are written. -/
def check (edits : List Edit) : Except PatchError (List Change) :=
  edits.zipIdx.mapM (fun (edit, position) => located position edit.check)

/-- Carries out changes one after the other. -/
def run (changes : List Change) (document : Json) : Except PatchError Json :=
  changes.zipIdx.foldlM
    (fun document (change, position) => located position (change.apply document)) document

/-- Checks all edits, then carries them out. -/
def apply (edits : List Edit) (document : Json) : Except PatchError Json := do
  let changes ← check edits
  run changes document

end Patch

end Statechart
