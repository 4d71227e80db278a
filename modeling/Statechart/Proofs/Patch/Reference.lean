import Statechart.Patch.Apply
import Statechart.Proofs.Patch.Decoding
import Statechart.Proofs.Patch.Faults

/-! What edits mean, by recursion on the keys of their pointers. Each pointer is decoded once into
its keys; each key opens a document at one place, where another value can be put; the last key says
what to do there. Documents are walked and changed as this says.
-/

namespace Statechart

namespace Json

-----------------------------------------------------------------------------------------
-- Opening a document at a key
-----------------------------------------------------------------------------------------

/-- The value of the member with a key, and the members before and after it. -/
def splitMember? (key : String)
    : List (String × Json) → Option (List (String × Json) × Json × List (String × Json))
  | [] => none
  | (name, value) :: rest =>
      if name = key then some ([], value, rest)
      else
        (splitMember? key rest).map
          (fun (before, found, after) => ((name, value) :: before, found, after))

/-- The item at the position that a key names, and the items before and after it. -/
def splitItem? (key : String) (items : List Json) : Option (List Json × Json × List Json) := do
  let position ← index? key
  let item ← items[position]?
  return (items.take position, item, items.drop (position + 1))

/-- The value that a key names inside a document, and the document with another in its place. -/
def open? (key : String) : Json → Option (Json × (Json → Json))
  | .object members =>
      (splitMember? key members).map
        (fun (before, found, after) =>
          (found, fun other => .object (before ++ (key, other) :: after)))
  | .array items =>
      (splitItem? key items).map
        (fun (before, found, after) => (found, fun other => .array (before ++ other :: after)))
  | _ => none

-----------------------------------------------------------------------------------------
-- What edits mean
-----------------------------------------------------------------------------------------

/-- The value at the end of keys. -/
def valueAt? : List String → Json → Option Json
  | [], document => some document
  | key :: keys, document =>
      match document.open? key with
      | none => none
      | some (child, _) => valueAt? keys child

/-- Puts a value in the place of the one at the end of keys. -/
def replaceAt (path : String) (value : Json) : List String → Json → Except EditFault Json
  | [], _ => .ok value
  | key :: keys, document =>
      match document.open? key with
      | none => .error (.pathUnresolvable path)
      | some (child, inPlace) => (replaceAt path value keys child).map inPlace

/-- Adds a value under the last key: in the place of a member or after all of them, or between
items.
-/
def addUnder (path key : String) (value : Json) : Json → Except EditFault Json
  | .object members =>
      match splitMember? key members with
      | none => .ok (.object (members ++ [(key, value)]))
      | some (before, _, after) => .ok (.object (before ++ (key, value) :: after))
  | .array items =>
      if key = pastEnd then .ok (.array (items ++ [value]))
      else
        match index? key with
        | none => .error (.illegalPosition path)
        | some position =>
            if position ≤ items.length then
              .ok (.array (items.take position ++ value :: items.drop position))
            else .error (.positionOutOfBounds path)
  | _ => .error (.noContainer path)

/-- Adds a value at the end of keys; with no key it is all that is left. -/
def addAt (path : String) (value : Json) : List String → Json → Except EditFault Json
  | [], _ => .ok value
  | [key], document => addUnder path key value document
  | key :: next :: keys, document =>
      match document.open? key with
      | none => .error (.pathUnresolvable path)
      | some (child, inPlace) => (addAt path value (next :: keys) child).map inPlace

/-- Takes out the value under the last key: what comes later moves up. -/
def removeUnder (path key : String) : Json → Except EditFault (Json × Json)
  | .object members =>
      match splitMember? key members with
      | none => .error (.pathUnresolvable path)
      | some (before, found, after) => .ok (found, .object (before ++ after))
  | .array items =>
      match splitItem? key items with
      | none => .error (.pathUnresolvable path)
      | some (before, found, after) => .ok (found, .array (before ++ after))
  | _ => .error (.pathUnresolvable path)

/-- Takes out the value at the end of keys and gives it with what is left; with no key that is
null.
-/
def removeAt (path : String) : List String → Json → Except EditFault (Json × Json)
  | [], document => .ok (document, .null)
  | [key], document => document.removeUnder path key
  | key :: next :: keys, document =>
      match document.open? key with
      | none => .error (.pathUnresolvable path)
      | some (child, inPlace) =>
          (removeAt path (next :: keys) child).map (fun (found, child) => (found, inPlace child))

end Json

/-- What an edit makes of a document, given that it has what its kind needs. -/
def Edit.carryOut (edit : Edit) (document : Json) : Except EditFault Json :=
  let keys := Pointer.keysOf edit.path
  let value := edit.value.getD .null
  let source := edit.source.getD ""
  match edit.kind with
  | .add => Json.addAt edit.path value keys document
  | .remove => (Json.removeAt edit.path keys document).map (·.2)
  | .replace => Json.replaceAt edit.path value keys document
  | .move =>
      match Json.valueAt? (Pointer.keysOf source) document with
      | none => .error (.sourceUnresolvable source)
      | some _ =>
          if source = edit.path then .ok document
          else if (source.toList ++ ['/']).isPrefixOf edit.path.toList then
            .error (.moveIntoItself source edit.path)
          else do
            let (moved, rest) ← Json.removeAt source (Pointer.keysOf source) document
            Json.addAt edit.path moved keys rest
  | .copy =>
      match Json.valueAt? (Pointer.keysOf source) document with
      | none => .error (.sourceUnresolvable source)
      | some copied => Json.addAt edit.path copied keys document
  | .test =>
      match Json.valueAt? keys document with
      | none => .error (.pathUnresolvable edit.path)
      | some actual =>
          if actual.same value then .ok document else .error (.testFailed edit.path)

namespace Json

-----------------------------------------------------------------------------------------
-- Members and items by their keys
-----------------------------------------------------------------------------------------

theorem lookup_eq_splitMember? (key : String) (members : List (String × Json))
    : members.lookup key = (splitMember? key members).map (·.2.1) := by
  fun_induction splitMember? key members with
  | case1 => rfl
  | case2 value rest => simp
  | case3 name value rest differs ih =>
      simp [lookup_cons_eq, Ne.symm differs, ih, Function.comp_def]

/-- A member that is written keeps its place, or goes last. -/
theorem put_eq_splitMember? (key : String) (value : Json) (members : List (String × Json))
    : put key value members
      = match splitMember? key members with
        | none => members ++ [(key, value)]
        | some (before, _, after) => before ++ (key, value) :: after := by
  fun_induction splitMember? key members with
  | case1 => rfl
  | case2 old rest => simp [put]
  | case3 name old rest differs ih =>
      rw [put, if_neg differs, ih]
      cases splitMember? key rest <;> rfl

theorem without_eq_splitMember? (key : String) (members : List (String × Json))
    : without key members
      = match splitMember? key members with
        | none => members
        | some (before, _, after) => before ++ after := by
  fun_induction splitMember? key members with
  | case1 => rfl
  | case2 value rest => simp [without]
  | case3 name value rest differs ih =>
      rw [without] at ih ⊢
      rw [List.eraseP_cons_of_neg (by simpa using differs), ih]
      cases splitMember? key rest <;> rfl

/-- A value that is found under a key is the one that opens there. -/
theorem child?_eq_open? (key : String) (document : Json)
    : document.child? key = (document.open? key).map (·.1) := by
  cases document with
  | object members =>
      rw [child?, lookup_eq_splitMember?, open?, Option.map_map]
      rfl
  | array items =>
      rw [child?, stepPosition?_eq_index?, open?, splitItem?]
      cases index? key with
      | none => rfl
      | some position => cases found : items[position]? <;> simp [found]
  | _ => rfl

/-- Going on from a key changes what opens there, in its place. -/
theorem modifyGet_cons {ε α : Type} (missing : ε) (change : Json → Except ε (α × Json))
    (key : String) (keys : List String) (document : Json)
    : modifyGet missing change (key :: keys) document
      = match document.open? key with
        | none => .error missing
        | some (child, inPlace) =>
            (modifyGet missing change keys child).map
              (fun (given, child) => (given, inPlace child)) := by
  cases document with
  | object members =>
      rw [modifyGet, lookup_eq_splitMember?]
      simp only [open?, put_eq_splitMember?]
      cases splitMember? key members <;> rfl
  | array items =>
      rw [modifyGet, stepPosition?_eq_index?, open?, splitItem?]
      cases index? key with
      | none => rfl
      | some position =>
          cases found : items[position]? with
          | none => simp [found]
          | some item =>
              obtain ⟨inside, _⟩ := List.getElem?_eq_some_iff.mp found
              simp [List.set_eq_take_append_cons_drop, inside]
  | _ => rfl

@[simp]
theorem modify_nil {ε : Type} (missing : ε) (change : Json → Except ε Json) (document : Json)
    : modify missing change [] document = change document := by
  rw [modify, modifyGet]
  cases change document <;> rfl

theorem modify_cons {ε : Type} (missing : ε) (change : Json → Except ε Json) (key : String)
    (keys : List String) (document : Json)
    : modify missing change (key :: keys) document
      = match document.open? key with
        | none => .error missing
        | some (child, inPlace) => (modify missing change keys child).map inPlace := by
  simp only [modify, modifyGet_cons]
  cases document.open? key with
  | none => rfl
  | some opened =>
      simp only
      cases modifyGet missing (fun value => (change value).map fun value => ((), value)) keys
        opened.1 <;> rfl

-----------------------------------------------------------------------------------------
-- Walking pointers as their keys say
-----------------------------------------------------------------------------------------

/-- A document has the same value at a pointer as at the end of its keys; by induction on them. -/
theorem at?_eq_valueAt? (document : Json) (path : Pointer)
    : document.at? path = valueAt? (Pointer.keysOf path.text) document := by
  rw [at?, path.keys_eq]
  induction Pointer.keysOf path.text generalizing document with
  | nil => rfl
  | cons key keys ih =>
      rw [get?, valueAt?, child?_eq_open?]
      cases document.open? key with
      | none => rfl
      | some opened => exact ih opened.1

theorem replace_eq_replaceAt (document : Json) (path : Pointer) (value : Json)
    : document.replace path value
      = replaceAt path.text value (Pointer.keysOf path.text) document := by
  rw [replace, path.keys_eq]
  induction Pointer.keysOf path.text generalizing document with
  | nil => rw [modify_nil, replaceAt]
  | cons key keys ih =>
      rw [modify_cons, replaceAt]
      simp only [ih]

/-- An item is put between those before its position and the others; by induction on them. -/
theorem insertIdx_eq_take_append (value : Json) {position : Nat} {items : List Json}
    (inside : position ≤ items.length)
    : items.insertIdx position value = items.take position ++ value :: items.drop position := by
  induction position generalizing items with
  | zero => rfl
  | succ position ih =>
      cases items with
      | nil => cases inside
      | cons item items =>
          rw [List.insertIdx_succ_cons, ih (Nat.le_of_succ_le_succ inside), List.take_succ_cons,
            List.drop_succ_cons, List.cons_append]

theorem addChild_eq_addUnder (path key : String) (value document : Json)
    : addChild path key value document = addUnder path key value document := by
  cases document with
  | object members =>
      rw [addChild, addUnder, put_eq_splitMember?]
      cases splitMember? key members <;> rfl
  | array items =>
      rw [addChild, addUnder, position?_eq_index?]
      cases index? key with
      | none => rfl
      | some position =>
          by_cases inside : position ≤ items.length
          · simp only [inside, if_true, insertIdx_eq_take_append]
          · simp only [inside, if_false]
  | _ => rfl

theorem removeChild_eq_removeUnder (path key : String) (document : Json)
    : removeChild path key document = document.removeUnder path key := by
  cases document with
  | object members =>
      rw [removeChild, removeUnder, lookup_eq_splitMember?, without_eq_splitMember?]
      cases splitMember? key members <;> rfl
  | array items =>
      rw [removeChild, removeUnder, position?_eq_index?, splitItem?]
      cases index? key with
      | none => rfl
      | some position =>
          cases found : items[position]? with
          | none => simp [found]
          | some item => simp [found, List.eraseIdx_eq_take_drop_succ]
  | _ => rfl

/-- Before the last key a document is opened and what is inside it changed, in its place. -/
theorem addAt_cons {keys : List String} (more : keys ≠ []) (path key : String)
    (value document : Json)
    : addAt path value (key :: keys) document
      = match document.open? key with
        | none => .error (.pathUnresolvable path)
        | some (child, inPlace) => (addAt path value keys child).map inPlace := by
  obtain ⟨next, others, rfl⟩ := List.exists_cons_of_ne_nil more
  rw [addAt]

theorem removeAt_cons {keys : List String} (more : keys ≠ []) (path key : String)
    (document : Json)
    : removeAt path (key :: keys) document
      = match document.open? key with
        | none => .error (.pathUnresolvable path)
        | some (child, inPlace) =>
            (removeAt path keys child).map (fun (found, child) => (found, inPlace child)) := by
  obtain ⟨next, others, rfl⟩ := List.exists_cons_of_ne_nil more
  rw [removeAt]

/-- Adding under the last of some keys is what is done there; by induction on those before it. -/
theorem addAt_append (path : String) (value : Json) (keys : List String) (last : String)
    (document : Json)
    : addAt path value (keys ++ [last]) document
      = modify (.pathUnresolvable path) (addChild path last value) keys document := by
  induction keys generalizing document with
  | nil => rw [modify_nil, List.nil_append, addAt, addChild_eq_addUnder]
  | cons key keys ih =>
      rw [modify_cons, List.cons_append, addAt_cons (by simp)]
      simp only [ih]

/-- So is removing what is under the last of them. -/
theorem removeAt_append (path : String) (keys : List String) (last : String) (document : Json)
    : removeAt path (keys ++ [last]) document
      = modifyGet (.pathUnresolvable path) (removeChild path last) keys document := by
  induction keys generalizing document with
  | nil => rw [modifyGet, List.nil_append, removeAt, removeChild_eq_removeUnder]
  | cons key keys ih =>
      rw [modifyGet_cons, List.cons_append, removeAt_cons (by simp)]
      simp only [ih]

theorem add_eq_addAt (document : Json) (path : Pointer) (value : Json)
    : document.add path value = addAt path.text value (Pointer.keysOf path.text) document := by
  unfold add
  split
  · rename_i root
    rw [Pointer.keysOf_of_split?_eq_none root, addAt]
  · rename_i container last split
    rw [Pointer.keysOf_of_split?_eq_some split, addAt_append, container.keys_eq]

theorem remove_eq_removeAt (document : Json) (path : Pointer)
    : document.remove path = removeAt path.text (Pointer.keysOf path.text) document := by
  unfold remove
  split
  · rename_i root
    rw [Pointer.keysOf_of_split?_eq_none root, removeAt]
  · rename_i container last split
    rw [Pointer.keysOf_of_split?_eq_some split, removeAt_append, container.keys_eq]

/-- What opens at a key can be taken out there. -/
theorem removeUnder_of_open? (path : String) {key : String} {document child : Json}
    {inPlace : Json → Json} (opens : document.open? key = some (child, inPlace))
    : ∃ rest, removeUnder path key document = .ok (child, rest) := by
  cases document with
  | object members =>
      obtain ⟨⟨before, found, after⟩, split, same⟩ := Option.map_eq_some_iff.mp opens
      cases same
      exact ⟨.object (before ++ after), by rw [removeUnder, split]⟩
  | array items =>
      obtain ⟨⟨before, found, after⟩, split, same⟩ := Option.map_eq_some_iff.mp opens
      cases same
      exact ⟨.array (before ++ after), by rw [removeUnder, split]⟩
  | _ => cases opens

/-- So can the value at the end of keys; by induction on them. -/
theorem removeAt_of_valueAt? (path : String) {keys : List String} {document value : Json}
    (found : valueAt? keys document = some value)
    : ∃ rest, removeAt path keys document = .ok (value, rest) := by
  fun_induction removeAt path keys document with
  | case1 document =>
      cases found
      exact ⟨.null, rfl⟩
  | case2 key document =>
      rw [valueAt?] at found
      split at found
      · cases found
      · rename_i opens
        cases found
        exact removeUnder_of_open? path opens
  | case3 key next keys document closed => simp [valueAt?, closed] at found
  | case4 key next keys document child inPlace opens ih =>
      rw [valueAt?, opens] at found
      obtain ⟨rest, removed⟩ := ih found
      exact ⟨inPlace rest, by rw [removed]; rfl⟩

end Json

end Statechart
