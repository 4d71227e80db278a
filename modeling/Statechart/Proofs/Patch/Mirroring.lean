import Statechart.Proofs.Patch.Locality

/-! Adding can be undone. A value that was added where no member was, or between items, is removed
at the same place, and what is left is the document from before, with its members in their order. A
list of such edits is undone by removing at the same places from the last to the first: each removal
meets the document that its addition gave.
-/

namespace Statechart

namespace Json

-----------------------------------------------------------------------------------------
-- What opens at a key is put back there
-----------------------------------------------------------------------------------------

/-- A member keeps its place among the others whatever its value; by the recursion along them. -/
theorem splitMember?_replaced {key : String} {members before after : List (String × Json)}
    {found : Json} (split : splitMember? key members = some (before, found, after))
    : before ++ (key, found) :: after = members
      ∧ ∀ other,
          splitMember? key (before ++ (key, other) :: after) = some (before, other, after) := by
  fun_induction splitMember? key members generalizing before found after with
  | case1 => cases split
  | case2 value rest =>
      cases split
      exact ⟨rfl, fun other => by rw [List.nil_append, splitMember?, if_pos rfl]⟩
  | case3 name value rest differs ih =>
      obtain ⟨⟨earlier, _, _⟩, within, same⟩ := Option.map_eq_some_iff.mp split
      cases same
      obtain ⟨whole, replaced⟩ := ih within
      refine ⟨congrArg ((name, value) :: ·) whole, fun other => ?_⟩
      rw [List.cons_append, splitMember?, if_neg differs, replaced other, Option.map_some]

/-- An item keeps its position whatever it is. -/
theorem splitItem?_replaced {key : String} {items before after : List Json} {found : Json}
    (split : splitItem? key items = some (before, found, after))
    : before ++ found :: after = items
      ∧ ∀ other, splitItem? key (before ++ other :: after) = some (before, other, after) := by
  obtain ⟨position, named, split⟩ := Option.bind_eq_some_iff.mp split
  obtain ⟨item, there, split⟩ := Option.bind_eq_some_iff.mp split
  cases split
  obtain ⟨inside, item⟩ := List.getElem?_eq_some_iff.mp there
  have length : (items.take position).length = position :=
    List.length_take_of_le (Nat.le_of_lt inside)
  refine ⟨?_, fun other => ?_⟩
  · rw [← item, List.getElem_cons_drop, List.take_append_drop]
  · have past : (items.take position ++ [other]).length = position + 1 := by simp [length]
    have after
        : (items.take position ++ [other] ++ items.drop (position + 1)).drop (position + 1)
          = items.drop (position + 1) :=
      List.drop_left' past
    rw [List.append_assoc, List.singleton_append] at after
    simp [splitItem?, named, length, after]

/-- What opens at a key is put back there, and another value in its place opens there as well. -/
theorem open?_replaced {key : String} {document child : Json} {inPlace : Json → Json}
    (opens : document.open? key = some (child, inPlace))
    : inPlace child = document
      ∧ ∀ other, (inPlace other).open? key = some (other, inPlace) := by
  cases document with
  | object members =>
      obtain ⟨⟨before, found, after⟩, split, same⟩ := Option.map_eq_some_iff.mp opens
      cases same
      obtain ⟨whole, replaced⟩ := splitMember?_replaced split
      exact ⟨congrArg object whole, fun other => by rw [open?, replaced other, Option.map_some]⟩
  | array items =>
      obtain ⟨⟨before, found, after⟩, split, same⟩ := Option.map_eq_some_iff.mp opens
      cases same
      obtain ⟨whole, replaced⟩ := splitItem?_replaced split
      exact ⟨congrArg array whole, fun other => by rw [open?, replaced other, Option.map_some]⟩
  | _ => cases opens

/-- A change that is undone in a container is undone in a document around it; by induction on the
keys that lead there.
-/
theorem modifyGet_modify {ε α : Type} {missing absent : ε} {change : Json → Except ε Json}
    {back : Json → Except ε (α × Json)} {given : α} {keys : List String}
    {document container result : Json} (there : document.get? keys = some container)
    (undoes
      : ∀ changed, change container = .ok changed → back changed = .ok (given, container))
    (modified : modify missing change keys document = .ok result)
    : modifyGet absent back keys result = .ok (given, document) := by
  induction keys generalizing document result with
  | nil =>
      cases there
      rw [modify_nil] at modified
      rw [modifyGet]
      exact undoes result modified
  | cons key keys ih =>
      rw [get?, child?_eq_open?] at there
      rw [modify_cons] at modified
      cases opens : document.open? key with
      | none =>
          rw [opens] at there
          cases there
      | some opened =>
          obtain ⟨child, inPlace⟩ := opened
          simp only [opens, Option.map_some, Option.bind_some] at there modified
          obtain ⟨next, inner, rfl⟩ := map_eq_ok_iff.mp modified
          obtain ⟨whole, replaced⟩ := open?_replaced opens
          rw [modifyGet_cons, replaced next]
          simp only [ih there inner, Except.map, whole]

-----------------------------------------------------------------------------------------
-- Removing what was added
-----------------------------------------------------------------------------------------

/-- A container in which adding under a key changes no value that is there: an array, or an object
without a member of this name.
-/
inductive Open (key : String) : Json → Prop
  | item {items} : Open key (.array items)
  | member {members} (absent : members.lookup key = none) : Open key (.object members)

/-- A member that is written after all others and left out again leaves them as they were. -/
theorem without_put {key : String} {members : List (String × Json)} (value : Json)
    (absent : members.lookup key = none)
    : without key (put key value members) = members := by
  have fresh : ∀ member ∈ members, ¬ member.1 = key := by
    intro member listed same
    have apart := List.lookup_eq_none_iff.mp absent member listed
    simp [same] at apart
  have last : key ∉ members.map (·.1) := by
    intro listed
    obtain ⟨member, listed, same⟩ := List.mem_map.mp listed
    exact fresh member listed same
  rw [put_fresh last, without, List.eraseP_append_right _ (by simpa using fresh)]
  simp

/-- What was added to an open container is removed under the same key, which leaves the container as
it was.
-/
theorem removeChild_addChild {path place key : String} {value container changed : Json}
    (opened : Open key container) (notLast : key ≠ pastEnd)
    (added : addChild path key value container = .ok changed)
    : removeChild place key changed = .ok (value, container) := by
  cases opened with
  | item =>
      rw [addChild, if_neg notLast] at added
      split at added
      · cases added
      · rename_i position named
        split at added
        · rename_i inside
          cases added
          simp only [removeChild, named, List.getElem?_insertIdx_self, if_pos inside,
            List.eraseIdx_insertIdx_self]
        · cases added
  | member absent =>
      cases added
      simp only [removeChild, lookup_put, if_true, without_put value absent]

/-- The place that the keys of a pointer lead to is open: it is no item past the end of an array,
and no value is there that would be overwritten.
-/
def OpenAt (keys : List String) (document : Json) : Prop :=
  ∃ front last container,
    keys = front ++ [last]
    ∧ last ≠ pastEnd
    ∧ document.get? front = some container
    ∧ Open last container

/-- What was added at an open place is removed there, and the document is the one from before. -/
theorem remove_add {path : Pointer} {document value result : Json}
    (opened : document.OpenAt path.keys) (added : document.add path value = .ok result)
    : result.remove path = .ok (value, document) := by
  obtain ⟨front, last, container, below, notLast, there, opened⟩ := opened
  rw [add_eq_addAt, ← path.keys_eq, below, addAt_append] at added
  rw [remove_eq_removeAt, ← path.keys_eq, below, removeAt_append]
  exact modifyGet_modify there (fun _ => removeChild_addChild opened notLast) added

end Json

-----------------------------------------------------------------------------------------
-- Lists of edits
-----------------------------------------------------------------------------------------

namespace Edit

/-- The edit that removes at the place of another. -/
def mirror (edit : Edit) : Edit :=
  .remove edit.path

/-- A pointer that is read from a text is written as this text. -/
theorem text_of_pointer {text : String} {path : Pointer} (read : pointer text = .ok path)
    : path.text = text := by
  rw [pointer, Pointer.ofText?] at read
  split at read
  · rename_i given
    cases read
    split at given
    · cases given
      rfl
    · cases given
  · cases read

/-- An edit of the adding kind that passes adds a value at its path. -/
theorem change_of_check {edit : Edit} {change : Change} (adds : edit.kind = .add)
    (asked : edit.check = .ok change)
    : ∃ path value, path.text = edit.path ∧ change = .add path value := by
  obtain ⟨path, read, given⟩ := bind_eq_ok_iff.mp asked
  rw [adds] at given
  obtain ⟨value, _, same⟩ := bind_eq_ok_iff.mp given
  exact ⟨path, value, text_of_pointer read, (Except.ok.inj same).symm⟩

end Edit

namespace Patch

/-- A computation gives the same value wherever in a list its edit stands. -/
theorem located_eq_ok_iff {α : Type} {position : Nat} {result : Except EditFault α} {value : α}
    : located position result = .ok value ↔ result = .ok value :=
  ⟨located_ok, fun given => by rw [given, located]⟩

/-- Edits pass when each of them does, wherever they stand; by induction on them. -/
theorem check_eq_ok_iff {edits : List Edit} {changes : List Change} (first : Nat)
    : (edits.zipIdx first).mapM (fun (edit, position) => located position edit.check) = .ok changes
      ↔ edits.mapM Edit.check = .ok changes := by
  induction edits generalizing changes first with
  | nil => simp [pure, Except.pure]
  | cons edit edits ih =>
      rw [List.zipIdx_cons, List.mapM_cons, List.mapM_cons, bind_eq_ok_iff, bind_eq_ok_iff]
      simp only [located_eq_ok_iff, bind_eq_ok_iff, ih, pure, Except.pure, Except.ok.injEq]

/-- Changes give the same document wherever they stand; by induction on them. -/
theorem run_eq_ok_iff {changes : List Change} {document result : Json} (first : Nat)
    : (changes.zipIdx first).foldlM
          (fun document (change, position) => located position (change.apply document)) document
        = .ok result
      ↔ changes.foldlM (fun document change => change.apply document) document = .ok result := by
  induction changes generalizing document first with
  | nil => simp [pure, Except.pure]
  | cons change changes ih =>
      rw [List.zipIdx_cons, List.foldlM_cons, List.foldlM_cons, bind_eq_ok_iff, bind_eq_ok_iff]
      simp only [located_eq_ok_iff, ih]

/-- Edits that succeed after others, on what these give, succeed together with them. -/
theorem apply_append {earlier later : List Edit} {document middle result : Json}
    (first : apply earlier document = .ok middle) (second : apply later middle = .ok result)
    : apply (earlier ++ later) document = .ok result := by
  obtain ⟨before, asked, reached⟩ := bind_eq_ok_iff.mp first
  obtain ⟨after, asked', done⟩ := bind_eq_ok_iff.mp second
  rw [check, check_eq_ok_iff] at asked asked'
  rw [run, run_eq_ok_iff] at reached done
  refine bind_eq_ok_iff.mpr ⟨before ++ after, ?_, ?_⟩
  · rw [check, check_eq_ok_iff, List.mapM_append, asked, asked']
    rfl
  · rw [run, run_eq_ok_iff, List.foldlM_append, reached]
    exact done

/-- Edits that come from one document to another, where each adds a value at a place that is open in
the document it meets.
-/
inductive Builds : List Edit → Json → Json → Prop
  | done {document} : Builds [] document document
  | add {edit edits document next result} (adds : edit.kind = .add)
    (opened : document.OpenAt (Pointer.keysOf edit.path))
    (added : apply [edit] document = .ok next) (later : Builds edits next result)
    : Builds (edit :: edits) document result

/-- An edit that succeeds alone has asked for a change that succeeds. -/
theorem change_of_apply {edit : Edit} {document result : Json}
    (done : apply [edit] document = .ok result)
    : ∃ change, edit.check = .ok change ∧ change.apply document = .ok result := by
  obtain ⟨changes, checked, _⟩ := bind_eq_ok_iff.mp done
  rw [check, check_eq_ok_iff] at checked
  obtain ⟨change, asked, _⟩ := bind_eq_ok_iff.mp checked
  rw [apply_singleton asked] at done
  exact ⟨change, asked, located_ok done⟩

/-- What one edit adds at an open place, its mirror removes. -/
theorem apply_mirror {edit : Edit} {document next : Json} (adds : edit.kind = .add)
    (opened : document.OpenAt (Pointer.keysOf edit.path))
    (added : apply [edit] document = .ok next)
    : apply [edit.mirror] next = .ok document := by
  obtain ⟨change, asked, added⟩ := change_of_apply added
  obtain ⟨path, value, text, rfl⟩ := Edit.change_of_check adds asked
  have back : edit.mirror.check = .ok (.remove path) :=
    bind_eq_ok_iff.mpr ⟨path, text ▸ pointer_text path, rfl⟩
  rw [← text, ← path.keys_eq] at opened
  rw [apply_singleton back, located_eq_ok_iff]
  exact map_eq_ok_iff.mpr ⟨_, Json.remove_add opened added, rfl⟩

/-- Additions are undone by their mirrors, from the last to the first. -/
theorem Builds.apply_mirrors {edits : List Edit} {document result : Json}
    (builds : Builds edits document result)
    : apply edits document = .ok result
      ∧ apply (edits.reverse.map Edit.mirror) result = .ok document := by
  induction builds with
  | done => exact ⟨rfl, rfl⟩
  | @add edit edits document next result adds opened added later ih =>
      refine ⟨apply_append added ih.1, ?_⟩
      rw [List.reverse_cons, List.map_append]
      exact apply_append ih.2 (apply_mirror adds opened added)

/-- Additions come to some document in between; by induction on those before it. -/
theorem Builds.between {earlier later : List Edit} {document result : Json}
    (builds : Builds (earlier ++ later) document result)
    : ∃ middle, Builds earlier document middle ∧ Builds later middle result := by
  induction earlier generalizing document with
  | nil => exact ⟨document, .done, builds⟩
  | cons edit earlier ih =>
      cases builds with
      | add adds opened added rest =>
          obtain ⟨middle, before, after⟩ := ih rest
          exact ⟨middle, .add adds opened added before, after⟩

/-- Additions that overwrite nothing are undone by removing at the same places from the last to the
first: all these edits together give the document from before. On the way back each removal meets
the document that its addition gave, so that after some of them the earlier additions are left.
-/
theorem mirrored_removes_undo {edits : List Edit} {document result : Json}
    (builds : Builds edits document result)
    : apply (edits ++ edits.reverse.map Edit.mirror) document = .ok document
      ∧ ∀ earlier later,
          edits = earlier ++ later
          → apply (edits ++ later.reverse.map Edit.mirror) document = apply earlier document := by
  have back {earlier later : List Edit} (split : edits = earlier ++ later)
      : apply (edits ++ later.reverse.map Edit.mirror) document = apply earlier document := by
    have reached := builds.apply_mirrors.1
    subst split
    obtain ⟨middle, before, after⟩ := builds.between
    rw [before.apply_mirrors.1]
    exact apply_append reached after.apply_mirrors.2
  exact ⟨back (List.nil_append edits).symm, fun _ _ => back⟩

/-- A lamp goes before the items behind the first door, then a box between it and them, then a
label and a key into the box.
-/
def furnishing : List Edit :=
  [.add "/a~1b/0" (.string "lamp"), .add "/a~1b/1" (.object []),
    .add "/a~1b/1/label" (.string "keys"), .add "/a~1b/1/~0" (.integer 7)]

/-- The hall with the lamp and the box. -/
def furnishedHall : Json :=
  .object
    [("a/b",
        .array
          [.string "lamp", .object [("label", .string "keys"), ("~", .integer 7)], .null,
            .bool true]),
      ("~1", .object [("0", .string "shut")])]

/-- The hall is as before when all this has been taken out again. -/
theorem hall_cleared
    : Builds furnishing hall furnishedHall
      ∧ apply (furnishing ++ furnishing.reverse.map Edit.mirror) hall = .ok hall := by
  have builds : Builds furnishing hall furnishedHall := by
    refine .add rfl ⟨["a/b"], "0", _, by decide, by decide, rfl, .item⟩ rfl ?_
    refine .add rfl ⟨["a/b"], "1", _, by decide, by decide, rfl, .item⟩ rfl ?_
    refine .add rfl ⟨["a/b", "1"], "label", _, by decide, by decide, rfl, .member rfl⟩ rfl ?_
    refine .add rfl ⟨["a/b", "1"], "~", _, by decide, by decide, rfl, .member rfl⟩ rfl ?_
    exact .done
  exact ⟨builds, (mirrored_removes_undo builds).1⟩

end Patch

end Statechart
