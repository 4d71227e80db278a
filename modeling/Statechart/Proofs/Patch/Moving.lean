import Statechart.Proofs.Patch.Locality

/-! Moving a value to a place inside itself. Such a move is refused by how its pointers are written,
while places are found by keys: where every tilde begins an escape this is the same. Otherwise a
move that is not refused can only succeed if the next item of an array takes the place of the value.
-/

namespace Statechart

namespace Json

/-- No object of a document repeats a key. -/
def KeysDistinct (document : Json) : Prop :=
  ∀ keys members, document.get? keys = some (.object members) → (members.map (·.1)).Nodup

/-- The value at a pointer is an item of an array, and not the last one. -/
def HasNext (document : Json) (path : Pointer) : Prop :=
  ∃ keys last items position,
    path.keys = keys ++ [last]
    ∧ document.get? keys = some (.array items)
    ∧ index? last = some position
    ∧ position + 1 < items.length

/-- Nothing but null is found in null. -/
theorem get?_null {keys : List String} {value : Json} (found : get? keys .null = some value)
    : value = .null := by
  cases keys with
  | nil => exact (Option.some.inj found).symm
  | cons key keys => cases found

/-- Adding tells of a place or a container that it needs, never of a move. -/
theorem add_ne_moveIntoItself (document value : Json) (path : Pointer) (source target : String)
    : document.add path value ≠ .error (.moveIntoItself source target) := by
  intro failed
  unfold add at failed
  split at failed
  · cases failed
  · rcases modify_fault failed with same | ⟨container, failed⟩
    · cases same
    · unfold addChild at failed
      repeat' split at failed
      all_goals cases failed

/-- A value is only added in a container. -/
theorem Adds.container {keys : List String} {last : String} {value document result : Json}
    (adds : Adds keys last value document result)
    : ∃ container, document.get? keys = some container ∧ container ≠ .null := by
  cases adds with
  | member container written elsewhere => exact ⟨_, container, Json.noConfusion⟩
  | item container place changed inserts elsewhere => exact ⟨_, container, Json.noConfusion⟩

/-- If a value is still found where one was removed, it is the next item of the array. -/
theorem hasNext_of_removes {document rest value : Json} {path : Pointer} {keys : List String}
    {last : String} (distinct : document.KeysDistinct) (below : path.keys = keys ++ [last])
    (removes : Removes keys last document rest)
    (found : rest.get? (keys ++ [last]) = some value)
    : document.HasNext path := by
  cases removes with
  | member container gone elsewhere =>
      rw [gone (distinct keys _ container)] at found
      cases found
  | @item items later position container place changed deletes elsewhere =>
      refine ⟨keys, last, items, position, below, container, place, ?_⟩
      rw [get?_append, changed, Option.bind_some, get?, child?, stepPosition?_eq_index?, place,
        Option.bind_some] at found
      obtain ⟨item, there, _⟩ := Option.bind_eq_some_iff.mp found
      obtain ⟨inside, _⟩ := List.getElem?_eq_some_iff.mp there
      have length := deletes.length
      omega

/-- After a value is removed, one can be added inside its place only if the next item has come
there: where a member was there is nothing, and where the whole document was there is null.
-/
theorem hasNext_of_remove_add {document removed rest value result : Json} {source path : Pointer}
    (inside : path.Inside source) (distinct : document.KeysDistinct)
    (taken : document.remove source = .ok (removed, rest))
    (added : rest.add path value = .ok result)
    : document.HasNext source := by
  obtain ⟨key, more, keys⟩ := inside
  have front
      : path.keys
        = (source.keys ++ (key :: more).dropLast) ++ [(key :: more).getLast nofun] := by
    rw [keys, List.append_assoc, List.dropLast_append_getLast]
  obtain ⟨container, there, notNull⟩ := (adds_of_add front added).container
  rcases List.eq_nil_or_concat source.keys with root | ⟨outer, last, below⟩
  · have null : rest = .null := by
      rw [remove_eq_removeAt, ← source.keys_eq, root, removeAt] at taken
      cases taken
      rfl
    rw [null] at there
    exact absurd (get?_null there) notNull
  · rw [List.concat_eq_append] at below
    rw [get?_append] at there
    obtain ⟨value, found, _⟩ := Option.bind_eq_some_iff.mp there
    rw [below] at found
    exact hasNext_of_removes distinct below (removes_of_remove below taken) found

end Json

namespace Change

/-- Why a value is not moved to a place inside itself, if there is one. -/
def refusal (document : Json) (source path : Pointer) : EditFault :=
  match document.at? source with
  | some _ => .moveIntoItself source.text path.text
  | none => .sourceUnresolvable source.text

variable {source path : Pointer} {document : Json}

/-- What is moved inside itself is taken out and added, unless the text of the one pointer goes on
where that of the other ends.
-/
theorem apply_move_inside (inside : path.Inside source) {value : Json}
    (found : document.at? source = some value)
    : (Change.move source path).apply document
      = if path.goesOn source then .error (.moveIntoItself source.text path.text)
        else
          (document.remove source).mapError (fun _ => .sourceUnresolvable source.text)
            >>= fun (value, rest) => rest.add path value := by
  have differs : source.text ≠ path.text := by
    intro same
    obtain ⟨key, more, keys⟩ := inside
    rw [path.keys_eq, source.keys_eq, same] at keys
    simpa using congrArg List.length keys
  rw [apply, Json.sourceValue, found]
  simp only [differs, if_false]
  cases path.goesOn source <;> rfl

/-- A move inside is refused exactly if nothing is there to move or the texts tell. -/
theorem apply_move_eq_refusal_iff (inside : path.Inside source)
    : (Change.move source path).apply document = .error (refusal document source path)
      ↔ ((document.at? source).isSome = true → path.goesOn source = true) := by
  cases found : document.at? source with
  | none =>
      simp [apply, Json.sourceValue, refusal, found, bind, Except.bind]
  | some value =>
      rw [apply_move_inside inside found, refusal, found]
      cases goesOn : path.goesOn source with
      | true => simp
      | false =>
          refine ⟨fun refused => ?_, fun told => absurd (told rfl) (by decide)⟩
          rw [if_neg (by decide)] at refused
          rcases bind_eq_error_iff.mp refused with failed | ⟨⟨moved, rest⟩, _, failed⟩
          · obtain ⟨_, _, same⟩ := mapError_eq_error_iff.mp failed
            cases same
          · exact absurd failed (rest.add_ne_moveIntoItself moved path source.text path.text)

theorem hasNext_of_move (inside : path.Inside source) (distinct : document.KeysDistinct)
    {result : Json} (moved : (Change.move source path).apply document = .ok result)
    : document.HasNext source := by
  obtain ⟨value, found, _⟩ := bind_eq_ok_iff.mp moved
  cases there : document.at? source with
  | none => simp [Json.sourceValue, there] at found
  | some value =>
      rw [apply_move_inside inside there] at moved
      split at moved
      · cases moved
      · obtain ⟨⟨removed, rest⟩, taken, added⟩ := bind_eq_ok_iff.mp moved
        exact Json.hasNext_of_remove_add inside distinct (mapError_eq_ok_iff.mp taken) added

end Change

namespace Patch

variable {original document : Json} {earlier later : List Edit} {edit : Edit} {change : Change}
  {fault : EditFault}

/-- After edits that pass, the others are checked from the position where they stand. -/
theorem check_append {before : List Change} (checked : check earlier = .ok before)
    (rest : List Edit)
    : check (earlier ++ rest)
      = ((rest.zipIdx earlier.length).mapM
          (fun entry => located entry.2 entry.1.check)).map (before ++ ·) := by
  rw [check] at checked ⊢
  rw [List.zipIdx_append, List.mapM_append, checked, Nat.zero_add]
  cases (rest.zipIdx earlier.length).mapM (fun entry => located entry.2 entry.1.check) <;> rfl

/-- If all edits of a list pass, carrying them out comes to the first one that fails, and tells its
position.
-/
theorem run_of_check {changes : List Change} (reached : apply earlier original = .ok document)
    (asked : edit.check = .ok change) (failed : change.apply document = .error fault)
    (passed : check (earlier ++ edit :: later) = .ok changes)
    : run changes original = .error ⟨earlier.length, fault⟩ := by
  obtain ⟨before, checked, ran⟩ := bind_eq_ok_iff.mp reached
  have length : before.length = earlier.length := by
    simpa using (mapM_eq_ok_iff.mp checked).length_eq.symm
  rw [check_append checked] at passed
  obtain ⟨rest, remaining, rfl⟩ := map_eq_ok_iff.mp passed
  rw [List.zipIdx_cons] at remaining
  obtain ⟨_, after, first, _, rfl⟩ := List.forall₂_cons_left_iff.mp (mapM_eq_ok_iff.mp remaining)
  rw [asked] at first
  cases first
  rw [run] at ran ⊢
  rw [List.zipIdx_append, List.foldlM_append, ran, List.zipIdx_cons]
  simp [failed, located, length, bind, Except.bind]

/-- A list of edits that comes to one that fails does not pass. -/
theorem apply_ne_ok_of_failed (reached : apply earlier original = .ok document)
    (asked : edit.check = .ok change) (failed : change.apply document = .error fault)
    (result : Json)
    : apply (earlier ++ edit :: later) original ≠ .ok result := by
  intro done
  obtain ⟨changes, passed, ran⟩ := bind_eq_ok_iff.mp done
  rw [run_of_check reached asked failed passed] at ran
  cases ran

/-- If no later edit is malformed, the one that fails is told. -/
theorem apply_eq_error_of_failed (reached : apply earlier original = .ok document)
    (asked : edit.check = .ok change) (failed : change.apply document = .error fault)
    (written : ∀ other ∈ later, other.WellWritten)
    : apply (earlier ++ edit :: later) original = .error ⟨earlier.length, fault⟩ := by
  cases passed : check (earlier ++ edit :: later) with
  | ok changes =>
      rw [apply, passed]
      exact run_of_check reached asked failed passed
  | error error =>
      obtain ⟨before, checked, _⟩ := bind_eq_ok_iff.mp reached
      rw [check_append checked] at passed
      obtain ⟨⟨other, position⟩, member, malformed⟩ :=
        exists_error_of_mapM (map_eq_error_iff.mp passed)
      have malformed := located_error malformed
      obtain ⟨_, there⟩ := List.mk_mem_zipIdx_iff_le_and_getElem?_sub.mp member
      rcases List.mem_cons.mp (List.mem_of_getElem? there) with rfl | member
      · rw [asked] at malformed
        cases malformed
      · obtain ⟨change, asked, _⟩ := (written other member).check_eq
        rw [asked] at malformed
        cases malformed

/-- A value is not moved to a place inside itself. Such a move is refused exactly if there is
nothing to move or the text of the one pointer goes on where that of the other ends, which it does
if every tilde of both begins an escape. No list of edits that comes to a move that is refused
passes. If the move is not refused it succeeds only in an array, where the next item takes the place
of the value.
-/
theorem move_inside_refused {source path : Pointer} (inside : path.Inside source)
    (document : Json)
    : ((Change.move source path).apply document = .error (Change.refusal document source path)
        ↔ ((document.at? source).isSome = true → path.goesOn source = true))
      ∧ (Pointer.Escaped source.text.toList
        → Pointer.Escaped path.text.toList
        → path.goesOn source = true)
      ∧ (∀ original earlier later,
          apply earlier original = .ok document
          → ((document.at? source).isSome = true → path.goesOn source = true)
          → (∀ result,
              apply (earlier ++ Edit.move source.text path.text :: later) original ≠ .ok result)
            ∧ ((∀ edit ∈ later, edit.WellWritten)
              → apply (earlier ++ Edit.move source.text path.text :: later) original
                = .error ⟨earlier.length, Change.refusal document source path⟩))
      ∧ (document.KeysDistinct
        → ∀ result,
            (Change.move source path).apply document = .ok result → document.HasNext source) := by
  have refused := @Change.apply_move_eq_refusal_iff source path document inside
  have asked : (Edit.move source.text path.text).check = .ok (.move source path) :=
    bind_eq_ok_iff.mpr
      ⟨path, pointer_text path, bind_eq_ok_iff.mpr ⟨source, pointer_text source, rfl⟩⟩
  refine ⟨refused, fun escaped escapedPath => inside.goesOn escapedPath escaped,
    fun original earlier later reached told => ?_,
    fun distinct _ moved => Change.hasNext_of_move inside distinct moved⟩
  have failed := refused.mpr told
  exact ⟨apply_ne_ok_of_failed reached asked failed, apply_eq_error_of_failed reached asked failed⟩

/-- The hall without its second door. -/
def narrowHall : Json :=
  .object [("a/b", .array [.null, .bool true])]

/-- In the hall the first door is not moved inside itself, nor the second one when it is gone. -/
theorem hall_keeps_doors
    : apply [.move "/a~1b" "/a~1b/0"] hall
        = .error ⟨0, .moveIntoItself "/a~1b" "/a~1b/0"⟩
      ∧ apply [.remove "/~01", .move "/~01" "/~01/0"] hall
        = .error ⟨1, .sourceUnresolvable "/~01"⟩ := by
  have inside : Pointer.Inside ⟨"/a~1b/0", rfl⟩ ⟨"/a~1b", rfl⟩ := ⟨"0", [], by decide⟩
  have insideOther : Pointer.Inside ⟨"/~01/0", rfl⟩ ⟨"/~01", rfl⟩ := ⟨"0", [], by decide⟩
  have found : hall.at? ⟨"/a~1b", rfl⟩ = some (.array [.null, .bool true]) := rfl
  have removed : apply [.remove "/~01"] hall = .ok narrowHall := rfl
  have absent : narrowHall.at? ⟨"/~01", rfl⟩ = none := rfl
  constructor
  · have told := (move_inside_refused inside hall).2.2.1 hall [] [] rfl (fun _ => by decide)
    rw [Change.refusal, found] at told
    exact told.2 nofun
  · have told :=
      (move_inside_refused insideOther narrowHall).2.2.1 hall [.remove "/~01"] [] removed
        (fun _ => by decide)
    rw [Change.refusal, absent] at told
    exact told.2 nofun

/-- Two shelves in a place whose name is a tilde. -/
def closet : Json :=
  .object [("~", .array [.array [], .array []])]

/-- The first shelf is moved inside itself: one pointer spells the tilde by its escape and the other
does not, and the second shelf takes the place of the first before that is added there.
-/
theorem closet_shelf_moves
    : ∃ source path : Pointer,
        source.text = "/~/0"
        ∧ path.text = "/~0/0/-"
        ∧ path.Inside source
        ∧ closet.at? source = some (.array [])
        ∧ apply [.move source.text path.text] closet
          = .ok (.object [("~", .array [.array [.array []]])]) := by
  refine ⟨⟨"/~/0", by decide⟩, ⟨"/~0/0/-", by decide⟩, rfl, rfl, ⟨"-", [], ?_⟩, ?_, ?_⟩
  all_goals with_unfolding_all rfl

end Patch

end Statechart
