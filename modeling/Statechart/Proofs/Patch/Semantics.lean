import Statechart.Proofs.Patch.Reference

/-! Lists of edits mean what their edits say one after the other. If an edit is malformed, the first
such is told and nothing else happens; well written edits are carried out in their order.
-/

namespace Statechart

-----------------------------------------------------------------------------------------
-- How edits are written
-----------------------------------------------------------------------------------------

/-- A text that is empty or begins with a slash. -/
def Pointer.Rooted (text : String) : Prop :=
  text = "" ∨ text.toList.head? = some '/'

/-- What is wrong with how an edit is written. Its path is looked at first, then its value, and its
source last.
-/
inductive Edit.Malformed (edit : Edit) : EditFault → Prop
  | path (bare : ¬ Pointer.Rooted edit.path) : Malformed edit (.invalidPath edit.path)
  | noValue (rooted : Pointer.Rooted edit.path) (needed : edit.kind.needsValue = true)
    (absent : edit.value = none)
    : Malformed edit (.missingValue edit.kind)
  | noSource (rooted : Pointer.Rooted edit.path) (needed : edit.kind.needsSource = true)
    (absent : edit.source = none)
    : Malformed edit (.missingSource edit.kind)
  | source {source} (rooted : Pointer.Rooted edit.path)
    (needed : edit.kind.needsSource = true) (given : edit.source = some source)
    (bare : ¬ Pointer.Rooted source)
    : Malformed edit (.invalidPath source)

/-- An edit that is written as its kind needs. -/
def Edit.WellWritten (edit : Edit) : Prop :=
  ∀ fault, ¬ edit.Malformed fault

theorem Pointer.rooted_iff {text : String}
    : Rooted text ↔ text.toList.head?.all (· = '/') = true := by
  rw [Rooted, ← String.toList_eq_nil_iff]
  cases text.toList <;> simp

instance (text : String) : Decidable (Pointer.Rooted text) :=
  decidable_of_iff _ Pointer.rooted_iff.symm

namespace Edit

theorem pointer_eq_ok {text : String} (rooted : Pointer.Rooted text)
    : ∃ path, pointer text = .ok path ∧ path.text = text := by
  refine ⟨⟨text, Pointer.rooted_iff.mp rooted⟩, ?_, rfl⟩
  rw [pointer, Pointer.ofText?, dif_pos (Pointer.rooted_iff.mp rooted)]

theorem pointer_eq_error {text : String} (bare : ¬ Pointer.Rooted text)
    : pointer text = .error (.invalidPath text) := by
  rw [pointer, Pointer.ofText?, dif_neg (mt Pointer.rooted_iff.mpr bare)]

theorem check_eq_of_value {edit : Edit} {fault : EditFault} (rooted : Pointer.Rooted edit.path)
    (needed : edit.kind.needsValue = true) (failed : edit.requiredValue = .error fault)
    : edit.check = .error fault := by
  obtain ⟨path, read, _⟩ := pointer_eq_ok rooted
  rw [check, read]
  cases kind : edit.kind <;> simp [kind, EditKind.needsValue] at needed
  all_goals rw [failed]; rfl

theorem check_eq_of_source {edit : Edit} {fault : EditFault} (rooted : Pointer.Rooted edit.path)
    (needed : edit.kind.needsSource = true) (failed : edit.requiredSource = .error fault)
    : edit.check = .error fault := by
  obtain ⟨path, read, _⟩ := pointer_eq_ok rooted
  rw [check, read]
  cases kind : edit.kind <;> simp [kind, EditKind.needsSource] at needed
  all_goals rw [failed]; rfl

/-- What is wrong with how an edit is written is what checking it tells. -/
theorem Malformed.check_eq {edit : Edit} {fault : EditFault} (malformed : edit.Malformed fault)
    : edit.check = .error fault := by
  cases malformed with
  | path bare => rw [check, pointer_eq_error bare]; rfl
  | noValue rooted needed absent =>
      exact check_eq_of_value rooted needed (by rw [requiredValue, absent])
  | noSource rooted needed absent =>
      exact check_eq_of_source rooted needed (by rw [requiredSource, absent])
  | source rooted needed given bare =>
      refine check_eq_of_source rooted needed ?_
      rw [requiredSource, given]
      exact pointer_eq_error bare

namespace WellWritten

variable {edit : Edit} (written : edit.WellWritten)

include written

theorem rooted : Pointer.Rooted edit.path :=
  Decidable.byContradiction fun bare => written _ (.path bare)

theorem value (needed : edit.kind.needsValue = true) : ∃ value, edit.value = some value := by
  refine Option.ne_none_iff_exists'.mp fun absent => ?_
  exact written _ (.noValue written.rooted needed absent)

theorem source (needed : edit.kind.needsSource = true)
    : ∃ source, edit.source = some source ∧ Pointer.Rooted source := by
  obtain ⟨source, given⟩ :=
    Option.ne_none_iff_exists'.mp fun absent =>
      written _ (.noSource written.rooted needed absent)
  refine ⟨source, given, Decidable.byContradiction fun bare => ?_⟩
  exact written _ (.source written.rooted needed given bare)

end WellWritten

end Edit

-----------------------------------------------------------------------------------------
-- What edits do
-----------------------------------------------------------------------------------------

/-- Moving is taking out and adding; what has a value can be taken out. -/
theorem Change.apply_move (source path : Pointer) (document : Json)
    : (Change.move source path).apply document
      = (Edit.move source.text path.text).carryOut document := by
  rw [apply, Edit.carryOut, Json.sourceValue, Json.at?_eq_valueAt?]
  simp only [Edit.move, Option.getD_some]
  cases found : Json.valueAt? (Pointer.keysOf source.text) document with
  | none => rfl
  | some value =>
      obtain ⟨rest, removed⟩ := Json.removeAt_of_valueAt? source.text found
      simp only [Json.remove_eq_removeAt, removed, Json.add_eq_addAt]
      rfl

/-- A well written edit asks for a change, and carrying that out does what the edit means. -/
theorem Edit.WellWritten.check_eq {edit : Edit} (written : edit.WellWritten)
    : ∃ change,
        edit.check = .ok change ∧ ∀ document, change.apply document = edit.carryOut document := by
  have rooted := written.rooted
  have given := written.value
  have taken := written.source
  obtain ⟨kind, text, value, source⟩ := edit
  obtain ⟨path, read, rfl⟩ := pointer_eq_ok rooted
  cases kind with
  | add =>
      obtain ⟨value, rfl⟩ := given rfl
      refine ⟨.add path value, ?_, fun document => document.add_eq_addAt path value⟩
      exact bind_eq_ok_iff.mpr ⟨path, read, rfl⟩
  | remove =>
      refine ⟨.remove path, ?_, fun document => ?_⟩
      · exact bind_eq_ok_iff.mpr ⟨path, read, rfl⟩
      · rw [Change.apply, Json.remove_eq_removeAt]
        rfl
  | replace =>
      obtain ⟨value, rfl⟩ := given rfl
      refine ⟨.replace path value, ?_, fun document => document.replace_eq_replaceAt path value⟩
      exact bind_eq_ok_iff.mpr ⟨path, read, rfl⟩
  | move =>
      obtain ⟨source, rfl, begins⟩ := taken rfl
      obtain ⟨source, readSource, rfl⟩ := pointer_eq_ok begins
      refine ⟨.move source path, ?_, fun document => ?_⟩
      · exact bind_eq_ok_iff.mpr ⟨path, read, bind_eq_ok_iff.mpr ⟨source, readSource, rfl⟩⟩
      · rw [Change.apply_move]
        rfl
  | copy =>
      obtain ⟨source, rfl, begins⟩ := taken rfl
      obtain ⟨source, readSource, rfl⟩ := pointer_eq_ok begins
      refine ⟨.copy source path, ?_, fun document => ?_⟩
      · exact bind_eq_ok_iff.mpr ⟨path, read, bind_eq_ok_iff.mpr ⟨source, readSource, rfl⟩⟩
      · simp only [Change.apply, Json.sourceValue, Json.at?_eq_valueAt?, Json.add_eq_addAt]
        rw [Edit.carryOut]
        simp only [Option.getD_some]
        cases Json.valueAt? (Pointer.keysOf source.text) document <;> rfl
  | test =>
      obtain ⟨value, rfl⟩ := given rfl
      refine ⟨.test path value, ?_, fun document => ?_⟩
      · exact bind_eq_ok_iff.mpr ⟨path, read, rfl⟩
      · rw [Change.apply, Json.at?_eq_valueAt?]
        rfl

/-- Checking passes exactly the edits that are well written. -/
theorem Edit.wellWritten_iff {edit : Edit}
    : edit.WellWritten ↔ edit.check.isOk = true := by
  constructor
  · intro written
    obtain ⟨change, asked, _⟩ := written.check_eq
    rw [asked]
    rfl
  · intro passed fault malformed
    rw [malformed.check_eq] at passed
    cases passed

instance (edit : Edit) : Decidable edit.WellWritten :=
  decidable_of_iff _ Edit.wellWritten_iff.symm

namespace Patch

-----------------------------------------------------------------------------------------
-- Lists of edits
-----------------------------------------------------------------------------------------

/-- Carries out edits one after the other, and tells the position of the one that fails. -/
def carryOut (edits : List Edit) (document : Json) : Except PatchError Json :=
  edits.zipIdx.foldlM
    (fun document (edit, position) => located position (edit.carryOut document)) document

/-- Checking finds the first edit that is malformed; by induction on those before it. -/
theorem check_of_malformed {edit : Edit} {fault : EditFault} (malformed : edit.Malformed fault)
    {earlier : List Edit} (written : ∀ other ∈ earlier, other.WellWritten) (later : List Edit)
    (first : Nat)
    : ((earlier ++ edit :: later).zipIdx first).mapM
        (fun (edit, position) => located position edit.check)
      = .error ⟨first + earlier.length, fault⟩ := by
  induction earlier generalizing first with
  | nil => simp [malformed.check_eq, located, bind, Except.bind]
  | cons other earlier ih =>
      obtain ⟨change, asked, _⟩ := (written other List.mem_cons_self).check_eq
      have rest :=
        ih (fun other member => written other (List.mem_cons_of_mem _ member)) (first + 1)
      rw [List.length_cons, Nat.add_comm earlier.length, ← Nat.add_assoc, ← rest]
      simp only [List.cons_append, List.zipIdx_cons, List.mapM_cons, asked]
      rw [rest]
      rfl

/-- Well written edits pass, and carrying out what they ask for does what they mean; by induction
on them.
-/
theorem check_of_wellWritten {edits : List Edit} (written : ∀ edit ∈ edits, edit.WellWritten)
    (first : Nat)
    : ∃ changes,
        (edits.zipIdx first).mapM (fun (edit, position) => located position edit.check)
          = .ok changes
        ∧ ∀ document,
            (changes.zipIdx first).foldlM
              (fun document (change, position) => located position (change.apply document))
              document
            = (edits.zipIdx first).foldlM
              (fun document (edit, position) => located position (edit.carryOut document))
              document := by
  induction edits generalizing first with
  | nil => exact ⟨[], rfl, fun _ => rfl⟩
  | cons edit edits ih =>
      obtain ⟨change, asked, means⟩ := (written edit List.mem_cons_self).check_eq
      obtain ⟨changes, passed, same⟩ :=
        ih (fun other member => written other (List.mem_cons_of_mem _ member)) (first + 1)
      refine ⟨change :: changes, ?_, fun document => ?_⟩
      · simp only [List.zipIdx_cons, List.mapM_cons, asked]
        rw [passed]
        rfl
      · simp only [List.zipIdx_cons, List.foldlM_cons, means, same]

/-- The first malformed edit is told, whatever the document is, and if there is none all edits are
carried out as they mean.
-/
theorem apply_meets_reference (edits : List Edit) (document : Json)
    : (∀ earlier edit later fault,
          edits = earlier ++ edit :: later
          → (∀ other ∈ earlier, other.WellWritten)
          → edit.Malformed fault
          → apply edits document = .error ⟨earlier.length, fault⟩)
      ∧ ((∀ edit ∈ edits, edit.WellWritten)
        → apply edits document = carryOut edits document) := by
  constructor
  · rintro earlier edit later fault rfl written malformed
    rw [apply, check, check_of_malformed malformed written later 0, Nat.zero_add]
    rfl
  · intro written
    obtain ⟨changes, passed, same⟩ := check_of_wellWritten written 0
    rw [apply, check, passed]
    exact same document

/-- A hall with two doors, one with a slash in its name and one with what escapes it. -/
def hall : Json :=
  .object [("a/b", .array [.null, .bool true]), ("~1", .object [("0", .string "shut")])]

/-- Edits that take out the first item, put a copy of what is inside the second door at the end of
the items that are left, move that door into the place of the first one, and add one without a name.
-/
def rearranging : List Edit :=
  [.remove "/a~1b/0", .copy "/~01/0" "/a~1b/-", .test "/a~1b/1" (.string "shut"),
    .move "/~01" "/a~1b", .add "/" .null]

/-- Edits of which the second and the third are malformed. -/
def garbled : List Edit :=
  [.remove "", { kind := .move, path := "/a", value := none }, .test "a" .null]

/-- The former rearrange the hall; of the latter the second is told, and none is carried out. -/
theorem rearranging_applied
    : apply rearranging hall
        = .ok (.object [("a/b", .object [("0", .string "shut")]), ("", .null)])
      ∧ apply garbled hall = .error ⟨1, .missingSource .move⟩ := by
  constructor
  · have written : ∀ edit ∈ rearranging, edit.WellWritten := by decide
    rw [(apply_meets_reference rearranging hall).2 written]
    with_unfolding_all rfl
  · refine (apply_meets_reference garbled hall).1 [.remove ""] _ [.test "a" .null] _ rfl ?_ ?_
    · decide
    · exact .noSource (by decide) rfl rfl

end Patch

end Statechart
