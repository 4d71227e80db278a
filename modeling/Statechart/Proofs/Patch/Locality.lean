import Statechart.Proofs.Patch.Exactness
import Statechart.Proofs.Patch.Semantics
import Statechart.Proofs.Patch.Spelling

/-! Edits are local. What an edit does at the end of some keys is seen there and nowhere else: at
the end of all other keys a document has the value that it had before, or none as before. In an
array the items after the place of the edit move by one.
-/

namespace Statechart

namespace Json

-----------------------------------------------------------------------------------------
-- Changing a document at the end of keys
-----------------------------------------------------------------------------------------

/-- Two documents have the same value, or none, at the end of all keys that neither go on from some
given ones nor end on the way to them.
-/
def SameElsewhere (keys : List String) (before after : Json) : Prop :=
  ∀ other, ¬ keys <+: other → ¬ other <+: keys → after.get? other = before.get? other

theorem get?_append (document : Json) (keys more : List String)
    : document.get? (keys ++ more) = (document.get? keys).bind (get? more) := by
  induction keys generalizing document with
  | nil => rfl
  | cons key keys ih =>
      rw [List.cons_append, get?, get?]
      cases document.child? key with
      | none => rfl
      | some child => exact ih child

/-- A position is written in one way. -/
theorem stepPosition?_injective {key other : String} {position : Nat}
    (first : stepPosition? key = some position) (second : stepPosition? other = some position)
    : key = other := by
  rw [stepPosition?_eq_index?, index?] at first second
  split at first
  · rename_i written
    split at second
    · rename_i written'
      rw [Option.some.injEq] at first second
      apply String.toList_injective
      rw [← written.1, ← written'.1, first, second]
    · cases second
  · cases first

/-- A document whose child under one key is another, while those under all other keys are as before,
is the same elsewhere if the child is.
-/
theorem sameElsewhere_cons {key : String} {keys : List String} {before after child changed : Json}
    (found : before.child? key = some child) (put : after.child? key = some changed)
    (others : ∀ other, other ≠ key → after.child? other = before.child? other)
    (inside : SameElsewhere keys child changed)
    : SameElsewhere (key :: keys) before after := by
  intro other beyond above
  cases other with
  | nil => exact absurd List.nil_prefix above
  | cons first rest =>
      rw [get?, get?]
      by_cases same : first = key
      · subst same
        rw [found, put]
        refine inside rest (fun within => beyond ?_) (fun within => above ?_)
        · exact (List.prefix_cons_inj first).mpr within
        · exact (List.prefix_cons_inj first).mpr within
      · rw [others first same]

/-- A change at the end of keys is made to the value there and seen there, and nowhere else; by the
recursion along the keys.
-/
theorem modifyGet_eq_ok {ε α : Type} {missing : ε} {change : Json → Except ε (α × Json)}
    {keys : List String} {document result : Json} {given : α}
    (modified : modifyGet missing change keys document = .ok (given, result))
    : ∃ inner changed,
        document.get? keys = some inner
        ∧ change inner = .ok (given, changed)
        ∧ result.get? keys = some changed
        ∧ SameElsewhere keys document result := by
  fun_induction modifyGet missing change keys document generalizing given result with
  | case1 value =>
      exact ⟨value, result, rfl, modified, rfl, fun _ beyond _ => absurd List.nil_prefix beyond⟩
  | case2 => cases modified
  | case3 key keys members child found ih =>
      obtain ⟨⟨_, next⟩, inner, same⟩ := map_eq_ok_iff.mp modified
      cases same
      obtain ⟨value, changed, there, made, now, elsewhere⟩ := ih inner
      have put : child? key (.object (put key next members)) = some next := by
        rw [child?, lookup_put, if_pos rfl]
      refine ⟨value, changed, ?_, made, ?_, sameElsewhere_cons found put ?_ elsewhere⟩
      · rw [get?, child?, found]
        exact there
      · rw [get?, put]
        exact now
      · intro other differs
        rw [child?, lookup_put, if_neg differs, child?]
  | case4 => cases modified
  | case5 => cases modified
  | case6 key keys items position named child found ih =>
      obtain ⟨⟨_, next⟩, inner, same⟩ := map_eq_ok_iff.mp modified
      cases same
      obtain ⟨value, changed, there, made, now, elsewhere⟩ := ih inner
      obtain ⟨inRange, _⟩ := List.getElem?_eq_some_iff.mp found
      have before : child? key (.array items) = some child := by
        rw [child?, named]
        exact found
      have put : child? key (.array (items.set position next)) = some next := by
        rw [child?, named]
        exact List.getElem?_set_self inRange
      refine ⟨value, changed, ?_, made, ?_, sameElsewhere_cons before put ?_ elsewhere⟩
      · rw [get?, before]
        exact there
      · rw [get?, put]
        exact now
      · intro other differs
        rw [child?, child?]
        cases elsewhere : stepPosition? other with
        | none => rfl
        | some another =>
            have apart : position ≠ another := by
              rintro rfl
              exact differs (stepPosition?_injective elsewhere named)
            exact List.getElem?_set_ne apart
  | case7 => cases modified

theorem modify_eq_ok {ε : Type} {missing : ε} {change : Json → Except ε Json}
    {keys : List String} {document result : Json}
    (modified : modify missing change keys document = .ok result)
    : ∃ inner changed,
        document.get? keys = some inner
        ∧ change inner = .ok changed
        ∧ result.get? keys = some changed
        ∧ SameElsewhere keys document result := by
  obtain ⟨⟨_, _⟩, made, rfl⟩ := map_eq_ok_iff.mp modified
  obtain ⟨inner, changed, there, made, now, elsewhere⟩ := modifyGet_eq_ok made
  obtain ⟨_, made, same⟩ := map_eq_ok_iff.mp made
  cases same
  exact ⟨inner, _, there, made, now, elsewhere⟩

/-- A document that is the same elsewhere than at a place, and whose children there under all keys
but one are as before, is the same elsewhere than under this one.
-/
theorem SameElsewhere.under {keys : List String} {last : String}
    {before after container changed : Json} (elsewhere : SameElsewhere keys before after)
    (there : before.get? keys = some container) (now : after.get? keys = some changed)
    (others : ∀ other, other ≠ last → changed.child? other = container.child? other)
    : SameElsewhere (keys ++ [last]) before after := by
  intro other beyond above
  by_cases through : keys <+: other
  · obtain ⟨more, rfl⟩ := through
    cases more with
    | nil =>
        rw [List.append_nil] at above
        exact absurd (List.prefix_append keys [last]) above
    | cons key more =>
        have differs : key ≠ last := by
          rintro rfl
          exact beyond ⟨more, by simp⟩
        simp only [get?_append, there, now, Option.bind_some, get?, others key differs]
  · exact elsewhere other through
      (fun shorter => above (shorter.trans (List.prefix_append keys [last])))

-----------------------------------------------------------------------------------------
-- Adding and removing under a key
-----------------------------------------------------------------------------------------

/-- A value stands at a position of a list, those before it stand where they stood, and those that
stood there and after it have moved up by one.
-/
structure Inserts (position : Nat) (value : Json) (before after : List Json) : Prop where
  here : after[position]? = some value
  smaller : ∀ other < position, after[other]? = before[other]?
  larger : ∀ other, position ≤ other → after[other + 1]? = before[other]?
  length : after.length = before.length + 1

/-- An item of a list is gone, those before it stand where they stood, and those after it have moved
down by one.
-/
structure Deletes (position : Nat) (before after : List Json) : Prop where
  inside : position < before.length
  smaller : ∀ other < position, after[other]? = before[other]?
  larger : ∀ other, position < other → after[other - 1]? = before[other]?
  length : after.length + 1 = before.length

theorem inserts_insertIdx (value : Json) {position : Nat} {items : List Json}
    (inside : position ≤ items.length)
    : Inserts position value items (items.insertIdx position value) where
  here := by rw [List.getElem?_insertIdx_self, if_pos inside]
  smaller _ less := List.getElem?_insertIdx_of_lt less
  larger other more := List.getElem?_insertIdx_of_gt (Nat.lt_succ_of_le more)
  length := List.length_insertIdx_of_le_length inside value

theorem deletes_eraseIdx {position : Nat} {items : List Json} (inside : position < items.length)
    : Deletes position items (items.eraseIdx position) where
  inside := inside
  smaller _ less := List.getElem?_eraseIdx_of_lt less
  larger other more := by
    rw [List.getElem?_eraseIdx_of_ge (Nat.le_sub_one_of_lt more)]
    congr 1
    omega
  length := by
    rw [List.length_eraseIdx_of_lt inside]
    omega

/-- A key that writes a position, or the one past the end of a list. -/
def Places (key : String) (items : List Json) (position : Nat) : Prop :=
  key = pastEnd ∧ position = items.length ∨ index? key = some position

/-- What adding a value under a key makes of a container. -/
inductive AddsUnder (key : String) (value : Json) : Json → Json → Prop
  | member {members} : AddsUnder key value (.object members) (.object (put key value members))
  | item {items later position} (place : Places key items position)
    (inserts : Inserts position value items later)
    : AddsUnder key value (.array items) (.array later)

/-- What removing the value under a key makes of a container. -/
inductive RemovesUnder (key : String) : Json → Json → Prop
  | member {members value} (found : members.lookup key = some value)
    : RemovesUnder key (.object members) (.object (without key members))
  | item {items later position} (place : index? key = some position)
    (deletes : Deletes position items later)
    : RemovesUnder key (.array items) (.array later)

theorem addsUnder_of_addChild {path key : String} {value container changed : Json}
    (added : addChild path key value container = .ok changed)
    : AddsUnder key value container changed := by
  cases container with
  | object members =>
      cases added
      exact .member
  | array items =>
      rw [addChild, position?_eq_index?] at added
      split at added
      · rename_i last
        cases added
        rw [← List.insertIdx_length_self]
        exact .item (.inl ⟨last, rfl⟩) (inserts_insertIdx value (Nat.le_refl _))
      · split at added
        · cases added
        · rename_i position place
          split at added
          · rename_i inside
            cases added
            exact .item (.inr place) (inserts_insertIdx value inside)
          · cases added
  | _ => cases added

theorem removesUnder_of_removeChild {path key : String} {container removed rest : Json}
    (taken : removeChild path key container = .ok (removed, rest))
    : RemovesUnder key container rest := by
  cases container with
  | object members =>
      rw [removeChild] at taken
      split at taken
      · cases taken
      · rename_i found
        cases taken
        exact .member found
  | array items =>
      rw [removeChild, position?_eq_index?] at taken
      split at taken
      · cases taken
      · rename_i position place
        split at taken
        · cases taken
        · rename_i found
          cases taken
          exact .item place (deletes_eraseIdx (List.getElem?_eq_some_iff.mp found).1)
  | _ => cases taken

/-- Other members keep their values when one is left out; by induction on the members before it. -/
theorem lookup_without_of_ne {key other : String} (differs : other ≠ key)
    (members : List (String × Json))
    : (without key members).lookup other = members.lookup other := by
  induction members with
  | nil => rfl
  | cons first rest ih =>
      obtain ⟨name, value⟩ := first
      rw [without] at ih ⊢
      by_cases same : name = key
      · rw [List.eraseP_cons_of_pos (by simpa using same), lookup_cons_eq,
          if_neg (same ▸ differs)]
      · rw [List.eraseP_cons_of_neg (by simpa using same), lookup_cons_eq, lookup_cons_eq, ih]

/-- A member is gone when it is left out, unless its key is there twice. -/
theorem lookup_without_self {key : String} {members : List (String × Json)}
    (distinct : (members.map (·.1)).Nodup)
    : (without key members).lookup key = none := by
  induction members with
  | nil => rfl
  | cons first rest ih =>
      obtain ⟨name, value⟩ := first
      obtain ⟨fresh, distinct⟩ := List.nodup_cons.mp distinct
      rw [without] at ih ⊢
      by_cases same : name = key
      · rw [List.eraseP_cons_of_pos (by simpa using same), List.lookup_eq_none_iff]
        rintro ⟨other, _⟩ member
        have apart : key ≠ other := by
          rintro rfl
          exact fresh (List.mem_map.mpr ⟨_, member, same.symm⟩)
        simpa using apart
      · rw [List.eraseP_cons_of_neg (by simpa using same), lookup_cons_eq,
          if_neg (Ne.symm same)]
        exact ih distinct

-----------------------------------------------------------------------------------------
-- Edits at a place
-----------------------------------------------------------------------------------------

/-- What adding a value does to a document. A member of an object has the value afterwards; in an
array the value stands between items, and nothing changes but in this array.
-/
inductive Adds (keys : List String) (last : String) (value document result : Json) : Prop
  | member {members} (container : document.get? keys = some (.object members))
    (written : result.get? (keys ++ [last]) = some value)
    (elsewhere : SameElsewhere (keys ++ [last]) document result)
  | item {items later position} (container : document.get? keys = some (.array items))
    (place : Places last items position) (changed : result.get? keys = some (.array later))
    (inserts : Inserts position value items later)
    (elsewhere : SameElsewhere keys document result)

/-- What removing a value does to a document. A member of an object is gone, given that it is there
only once; the items of an array after the value close up, and nothing changes but in this array.
-/
inductive Removes (keys : List String) (last : String) (document result : Json) : Prop
  | member {members} (container : document.get? keys = some (.object members))
    (gone : (members.map (·.1)).Nodup → result.get? (keys ++ [last]) = none)
    (elsewhere : SameElsewhere (keys ++ [last]) document result)
  | item {items later position} (container : document.get? keys = some (.array items))
    (place : index? last = some position) (changed : result.get? keys = some (.array later))
    (deletes : Deletes position items later)
    (elsewhere : SameElsewhere keys document result)

variable {path : Pointer} {keys : List String} {last : String}

theorem adds_of_add {document value result : Json} (below : path.keys = keys ++ [last])
    (added : document.add path value = .ok result)
    : Adds keys last value document result := by
  rw [add_eq_addAt, ← path.keys_eq, below, addAt_append] at added
  obtain ⟨container, changed, there, added, now, elsewhere⟩ := modify_eq_ok added
  cases addsUnder_of_addChild added with
  | member =>
      refine .member there ?_ (elsewhere.under there now fun other differs => ?_)
      · simp [get?_append, now, get?, child?, lookup_put]
      · rw [child?, child?, lookup_put, if_neg differs]
  | item place inserts => exact .item there place now inserts elsewhere

theorem removes_of_remove {document removed rest : Json} (below : path.keys = keys ++ [last])
    (taken : document.remove path = .ok (removed, rest))
    : Removes keys last document rest := by
  rw [remove_eq_removeAt, ← path.keys_eq, below, removeAt_append] at taken
  obtain ⟨container, changed, there, taken, now, elsewhere⟩ := modifyGet_eq_ok taken
  cases removesUnder_of_removeChild taken with
  | member found =>
      refine .member there (fun distinct => ?_) (elsewhere.under there now fun other differs => ?_)
      · simp [get?_append, now, get?, child?, lookup_without_self distinct]
      · rw [child?, child?, lookup_without_of_ne differs]
  | item place deletes => exact .item there place now deletes elsewhere

theorem replaced_of_replace {document value result : Json}
    (replaced : document.replace path value = .ok result)
    : result.at? path = some value ∧ SameElsewhere path.keys document result := by
  obtain ⟨_, _, _, made, now, elsewhere⟩ := modify_eq_ok replaced
  cases made
  exact ⟨now, elsewhere⟩

/-- A pointer spelled for a key of an object leads to just this member. -/
theorem at?_ofKeys {document : Json} {members : List (String × Json)} (key : String)
    (container : document.get? keys = some (.object members))
    : document.at? (Pointer.ofKeys (keys ++ [key])) = members.lookup key := by
  rw [at?, Pointer.keys_ofKeys, get?_append, container]
  cases found : members.lookup key <;> simp [get?, child?, found]

end Json

namespace Patch

/-- A single edit that is well written does what its change does. -/
theorem apply_singleton {edit : Edit} {change : Change} (asked : edit.check = .ok change)
    (document : Json)
    : apply [edit] document = located 0 (change.apply document) := by
  have checked : check [edit] = .ok [change] := by
    simp only [check, List.zipIdx_singleton, List.mapM_cons, List.mapM_nil, asked, located]
    rfl
  rw [apply, checked]
  exact bind_pure (located 0 (change.apply document))

theorem pointer_text (path : Pointer) : Edit.pointer path.text = .ok path := by
  rw [Edit.pointer, Pointer.ofText?, dif_pos path.rooted]

/-- Edits are local. Below the root, replacing and adding under a key of an object write the value
there and nothing else, and removing takes away nothing else. In an array the items from the place
of the edit on move by one, and nothing else changes. All of this goes by the keys of pointers, and
every key can be spelled.
-/
theorem edits_stay_local {path : Pointer} {keys : List String} {last : String}
    (below : path.keys = keys ++ [last]) (document value result : Json)
    : (apply [.replace path.text value] document = .ok result
        → result.at? path = some value ∧ Json.SameElsewhere path.keys document result)
      ∧ (apply [.add path.text value] document = .ok result
        → Json.Adds keys last value document result)
      ∧ (apply [.remove path.text] document = .ok result
        → Json.Removes keys last document result)
      ∧ (∀ spelled, (Pointer.ofKeys spelled).keys = spelled)
      ∧ ∀ front key members,
          document.get? front = some (.object members)
          → document.at? (Pointer.ofKeys (front ++ [key])) = members.lookup key := by
  have read := pointer_text path
  refine ⟨fun done => ?_, fun done => ?_, fun done => ?_, Pointer.keys_ofKeys,
    fun _ key _ container => Json.at?_ofKeys key container⟩
  · have asked : (Edit.replace path.text value).check = .ok (.replace path value) :=
      bind_eq_ok_iff.mpr ⟨path, read, rfl⟩
    rw [apply_singleton asked] at done
    exact Json.replaced_of_replace (located_ok done)
  · have asked : (Edit.add path.text value).check = .ok (.add path value) :=
      bind_eq_ok_iff.mpr ⟨path, read, rfl⟩
    rw [apply_singleton asked] at done
    exact Json.adds_of_add below (located_ok done)
  · have asked : (Edit.remove path.text).check = .ok (.remove path) :=
      bind_eq_ok_iff.mpr ⟨path, read, rfl⟩
    rw [apply_singleton asked] at done
    obtain ⟨⟨_, _⟩, taken, rfl⟩ := map_eq_ok_iff.mp (located_ok done)
    exact Json.removes_of_remove below taken

/-- The hall with a lamp before the items behind the first door. -/
def litHall : Json :=
  .object
    [("a/b", .array [.string "lamp", .null, .bool true]), ("~1", .object [("0", .string "shut")])]

/-- The hall with nothing behind the second door. -/
def bareHall : Json :=
  .object [("a/b", .array [.null, .bool true]), ("~1", .object [])]

/-- Putting the lamp there and taking out what is inside the second door change nothing else. -/
theorem hall_stays_elsewhere
    : (apply [.add "/a~1b/0" (.string "lamp")] hall = .ok litHall
        ∧ Json.Adds ["a/b"] "0" (.string "lamp") hall litHall)
      ∧ apply [.remove "/~01/0"] hall = .ok bareHall
      ∧ Json.Removes ["~1"] "0" hall bareHall := by
  have first : (Pointer.ofKeys ["a/b", "0"]).keys = ["a/b"] ++ ["0"] := Pointer.keys_ofKeys _
  have second : (Pointer.ofKeys ["~1", "0"]).keys = ["~1"] ++ ["0"] := Pointer.keys_ofKeys _
  have lit : apply [.add "/a~1b/0" (.string "lamp")] hall = .ok litHall := by
    with_unfolding_all rfl
  have bare : apply [.remove "/~01/0"] hall = .ok bareHall := by
    with_unfolding_all rfl
  exact ⟨⟨lit, (edits_stay_local first hall (.string "lamp") litHall).2.1 lit⟩, bare,
    (edits_stay_local second hall .null bareHall).2.2.1 bare⟩

end Patch

end Statechart
