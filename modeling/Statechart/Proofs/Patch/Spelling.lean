import Statechart.Proofs.Patch.Decoding

/-! Pointers spelled from keys. Every list of keys has a pointer, whose text escapes each tilde and
each slash in them. A text in which every tilde begins an escape is the only one of its kind for its
keys, so two such texts lead one inside the other exactly if the longer goes on where the other
ends.
-/

namespace Statechart

namespace Pointer

/-- Writes a key with an escape for each tilde and each slash in it. -/
def escape : List Char → List Char
  | [] => []
  | c :: rest =>
      if c = '~' then '~' :: '0' :: escape rest
      else if c = '/' then '~' :: '1' :: escape rest
      else c :: escape rest

/-- Segments written one after the other, each after a slash. -/
def join (segments : List (List Char)) : List Char :=
  segments.flatMap (fun segment => '/' :: segment)

theorem rooted_join (segments : List (List Char))
    : (String.ofList (join segments)).toList.head?.all (· = '/') = true := by
  cases segments <;> simp [join]

/-- The pointer to the end of keys. -/
def ofKeys (keys : List String) : Pointer :=
  ⟨String.ofList (join (keys.map (fun key => escape key.toList))), rooted_join _⟩

-----------------------------------------------------------------------------------------
-- Every key can be spelled
-----------------------------------------------------------------------------------------

theorem decode_cons_of_ne {c : Char} (plain : c ≠ '~') (rest : List Char)
    : decode (c :: rest) = c :: decode rest := by
  rw [decode]
  · exact fun _ same _ => plain same
  · exact fun _ same _ => plain same

/-- An escaped key is read back, by induction on the key. -/
theorem decode_escape (key : List Char) : decode (escape key) = key := by
  induction key with
  | nil => rfl
  | cons c rest ih =>
      rw [escape]
      split
      · rename_i tilde
        rw [decode, ih, tilde]
      · rename_i plain
        split
        · rename_i slash
          rw [decode, ih, slash]
        · rw [decode_cons_of_ne plain, ih]

theorem slash_notMem_escape (key : List Char) : '/' ∉ escape key := by
  induction key with
  | nil => exact List.not_mem_nil
  | cons c rest ih =>
      rw [escape]
      split
      · simp [ih]
      · split
        · simp [ih]
        · rename_i plain
          simp [ih, Ne.symm plain]

/-- Joined segments without slashes are told apart again, after a first one too; by induction on
them.
-/
theorem splitOn_append_join {first : List Char} {segments : List (List Char)}
    (plain : ∀ segment ∈ first :: segments, '/' ∉ segment)
    : (first ++ join segments).splitOn '/' = first :: segments := by
  induction segments generalizing first with
  | nil =>
      rw [join, List.flatMap_nil, List.append_nil]
      exact List.splitOn_eq_singleton (plain first List.mem_cons_self)
  | cons next others ih =>
      have rest := ih (fun segment member => plain segment (List.mem_cons_of_mem _ member))
      have single := List.splitOn_eq_singleton (plain first List.mem_cons_self)
      rw [join, List.flatMap_cons, ← join, List.cons_append, List.splitOn_append_cons_self, single,
        rest, List.singleton_append]

/-- A pointer spelled from keys has just these keys. -/
@[simp]
theorem keys_ofKeys (keys : List String) : (ofKeys keys).keys = keys := by
  have plain : ∀ segment ∈ [] :: keys.map (fun key => escape key.toList), '/' ∉ segment := by
    intro segment member
    rcases List.mem_cons.mp member with rfl | member
    · exact List.not_mem_nil
    · obtain ⟨key, _, rfl⟩ := List.mem_map.mp member
      exact slash_notMem_escape key.toList
  have split := splitOn_append_join plain
  rw [List.nil_append] at split
  simp [keys_eq, keysOf, ofKeys, split, decode_escape, Function.comp_def]

-----------------------------------------------------------------------------------------
-- Texts in which every tilde begins an escape
-----------------------------------------------------------------------------------------

/-- Every tilde of a text begins an escape. -/
def Escaped : List Char → Prop
  | '~' :: '1' :: rest => Escaped rest
  | '~' :: '0' :: rest => Escaped rest
  | c :: rest => c ≠ '~' ∧ Escaped rest
  | [] => True

theorem splitOn_cons_of_ne {c : Char} (plain : c ≠ '/') {rest first : List Char}
    {others : List (List Char)} (split : rest.splitOn '/' = first :: others)
    : (c :: rest).splitOn '/' = (c :: first) :: others := by
  rw [List.splitOn_cons_eq_if_modifyHead, split, if_neg (by simpa using plain)]
  rfl

/-- The segments of an escaped text are what their keys are escaped as; by the reading of escapes,
which are never cut by a slash.
-/
theorem escape_decode_splitOn {text : List Char} (escaped : Escaped text)
    : ∃ first others,
        text.splitOn '/' = first :: others
        ∧ escape (decode first) ++ join (others.map (fun segment => escape (decode segment)))
          = text := by
  fun_induction Escaped text with
  | case1 rest ih =>
      obtain ⟨first, others, split, same⟩ := ih escaped
      have split := splitOn_cons_of_ne (by decide : '1' ≠ '/') split
      have split := splitOn_cons_of_ne (by decide : '~' ≠ '/') split
      refine ⟨_, others, split, ?_⟩
      simp [decode, escape, same]
  | case2 rest ih =>
      obtain ⟨first, others, split, same⟩ := ih escaped
      have split := splitOn_cons_of_ne (by decide : '0' ≠ '/') split
      have split := splitOn_cons_of_ne (by decide : '~' ≠ '/') split
      refine ⟨_, others, split, ?_⟩
      simp [decode, escape, same]
  | case3 c rest notOne notZero ih =>
      obtain ⟨plain, escaped⟩ := escaped
      obtain ⟨first, others, split, same⟩ := ih escaped
      by_cases slash : c = '/'
      · refine ⟨[], first :: others, ?_, ?_⟩
        · rw [List.splitOn_cons_eq_if_modifyHead, split, if_pos (by simp [slash])]
        · simpa [decode, escape, join, slash] using same
      · refine ⟨c :: first, others, splitOn_cons_of_ne slash split, ?_⟩
        simp [decode_cons_of_ne plain, escape, plain, slash, same]
  | case4 => exact ⟨[], [], rfl, rfl⟩

/-- An escaped text is the one that its keys are spelled as: nothing stands before its first slash.
-/
theorem toList_text_of_escaped {pointer : Pointer} (escaped : Escaped pointer.text.toList)
    : pointer.text.toList = join (pointer.keys.map (fun key => escape key.toList)) := by
  obtain ⟨first, others, split, same⟩ := escape_decode_splitOn escaped
  have empty : first = [] := by
    have rooted := pointer.rooted
    cases shape : pointer.text.toList with
    | nil =>
        rw [shape] at split
        cases split
        rfl
    | cons c rest =>
        rw [shape] at rooted split
        obtain rfl : c = '/' := by simpa using rooted
        rw [List.splitOn_cons_eq_if_modifyHead, if_pos (by simp)] at split
        exact (List.cons.inj split).1.symm
  rw [← same, keys_eq, keysOf, split, empty]
  simp [decode, escape, Function.comp_def]

-----------------------------------------------------------------------------------------
-- Pointers that lead inside where others lead
-----------------------------------------------------------------------------------------

/-- The keys of a pointer go on where those of another end. -/
def Inside (pointer outer : Pointer) : Prop :=
  ∃ key more, pointer.keys = outer.keys ++ key :: more

/-- A pointer whose text goes on where that of another ends leads inside. -/
theorem inside_of_goesOn {pointer outer : Pointer} (goesOn : pointer.goesOn outer = true)
    : pointer.Inside outer := by
  obtain ⟨later, shape⟩ := List.isPrefixOf_iff_prefix.mp goesOn
  obtain ⟨root, segments, split⟩ :=
    List.exists_cons_of_ne_nil (List.splitOn_ne_nil '/' outer.text.toList)
  obtain ⟨segment, others, rest⟩ := List.exists_cons_of_ne_nil (List.splitOn_ne_nil '/' later)
  refine ⟨String.ofList (decode segment),
    others.map (fun segment => String.ofList (decode segment)), ?_⟩
  rw [List.append_assoc, List.singleton_append] at shape
  simp [keys_eq, keysOf, ← shape, List.splitOn_append_cons_self, split, rest]

/-- The text of a pointer that leads inside goes on so if every tilde begins an escape. -/
theorem Inside.goesOn {pointer outer : Pointer} (inside : pointer.Inside outer)
    (escaped : Escaped pointer.text.toList) (escapedOuter : Escaped outer.text.toList)
    : pointer.goesOn outer = true := by
  obtain ⟨key, more, keys⟩ := inside
  refine List.isPrefixOf_iff_prefix.mpr
    ⟨escape key.toList ++ join (more.map (fun key => escape key.toList)), ?_⟩
  rw [toList_text_of_escaped escaped, toList_text_of_escaped escapedOuter, keys]
  simp [join]

end Pointer

end Statechart
