import Statechart.Proofs.Number.Digits

/-! Documents that a text can hold without loss: their numbers are 64-bit integers, and no object
repeats a key. How deep they nest is measured here as well, since a reader may refuse those that
nest too deep.
-/

namespace Statechart

namespace Json

/-- A document of 64-bit integers in which no object repeats a key. -/
inductive Exact : Json → Prop
  | null : Exact .null
  | bool (value) : Exact (.bool value)
  | number {value} (fits : Number.Fits64 value) : Exact (.number (.integer value))
  | string (text) : Exact (.string text)
  | array {items} (all : ∀ item ∈ items, Exact item) : Exact (.array items)
  | object {members} (distinct : (members.map (·.1)).Nodup)
    (all : ∀ member ∈ members, Exact member.2)
    : Exact (.object members)

theorem Exact.items {items : List Json} (exact : Exact (.array items))
    : ∀ item ∈ items, Exact item := by
  cases exact with
  | array all => exact all

theorem Exact.members {members : List (String × Json)} (exact : Exact (.object members))
    : (members.map (·.1)).Nodup ∧ ∀ member ∈ members, Exact member.2 := by
  cases exact with
  | object distinct all => exact ⟨distinct, all⟩

-----------------------------------------------------------------------------------------
-- How deep documents nest
-----------------------------------------------------------------------------------------

mutual
/-- The greatest number of containers around a value of a document, its own among them. -/
def nesting : Json → Nat
  | .array items => itemsNesting items + 1
  | .object members => membersNesting members + 1
  | _ => 0

def itemsNesting : List Json → Nat
  | [] => 0
  | item :: items => max (nesting item) (itemsNesting items)

def membersNesting : List (String × Json) → Nat
  | [] => 0
  | (_, value) :: members => max (nesting value) (membersNesting members)
end

theorem itemsNesting_cons_le_iff {item : Json} {items : List Json} {depth : Nat}
    : itemsNesting (item :: items) ≤ depth
      ↔ item.nesting ≤ depth ∧ itemsNesting items ≤ depth := by
  rw [itemsNesting, Nat.max_le]

theorem membersNesting_cons_le_iff {key : String} {value : Json}
    {members : List (String × Json)} {depth : Nat}
    : membersNesting ((key, value) :: members) ≤ depth
      ↔ value.nesting ≤ depth ∧ membersNesting members ≤ depth := by
  rw [membersNesting, Nat.max_le]

section Members

variable {α : Type}

theorem mem_put {key : String} {value : α} {members : List (String × α)}
    {member : String × α} (found : member ∈ put key value members)
    : member = (key, value) ∨ member ∈ members := by
  induction members with
  | nil =>
      left
      simpa [put] using found
  | cons first rest ih =>
      obtain ⟨name, old⟩ := first
      simp only [put] at found
      split at found
      · rename_i same
        rcases List.mem_cons.mp found with rfl | later
        · left
          rw [same]
        · right
          exact List.mem_cons_of_mem _ later
      · rcases List.mem_cons.mp found with rfl | later
        · right
          exact List.mem_cons_self
        · rcases ih later with new | old
          · left
            exact new
          · right
            exact List.mem_cons_of_mem _ old

/-- Writing a member that is not there puts it last. -/
theorem put_fresh {key : String} {value : α} {members : List (String × α)}
    (fresh : key ∉ members.map (·.1))
    : put key value members = members ++ [(key, value)] := by
  induction members with
  | nil => rfl
  | cons first rest ih =>
      obtain ⟨name, old⟩ := first
      simp only [List.map_cons, List.mem_cons, not_or] at fresh
      simp only [put, if_neg (Ne.symm fresh.1), ih fresh.2, List.cons_append]

/-- The keys after writing a member: the same ones, or one more at the end. -/
theorem map_fst_put (key : String) (value : α) (members : List (String × α))
    : (put key value members).map (·.1)
      = if key ∈ members.map (·.1) then members.map (·.1)
        else members.map (·.1) ++ [key] := by
  induction members with
  | nil => simp [put]
  | cons first rest ih =>
      obtain ⟨name, old⟩ := first
      simp only [put]
      by_cases same : name = key
      · simp [same]
      · rw [if_neg same, List.map_cons, List.map_cons, ih]
        by_cases later : key ∈ rest.map (·.1)
        · simp [later]
        · simp [later, Ne.symm same]

theorem nodup_put {key : String} {value : α} {members : List (String × α)}
    (distinct : (members.map (·.1)).Nodup)
    : ((put key value members).map (·.1)).Nodup := by
  rw [map_fst_put]
  split
  · exact distinct
  · rename_i fresh
    refine List.nodup_append.mpr ⟨distinct, by simp, ?_⟩
    rintro name member _ single rfl
    exact fresh (List.mem_singleton.mp single ▸ member)

/-- Collecting members that are all different leaves them as they are; by induction, with those
that are already written in front.
-/
theorem foldl_put_distinct {written members : List (String × α)}
    (distinct : ((written ++ members).map (·.1)).Nodup)
    : members.foldl (fun written member => put member.1 member.2 written) written
      = written ++ members := by
  induction members generalizing written with
  | nil => simp
  | cons first rest ih =>
      have fresh : first.1 ∉ written.map (·.1) := by
        intro again
        rw [List.map_append, List.map_cons] at distinct
        exact (List.nodup_append.mp distinct).2.2 _ again _ List.mem_cons_self rfl
      rw [List.foldl_cons, put_fresh fresh, ih]
      · rw [List.append_assoc, List.singleton_append]
      · rwa [List.append_assoc, List.singleton_append]

theorem collect_distinct {members : List (String × α)}
    (distinct : (members.map (·.1)).Nodup)
    : collect members = members := by
  have all : collect members = [] ++ members := foldl_put_distinct (by simpa using distinct)
  simpa using all

end Members

end Json

end Statechart
