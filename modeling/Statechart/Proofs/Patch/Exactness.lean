import Statechart.Patch.Apply
import Statechart.Proofs.Fallible
import Statechart.Proofs.Json.Exactness

/-! Edits keep a document exact if the values that they write are: every other value that they put
somewhere is taken from the document itself.
-/

namespace Statechart

namespace Json

theorem Exact.put {members : List (String × Json)} {key : String} {value : Json}
    (exact : Exact (.object members)) (written : value.Exact)
    : Exact (.object (put key value members)) := by
  obtain ⟨distinct, all⟩ := exact.members
  refine .object (nodup_put distinct) ?_
  intro member found
  rcases mem_put found with rfl | found
  · exact written
  · exact all member found

theorem Exact.without {members : List (String × Json)} (exact : Exact (.object members))
    (key : String)
    : Exact (.object (without key members)) := by
  obtain ⟨distinct, all⟩ := exact.members
  refine .object (distinct.sublist (List.eraseP_sublist.map _)) ?_
  intro member found
  exact all member (List.mem_of_mem_eraseP found)

/-- What a key names inside an exact document is exact. -/
theorem Exact.child? {value child : Json} {key : String} (exact : value.Exact)
    (found : value.child? key = some child)
    : child.Exact := by
  cases value with
  | object members =>
      obtain ⟨_, _, split, _⟩ := List.lookup_eq_some_iff.mp found
      exact exact.members.2 (key, child) (by simp [split])
  | array items =>
      obtain ⟨position, _, found⟩ := Option.bind_eq_some_iff.mp found
      exact exact.items child (List.mem_of_getElem? found)
  | _ => cases found

/-- So is what a path leads to, by induction on the path. -/
theorem Exact.get? {value found : Json} {keys : List String} (exact : value.Exact)
    (leads : value.get? keys = some found)
    : found.Exact := by
  induction keys generalizing value with
  | nil => exact Option.some.inj leads ▸ exact
  | cons key keys ih =>
      obtain ⟨child, named, leads⟩ := Option.bind_eq_some_iff.mp leads
      exact ih (exact.child? named) leads

/-- A change that keeps values exact keeps the document exact in which it is made, and what holds
of all that it gives holds of what is given; by the recursion along the path.
-/
theorem exact_modifyGet {ε α : Type} (good : α → Prop) {missing : ε}
    {change : Json → Except ε (α × Json)} {keys : List String} {value : Json}
    {result : α × Json}
    (keeps
      : ∀ value result, value.Exact → change value = .ok result → good result.1 ∧ result.2.Exact)
    (exact : value.Exact) (modified : modifyGet missing change keys value = .ok result)
    : good result.1 ∧ result.2.Exact := by
  induction keys generalizing value result with
  | nil =>
      rw [modifyGet] at modified
      exact keeps value result exact modified
  | cons key keys ih =>
      cases value with
      | object members =>
          rw [modifyGet] at modified
          split at modified
          · cases modified
          · rename_i child found
            obtain ⟨next, inner, rfl⟩ := map_eq_ok_iff.mp modified
            obtain ⟨given, changed⟩ := ih (exact.child? found) inner
            exact ⟨given, exact.put changed⟩
      | array items =>
          rw [modifyGet] at modified
          split at modified
          · cases modified
          rename_i position named
          split at modified
          · cases modified
          rename_i child found
          obtain ⟨next, inner, rfl⟩ := map_eq_ok_iff.mp modified
          obtain ⟨given, changed⟩ := ih (exact.items child (List.mem_of_getElem? found)) inner
          refine ⟨given, .array ?_⟩
          intro item member
          rcases List.mem_or_eq_of_mem_set member with old | rfl
          · exact exact.items item old
          · exact changed
      | _ =>
          rw [modifyGet] at modified
          · cases modified
          all_goals nofun

theorem exact_modify {ε : Type} {missing : ε} {change : Json → Except ε Json} {keys : List String}
    {value result : Json}
    (keeps : ∀ value result, value.Exact → change value = .ok result → result.Exact)
    (exact : value.Exact) (modified : modify missing change keys value = .ok result)
    : result.Exact := by
  obtain ⟨given, found, rfl⟩ := map_eq_ok_iff.mp modified
  refine (exact_modifyGet (fun _ => True) ?_ exact found).2
  intro before after exact changed
  obtain ⟨next, made, rfl⟩ := map_eq_ok_iff.mp changed
  exact ⟨trivial, keeps before next exact made⟩

theorem exact_addChild {path key : String} {value container result : Json}
    (written : value.Exact) (exact : container.Exact)
    (added : addChild path key value container = .ok result)
    : result.Exact := by
  cases container with
  | object members =>
      cases added
      exact exact.put written
  | array items =>
      have all : ∀ item, item = value ∨ item ∈ items → item.Exact := by
        rintro item (rfl | old)
        · exact written
        · exact exact.items item old
      simp only [addChild] at added
      split at added
      · cases added
        refine .array (fun item member => all item ?_)
        rcases List.mem_append.mp member with old | new
        · exact .inr old
        · exact .inl (List.mem_singleton.mp new)
      split at added
      · cases added
      split at added
      · rename_i fits
        cases added
        exact .array (fun item member => all item ((List.mem_insertIdx fits).mp member))
      · cases added
  | _ => cases added

theorem exact_removeChild {path key : String} {container : Json} {result : Json × Json}
    (exact : container.Exact) (removed : removeChild path key container = .ok result)
    : result.1.Exact ∧ result.2.Exact := by
  cases container with
  | object members =>
      simp only [removeChild] at removed
      split at removed
      · cases removed
      · rename_i value found
        cases removed
        exact ⟨exact.child? found, exact.without key⟩
  | array items =>
      simp only [removeChild] at removed
      split at removed
      · cases removed
      split at removed
      · cases removed
      · rename_i value found
        cases removed
        refine ⟨exact.items value (List.mem_of_getElem? found), .array ?_⟩
        exact fun item member => exact.items item (List.mem_of_mem_eraseIdx member)
  | _ => cases removed

theorem exact_add {document value result : Json} {path : Pointer} (exact : document.Exact)
    (written : value.Exact) (added : document.add path value = .ok result)
    : result.Exact := by
  unfold add at added
  split at added
  · exact Except.ok.inj added ▸ written
  · exact exact_modify (fun _ _ => exact_addChild written) exact added

theorem exact_remove {document : Json} {result : Json × Json} {path : Pointer}
    (exact : document.Exact) (removed : document.remove path = .ok result)
    : result.1.Exact ∧ result.2.Exact := by
  unfold remove at removed
  split at removed
  · cases removed
    exact ⟨exact, .null⟩
  · exact exact_modifyGet Exact (fun _ _ => exact_removeChild) exact removed

theorem exact_replace {document value result : Json} {path : Pointer} (exact : document.Exact)
    (written : value.Exact) (replaced : document.replace path value = .ok result)
    : result.Exact := by
  refine exact_modify ?_ exact replaced
  intro _ next _ same
  exact Except.ok.inj same ▸ written

theorem exact_sourceValue {document value : Json} {source : Pointer} (exact : document.Exact)
    (found : document.sourceValue source = .ok value)
    : value.Exact := by
  unfold sourceValue at found
  split at found
  · rename_i there leads
    exact Except.ok.inj found ▸ exact.get? leads
  · cases found

end Json

namespace Change

/-- The value that a change writes, if it brings one; a value to compare with is not written. -/
def written? : Change → Option Json
  | .add _ value | .replace _ value => some value
  | _ => none

/-- A change keeps a document exact if what it writes is; by the kinds of changes. -/
theorem apply_exact {change : Change} {document result : Json} (exact : document.Exact)
    (written : ∀ value, change.written? = some value → value.Exact)
    (applied : change.apply document = .ok result)
    : result.Exact := by
  cases change with
  | add path value => exact Json.exact_add exact (written value rfl) applied
  | remove path =>
      obtain ⟨left, removed, rfl⟩ := map_eq_ok_iff.mp applied
      exact (Json.exact_remove exact removed).2
  | replace path value => exact Json.exact_replace exact (written value rfl) applied
  | move source path =>
      obtain ⟨_, _, applied⟩ := bind_eq_ok_iff.mp applied
      split at applied
      · exact Except.ok.inj applied ▸ exact
      split at applied
      · cases applied
      obtain ⟨⟨value, rest⟩, removed, added⟩ := bind_eq_ok_iff.mp applied
      obtain ⟨given, left⟩ := Json.exact_remove exact (mapError_eq_ok_iff.mp removed)
      exact Json.exact_add left given added
  | copy source path =>
      obtain ⟨value, found, added⟩ := bind_eq_ok_iff.mp applied
      exact Json.exact_add exact (Json.exact_sourceValue exact found) added
  | test path value =>
      simp only [apply] at applied
      split at applied
      · cases applied
      split at applied
      · exact Except.ok.inj applied ▸ exact
      · cases applied

end Change

/-- The values that edits write: those of edits that add or replace. -/
def Edit.written? (edit : Edit) : Option Json :=
  match edit.kind with
  | .add | .replace => edit.value
  | _ => none

theorem Edit.requiredValue_ok {edit : Edit} {value : Json}
    (given : edit.requiredValue = .ok value)
    : edit.value = some value := by
  unfold requiredValue at given
  split at given
  · cases given
    assumption
  · cases given

/-- A checked edit writes no other value than the edit as written; by the kind of edit. -/
theorem Edit.check_written {edit : Edit} {change : Change} {value : Json}
    (checked : edit.check = .ok change) (writes : change.written? = some value)
    : edit.written? = some value := by
  obtain ⟨path, _, checked⟩ := bind_eq_ok_iff.mp checked
  cases kind : edit.kind with
  | add =>
      simp only [kind] at checked
      obtain ⟨given, required, same⟩ := bind_eq_ok_iff.mp checked
      cases same
      cases writes
      simp only [written?, kind, requiredValue_ok required]
  | replace =>
      simp only [kind] at checked
      obtain ⟨given, required, same⟩ := bind_eq_ok_iff.mp checked
      cases same
      cases writes
      simp only [written?, kind, requiredValue_ok required]
  | remove =>
      simp only [kind] at checked
      cases checked
      cases writes
  | move | copy | test =>
      simp only [kind] at checked
      obtain ⟨_, _, same⟩ := bind_eq_ok_iff.mp checked
      cases same
      cases writes

namespace Patch

theorem located_ok {α : Type} {position : Nat} {result : Except EditFault α} {value : α}
    (h : located position result = .ok value)
    : result = .ok value := by
  cases result with
  | ok other => exact congrArg _ (Except.ok.inj h)
  | error fault => cases h

/-- Edits whose values are exact keep a document exact. -/
theorem exact_of_edits {edits : List Edit} {changes : List Change} {document result : Json}
    (exact : document.Exact)
    (written : ∀ edit ∈ edits, ∀ value, edit.written? = some value → value.Exact)
    (checked : check edits = .ok changes) (ran : run changes document = .ok result)
    : result.Exact := by
  refine foldlM_keeps exact ?_ ran
  rintro ⟨change, position⟩ member value next before applied
  obtain ⟨⟨edit, place⟩, found, given⟩ :=
    exists_ok_of_mapM checked change (List.fst_mem_of_mem_zipIdx member)
  refine Change.apply_exact before ?_ (located_ok applied)
  intro value writes
  exact written edit (List.fst_mem_of_mem_zipIdx found) value
    (Edit.check_written (located_ok given) writes)

end Patch

end Statechart
