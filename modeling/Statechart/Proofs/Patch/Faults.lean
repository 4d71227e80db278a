import Statechart.Patch.Apply
import Statechart.Proofs.Fallible

/-! The two kinds of faults of a list of edits. Faults in how an edit is written are found
before any edit is carried out; carrying out well written edits meets only the others.
-/

namespace Statechart

/-- Whether a fault lies in how an edit is written: a path or a source that is no pointer, or
a value or a source that is missing.
-/
def EditFault.isWritten : EditFault → Bool
  | .invalidPath _ | .missingValue _ | .missingSource _ => true
  | _ => false

theorem Edit.pointer_fault {text : String} {fault : EditFault}
    (h : Edit.pointer text = .error fault)
    : fault.isWritten = true := by
  unfold Edit.pointer at h
  split at h
  · cases h
  · cases h
    rfl

/-- Checking an edit finds faults in how it is written only, whatever its kind needs. -/
theorem Edit.check_fault {edit : Edit} {fault : EditFault} (h : edit.check = .error fault)
    : fault.isWritten = true := by
  have value {fault : EditFault} (h : edit.requiredValue = .error fault)
      : fault.isWritten = true := by
    unfold Edit.requiredValue at h
    split at h <;> cases h
    rfl
  have source {fault : EditFault} (h : edit.requiredSource = .error fault)
      : fault.isWritten = true := by
    unfold Edit.requiredSource at h
    split at h
    · exact Edit.pointer_fault h
    · cases h
      rfl
  rcases bind_eq_error_iff.mp h with failed | ⟨path, _, h⟩
  · exact Edit.pointer_fault failed
  cases hk : edit.kind <;> simp only [hk] at h
  case remove => cases h
  case add | replace | test =>
    rcases bind_eq_error_iff.mp h with failed | ⟨_, _, done⟩
    · exact value failed
    · cases done
  case move | copy =>
    rcases bind_eq_error_iff.mp h with failed | ⟨_, _, done⟩
    · exact source failed
    · cases done

namespace Json

/-- A change deep in a document fails as told for a missing place, or as the change does; by
induction on the path.
-/
theorem modifyGet_fault {α : Type} {missing fault : EditFault}
    {change : Json → Except EditFault (α × Json)} {keys : List String} {document : Json}
    (h : modifyGet missing change keys document = .error fault)
    : fault = missing ∨ ∃ inner, change inner = .error fault := by
  fun_induction modifyGet missing change keys document with
  | case1 value => exact Or.inr ⟨value, h⟩
  | case3 key keys members child found ih => exact ih (map_eq_error_iff.mp h)
  | case6 key keys items position found child there ih => exact ih (map_eq_error_iff.mp h)
  | _ =>
      cases h
      exact Or.inl rfl

theorem modify_fault {missing fault : EditFault} {change : Json → Except EditFault Json}
    {keys : List String} {document : Json}
    (h : modify missing change keys document = .error fault)
    : fault = missing ∨ ∃ inner, change inner = .error fault := by
  rcases modifyGet_fault (map_eq_error_iff.mp h) with same | ⟨inner, failed⟩
  · exact Or.inl same
  · exact Or.inr ⟨inner, map_eq_error_iff.mp failed⟩

theorem addChild_fault {path key : String} {value container : Json} {fault : EditFault}
    (h : addChild path key value container = .error fault)
    : fault.isWritten = false := by
  unfold addChild at h
  repeat' split at h
  all_goals cases h
  all_goals rfl

theorem removeChild_fault {path key : String} {container : Json} {fault : EditFault}
    (h : removeChild path key container = .error fault)
    : fault.isWritten = false := by
  unfold removeChild at h
  repeat' split at h
  all_goals cases h
  all_goals rfl

theorem add_fault {document value : Json} {path : Pointer} {fault : EditFault}
    (h : document.add path value = .error fault)
    : fault.isWritten = false := by
  unfold add at h
  split at h
  · cases h
  · rcases modify_fault h with rfl | ⟨container, failed⟩
    · rfl
    · exact addChild_fault failed

theorem remove_fault {document : Json} {path : Pointer} {fault : EditFault}
    (h : document.remove path = .error fault)
    : fault.isWritten = false := by
  unfold remove at h
  split at h
  · cases h
  · rcases modifyGet_fault h with rfl | ⟨container, failed⟩
    · rfl
    · exact removeChild_fault failed

theorem replace_fault {document value : Json} {path : Pointer} {fault : EditFault}
    (h : document.replace path value = .error fault)
    : fault.isWritten = false := by
  rcases modify_fault h with rfl | ⟨_, failed⟩
  · rfl
  · cases failed

theorem sourceValue_fault {document : Json} {source : Pointer} {fault : EditFault}
    (h : document.sourceValue source = .error fault)
    : fault.isWritten = false := by
  unfold sourceValue at h
  split at h <;> cases h
  rfl

end Json

/-- Carrying out a change never finds a fault in how it was written; by the kind of change. -/
theorem Change.apply_fault {change : Change} {document : Json} {fault : EditFault}
    (h : change.apply document = .error fault)
    : fault.isWritten = false := by
  cases change with
  | add path value => exact Json.add_fault h
  | remove path => exact Json.remove_fault (map_eq_error_iff.mp h)
  | replace path value => exact Json.replace_fault h
  | move source path =>
      rcases bind_eq_error_iff.mp h with failed | ⟨value, _, h⟩
      · exact Json.sourceValue_fault failed
      split at h
      · cases h
      split at h
      · cases h
        rfl
      rcases bind_eq_error_iff.mp h with failed | ⟨⟨value, rest⟩, _, h⟩
      · obtain ⟨_, _, rfl⟩ := mapError_eq_error_iff.mp failed
        rfl
      · exact Json.add_fault h
  | copy source path =>
      rcases bind_eq_error_iff.mp h with failed | ⟨value, _, h⟩
      · exact Json.sourceValue_fault failed
      · exact Json.add_fault h
  | test path value =>
      simp only [Change.apply] at h
      split at h
      · cases h
        rfl
      · split at h <;> cases h
        rfl

namespace Patch

theorem located_error {α : Type} {position : Nat} {result : Except EditFault α}
    {error : PatchError} (h : located position result = .error error)
    : result = .error error.fault := by
  cases result with
  | ok value => cases h
  | error fault =>
      cases h
      rfl

/-- The first fault that checking a list of edits finds lies in how an edit is written. -/
theorem check_fault {edits : List Edit} {error : PatchError} (h : check edits = .error error)
    : error.fault.isWritten = true := by
  obtain ⟨⟨edit, position⟩, _, failed⟩ := exists_error_of_mapM h
  exact Edit.check_fault (located_error failed)

/-- The fault that carrying out a list of changes meets does not. -/
theorem run_fault {changes : List Change} {document : Json} {error : PatchError}
    (h : run changes document = .error error)
    : error.fault.isWritten = false := by
  obtain ⟨document, ⟨change, position⟩, _, failed⟩ := exists_error_of_foldlM h
  exact Change.apply_fault (located_error failed)

end Patch

end Statechart
