import Mathlib.Data.List.Induction
import Statechart.Pointer
import Statechart.Proofs.Number.Digits

/-! Pointers decoded once: the keys of a text are what stands between its slashes, each read from
left to right with its escapes, and a key names the position that it writes in decimal. The ways in
which documents are walked and last keys are read all come to this.
-/

namespace Statechart

namespace Pointer

/-- Reads a segment from left to right with its escapes. -/
def decode : List Char → List Char
  | '~' :: '1' :: rest => '/' :: decode rest
  | '~' :: '0' :: rest => '~' :: decode rest
  | c :: rest => c :: decode rest
  | [] => []

/-- The keys that a text writes: what stands after each slash. -/
def keysOf (text : String) : List String :=
  (text.toList.splitOn '/').tail.map (fun segment => String.ofList (decode segment))

-----------------------------------------------------------------------------------------
-- Escapes
-----------------------------------------------------------------------------------------

theorem replacePair_pair (first second new : Char) (text : List Char)
    : replacePair first second new (first :: second :: text)
      = new :: replacePair first second new text := by
  rw [replacePair, if_pos ⟨rfl, rfl⟩]

theorem replacePair_cons_of_ne {first second new c : Char} (other : c ≠ first)
    (text : List Char)
    : replacePair first second new (c :: text) = c :: replacePair first second new text := by
  cases text with
  | nil => rfl
  | cons next rest => rw [replacePair, if_neg fun same => other same.1]

theorem replacePair_cons_of_head? {first second new c : Char} {text : List Char}
    (other : text.head? ≠ some second)
    : replacePair first second new (c :: text) = c :: replacePair first second new text := by
  cases text with
  | nil => rfl
  | cons next rest =>
      have differs : next ≠ second := fun same => other (congrArg some same)
      rw [replacePair, if_neg fun same => differs same.2]

/-- Replacing pairs puts nothing in front that was not there, but for what it replaces them by. -/
theorem head?_replacePair {first second new c : Char} {text : List Char}
    (leads : (replacePair first second new text).head? = some c)
    : c = new ∨ text.head? = some c := by
  match text with
  | [] => cases leads
  | [_] => exact Or.inr leads
  | a :: b :: rest =>
      rw [replacePair] at leads
      split at leads
      · exact Or.inl (Option.some.inj leads).symm
      · exact Or.inr leads

/-- Replacing one escape after the other reads both from left to right: neither can arise from the
other's replacement. By the recursion of the reading.
-/
theorem unescape_eq_decode (segment : List Char) : unescape segment = decode segment := by
  unfold unescape
  fun_induction decode segment with
  | case1 rest ih =>
      rw [replacePair_pair, replacePair_cons_of_ne (by decide : '/' ≠ '~'), ih]
  | case2 rest ih =>
      rw [replacePair_cons_of_head? (by simp), replacePair_cons_of_ne (by decide : '0' ≠ '~'),
        replacePair_pair, ih]
  | case3 c rest slash tilde ih =>
      by_cases escapes : c = '~'
      · have noOne : rest.head? ≠ some '1' := fun leads => by
          obtain ⟨others, rfl⟩ := List.head?_eq_some_iff.mp leads
          exact slash others escapes rfl
        have noZero : (replacePair '~' '1' '/' rest).head? ≠ some '0' := fun leads => by
          rcases head?_replacePair leads with same | leads
          · simp at same
          · obtain ⟨others, rfl⟩ := List.head?_eq_some_iff.mp leads
            exact tilde others escapes rfl
        rw [replacePair_cons_of_head? noOne, replacePair_cons_of_head? noZero, ih]
      · rw [replacePair_cons_of_ne escapes, replacePair_cons_of_ne escapes, ih]
  | case4 => rfl

-----------------------------------------------------------------------------------------
-- Slashes
-----------------------------------------------------------------------------------------

theorem segments_eq_splitOn (text : List Char) : segments text = text.splitOn '/' := by
  induction text with
  | nil => rfl
  | cons c rest ih =>
      rw [segments, List.splitOn_cons_eq_if_modifyHead, ih]
      by_cases slash : c = '/'
      · simp [slash]
      · obtain ⟨segment, others, split⟩ :=
          List.exists_cons_of_ne_nil (List.splitOn_ne_nil '/' rest)
        simp [slash, split]

/-- The keys of a pointer are those that its text writes. -/
theorem keys_eq (pointer : Pointer) : pointer.keys = keysOf pointer.text := by
  simp only [keys, keysOf, segments_eq_splitOn, unescape_eq_decode]

theorem splitLast?_eq_none {text : List Char} (none : splitLast? text = none) : '/' ∉ text := by
  induction text with
  | nil => exact List.not_mem_nil
  | cons c rest ih =>
      rw [splitLast?] at none
      split at none
      · cases none
      · rename_i earlier
        split at none
        · cases none
        · rename_i plain
          intro member
          rcases List.mem_cons.mp member with same | later
          · exact plain same.symm
          · exact ih earlier later

/-- A text is split at its last slash: after that there is none. By induction on the text. -/
theorem splitLast?_eq_some {text before last : List Char}
    (split : splitLast? text = some (before, last))
    : text = before ++ '/' :: last ∧ '/' ∉ last := by
  induction text generalizing before with
  | nil => cases split
  | cons c rest ih =>
      rw [splitLast?] at split
      split at split
      · rename_i later
        cases split
        obtain ⟨shape, plain⟩ := ih later
        exact ⟨by rw [shape, List.cons_append], plain⟩
      · rename_i none
        split at split
        · rename_i slash
          cases split
          exact ⟨by rw [slash, List.nil_append], splitLast?_eq_none none⟩
        · cases split

/-- A pointer that is not split is that to the root, which has no keys. -/
theorem keysOf_of_split?_eq_none {pointer : Pointer} (none : pointer.split? = none)
    : keysOf pointer.text = [] := by
  unfold split? at none
  split at none
  · rename_i plain
    have rooted := pointer.rooted
    cases shape : pointer.text.toList with
    | nil => simp [keysOf, shape]
    | cons c rest =>
        rw [shape] at rooted plain
        obtain rfl : c = '/' := by simpa using rooted
        exact absurd List.mem_cons_self (splitLast?_eq_none plain)
  · cases none

/-- The keys of a pointer that is split are those of the container, and then the last one. -/
theorem keysOf_of_split?_eq_some {pointer container : Pointer} {key : String}
    (split : pointer.split? = some (container, key))
    : keysOf pointer.text = keysOf container.text ++ [key] := by
  unfold split? at split
  split at split
  · cases split
  · rename_i before last shape
    cases split
    obtain ⟨shape, plain⟩ := splitLast?_eq_some shape
    obtain ⟨first, others, segments⟩ :=
      List.exists_cons_of_ne_nil (List.splitOn_ne_nil '/' before)
    simp [keysOf, shape, List.splitOn_append_cons_self, List.splitOn_eq_singleton plain, segments,
      unescape_eq_decode]

end Pointer

namespace Json

-----------------------------------------------------------------------------------------
-- Positions
-----------------------------------------------------------------------------------------

/-- The position that a key names in an array: the number whose decimal digits it is, if positions
can be so large.
-/
def index? (key : String) : Option Nat :=
  let number := Nat.ofDigitChars 10 key.toList 0
  if Nat.toDigits 10 number = key.toList ∧ number < positionBound then some number else none

theorem range_of_isDigit {c : Char} (isDigit : c.isDigit = true) : 48 ≤ c.toNat ∧ c.toNat ≤ 57 :=
  Char.isDigit_iff_toNat.mp isDigit

/-- A digit is the one that writes its value. -/
theorem digitChar_of_isDigit {c : Char} (isDigit : c.isDigit = true)
    : (c.toNat - 48).digitChar = c := by
  have range := range_of_isDigit isDigit
  refine Char.toNat_inj.mp ?_
  rw [Nat.toNat_digitChar_of_lt_ten (by omega)]
  omega

/-- Digits are those of the number that they write, unless they begin with a zero and go on; by
induction from the last digit on.
-/
theorem toDigits_ofDigitChars {digits : List Char} (nonempty : digits ≠ [])
    (all : ∀ c ∈ digits, c.isDigit = true)
    (canonical : digits = ['0'] ∨ digits.head? ≠ some '0')
    : Nat.toDigits 10 (Nat.ofDigitChars 10 digits 0) = digits := by
  induction digits using List.reverseRecOn with
  | nil => exact absurd rfl nonempty
  | append_singleton front last ih =>
      have isDigit := all last (by simp)
      have range := range_of_isDigit isDigit
      have written := digitChar_of_isDigit isDigit
      have number
          : Nat.ofDigitChars 10 (front ++ [last]) 0
            = 10 * Nat.ofDigitChars 10 front 0 + (last.toNat - 48) := by
        rw [Nat.ofDigitChars_append, Nat.ofDigitChars_cons, Nat.ofDigitChars_nil]
        rfl
      rw [number]
      cases front with
      | nil =>
          rw [Nat.ofDigitChars_nil, Nat.mul_zero, Nat.zero_add, Nat.toDigits_of_lt_base (by omega),
            written, List.nil_append]
      | cons first rest =>
          have leads : (first :: rest).head? ≠ some '0' := by
            rcases canonical with alone | leads
            · simp at alone
            · simpa using leads
          have before :=
            ih (by simp) (fun c member => all c (List.mem_append_left _ member)) (Or.inr leads)
          have positive : Nat.ofDigitChars 10 (first :: rest) 0 ≠ 0 := by
            intro zero
            rw [zero] at before
            exact leads (before ▸ rfl)
          have quotient
              : (10 * Nat.ofDigitChars 10 (first :: rest) 0 + (last.toNat - 48)) / 10
                = Nat.ofDigitChars 10 (first :: rest) 0 := by
            omega
          have remainder
              : (10 * Nat.ofDigitChars 10 (first :: rest) 0 + (last.toNat - 48)) % 10
                = last.toNat - 48 := by
            omega
          rw [Nat.toDigits_of_base_le (by decide) (by omega), quotient, remainder, before, written]

/-- Whether a text is digits that do not begin with a zero, unless that is all. -/
def IsCanonical (text : List Char) : Prop :=
  text ≠ [] ∧ (∀ c ∈ text, c.isDigit = true) ∧ (text = ['0'] ∨ text.head? ≠ some '0')

/-- The canonical texts are the digits of the numbers that they write. -/
theorem isCanonical_iff {text : List Char}
    : IsCanonical text ↔ Nat.toDigits 10 (Nat.ofDigitChars 10 text 0) = text := by
  constructor
  · exact fun ⟨nonempty, all, canonical⟩ => toDigits_ofDigitChars nonempty all canonical
  · intro written
    generalize Nat.ofDigitChars 10 text 0 = number at written
    subst written
    refine ⟨Nat.toDigits_ne_nil, fun c => Numeral.isDigit_toDigits, ?_⟩
    rcases Nat.eq_zero_or_pos number with rfl | positive
    · exact Or.inl rfl
    · exact Or.inr (Numeral.head?_toDigits positive)

theorem index?_eq_none {key : String} (other : ¬ IsCanonical key.toList) : index? key = none :=
  if_neg fun both => other (isCanonical_iff.mpr both.1)

/-- Digits without a sign are read as the number that they write. -/
theorem natural64?_eq_index? {key : String} (canonical : IsCanonical key.toList)
    : natural64? key.toList = index? key := by
  obtain ⟨nonempty, all, _⟩ := id canonical
  have unsigned : key.toList.head? ≠ some '+' := by
    intro signed
    have isDigit := all '+' (List.mem_of_mem_head? signed)
    simp at isDigit
  have digits : key.toList ≠ [] ∧ key.toList.all Char.isDigit = true :=
    ⟨nonempty, List.all_eq_true.mpr all⟩
  simp only [natural64?, if_neg unsigned, if_pos digits, index?, isCanonical_iff.mp canonical,
    true_and]

/-- The last key of a pointer is read as the position that it writes. -/
theorem position?_eq_index? (key : String) : position? key = index? key := by
  by_cases canonical : IsCanonical key.toList
  · obtain ⟨nonempty, all, leads⟩ := id canonical
    rw [← natural64?_eq_index? canonical]
    exact if_pos ⟨nonempty, List.all_eq_true.mpr all, leads⟩
  · rw [index?_eq_none canonical]
    refine if_neg fun ⟨nonempty, all, leads⟩ => canonical ?_
    exact ⟨nonempty, List.all_eq_true.mp all, leads⟩

/-- So is every key before it, although that is read in another way. -/
theorem stepPosition?_eq_index? (key : String) : stepPosition? key = index? key := by
  by_cases canonical : IsCanonical key.toList
  · obtain ⟨nonempty, all, leads⟩ := id canonical
    rw [← natural64?_eq_index? canonical]
    refine if_neg ?_
    rintro (signed | ⟨zero, long⟩)
    · have isDigit := all '+' (List.mem_of_mem_head? signed)
      simp at isDigit
    · rcases leads with alone | other
      · exact long (alone ▸ rfl)
      · exact other zero
  · rw [index?_eq_none canonical, stepPosition?]
    split
    · rfl
    · rename_i accepted
      obtain ⟨unsigned, short⟩ := not_or.mp accepted
      rw [natural64?, if_neg unsigned]
      refine if_neg fun ⟨nonempty, all⟩ => canonical ⟨nonempty, List.all_eq_true.mp all, ?_⟩
      by_cases zero : key.toList.head? = some '0'
      · obtain ⟨rest, shape⟩ := List.head?_eq_some_iff.mp zero
        have length : key.toList.length = 1 := by
          by_contra long
          exact short ⟨zero, long⟩
        rw [shape, List.length_cons, Nat.add_eq_right, List.length_eq_zero_iff] at length
        exact Or.inl (by rw [shape, length])
      · exact Or.inr zero

end Json

end Statechart
