import Statechart.Json.Printer

/-! The decimal digits of a natural are read back as that natural, and the text of a 64-bit
integer as that integer.
-/

namespace Statechart

namespace Numeral

/-- The value of a decimal digit. -/
def digitValue (c : Char) : Nat :=
  c.toNat - '0'.toNat

/-- A text that does not go on with a digit. -/
def StopsDigits (rest : List Char) : Prop :=
  ∀ c, rest.head? = some c → c.isDigit = false

theorem stopsDigits_nil : StopsDigits [] :=
  fun _ first => nomatch first

theorem stopsDigits_cons {c : Char} {rest : List Char} (other : c.isDigit = false)
    : StopsDigits (c :: rest) := by
  intro first same
  obtain rfl := Option.some.inj same
  exact other

/-- Digits are read up to where they stop, by induction on them. -/
theorem leadingDigits_append {digits rest : List Char}
    (all : ∀ c ∈ digits, c.isDigit = true) (stops : StopsDigits rest)
    : leadingDigits (digits ++ rest) = (digits.map digitValue, rest) := by
  induction digits with
  | nil =>
      cases rest with
      | nil => rfl
      | cons c rest => simp [leadingDigits, digit?, stops c rfl]
  | cons c digits ih =>
      have isDigit := all c List.mem_cons_self
      have others := ih (fun other member => all other (List.mem_cons_of_mem _ member))
      simp [leadingDigits, digit?, isDigit, others, digitValue]

theorem ofDigits_map (digits : List Char)
    : ofDigits (digits.map digitValue) = Nat.ofDigitChars 10 digits 0 := by
  rw [ofDigits, List.foldl_map, Nat.ofDigitChars_eq_foldl]
  rfl

theorem isDigit_toDigits {n : Nat} {c : Char} (member : c ∈ Nat.toDigits 10 n)
    : c.isDigit = true :=
  Nat.isDigit_of_mem_toDigits (by decide) (by decide) member

/-- The digits of a natural other than zero do not begin with a zero: the first digit is that of
a tenth of it, by induction on the size.
-/
theorem head?_toDigits {n : Nat} (positive : 0 < n) : (Nat.toDigits 10 n).head? ≠ some '0' := by
  induction n using Nat.strongRecOn with
  | ind n ih =>
      by_cases small : n < 10
      · rw [Nat.toDigits_of_lt_base small]
        simp only [List.head?_cons, ne_eq, Option.some.injEq, Nat.digitChar_eq_zero]
        omega
      · rw [Nat.toDigits_of_base_le (by decide) (by omega), List.head?_append]
        obtain ⟨first, rest, shape⟩ :=
          List.exists_cons_of_ne_nil (l := Nat.toDigits 10 (n / 10)) Nat.toDigits_ne_nil
        have leads := ih (n / 10) (by omega) (by omega)
        simpa [shape] using leads

theorem digitValue_ne_zero {c : Char} (isDigit : c.isDigit = true) (other : c ≠ '0')
    : digitValue c ≠ 0 := by
  intro none
  have low : 48 ≤ c.toNat := (Char.isDigit_iff_toNat.mp isDigit).1
  have same : c.toNat = '0'.toNat := by
    simp only [digitValue, Char.reduceToNat] at none ⊢
    omega
  exact other (Char.toNat_inj.mp same)

/-- Read as digits, a natural is a lone zero or does not begin with one. -/
theorem digitValues_cases (n : Nat)
    : (Nat.toDigits 10 n).map digitValue = [0]
      ∨ ∃ first rest, (Nat.toDigits 10 n).map digitValue = first :: rest ∧ first ≠ 0 := by
  rcases Nat.eq_zero_or_pos n with rfl | positive
  · left
    rfl
  · right
    obtain ⟨first, rest, shape⟩ :=
      List.exists_cons_of_ne_nil (l := Nat.toDigits 10 n) Nat.toDigits_ne_nil
    have isDigit : first.isDigit = true := isDigit_toDigits (shape ▸ List.mem_cons_self)
    have other : first ≠ '0' := by
      rintro rfl
      exact head?_toDigits positive (by rw [shape, List.head?_cons])
    exact ⟨digitValue first, rest.map digitValue, by rw [shape, List.map_cons],
      digitValue_ne_zero isDigit other⟩

/-- The digits of a natural are a numeral of its own. -/
theorem ofChars?_toDigits (n : Nat)
    : ofChars? (Nat.toDigits 10 n)
      = some ⟨false, (Nat.toDigits 10 n).map digitValue, none, none⟩ := by
  have read : leadingDigits (Nat.toDigits 10 n) = ((Nat.toDigits 10 n).map digitValue, []) := by
    simpa using leadingDigits_append (fun _ => isDigit_toDigits) stopsDigits_nil
  have unsigned : ∀ rest, Nat.toDigits 10 n ≠ '-' :: rest := by
    intro rest shape
    have isDigit : '-'.isDigit = true := isDigit_toDigits (shape ▸ List.mem_cons_self)
    simp at isDigit
  unfold ofChars?
  split
  rename_i negative text signed
  split at signed
  · exact absurd ‹_› (unsigned _)
  · obtain ⟨rfl, rfl⟩ := Prod.mk.inj signed
    rw [read]
    rcases digitValues_cases n with zero | ⟨first, rest, shape, leads⟩
    · simp [zero, exponent?]
    · rw [shape]
      cases first with
      | zero => exact absurd rfl leads
      | succ first => simp [exponent?]

/-- So are they after a minus sign. -/
theorem ofChars?_minus (n : Nat)
    : ofChars? ('-' :: Nat.toDigits 10 n)
      = some ⟨true, (Nat.toDigits 10 n).map digitValue, none, none⟩ := by
  have read : leadingDigits (Nat.toDigits 10 n) = ((Nat.toDigits 10 n).map digitValue, []) := by
    simpa using leadingDigits_append (fun _ => isDigit_toDigits) stopsDigits_nil
  simp only [ofChars?, read]
  rcases digitValues_cases n with zero | ⟨first, rest, shape, leads⟩
  · simp [zero, exponent?]
  · rw [shape]
    cases first with
    | zero => exact absurd rfl leads
    | succ first => simp [exponent?]

end Numeral

namespace Number

/-- The integers that are written and read exactly: those of 64 bits, signed or not. -/
def Fits64 (value : Int) : Prop :=
  -Nat.pow 2 63 ≤ value ∧ value < Nat.pow 2 64

theorem fits64_natural {n : Nat} (small : n < Nat.pow 2 64) : Fits64 n := by
  constructor
  · omega
  · exact Int.ofNat_lt.mpr small

/-- The text of such an integer is a numeral that stands for it. -/
theorem ofChars?_integerChars {value : Int} (fits : Fits64 value)
    : ∃ numeral,
        Numeral.ofChars? (Json.integerChars value) = some numeral
        ∧ numeral.number? = some (.integer value) := by
  obtain ⟨low, high⟩ := fits
  cases value with
  | ofNat n =>
      refine ⟨_, Numeral.ofChars?_toDigits n, ?_⟩
      have small : n < Nat.pow 2 64 := Int.ofNat_lt.mp high
      simp only [Numeral.number?, Numeral.integer?, Numeral.ofDigits_map,
        Nat.ofDigitChars_ten_toDigits, if_pos small]
      rfl
  | negSucc n =>
      refine ⟨_, Numeral.ofChars?_minus (n + 1), ?_⟩
      have small : n + 1 ≤ Nat.pow 2 63 := by omega
      simp only [Numeral.number?, Numeral.integer?, Numeral.ofDigits_map,
        Nat.ofDigitChars_ten_toDigits, Nat.zero_lt_succ, decide_true, small, Bool.and_self,
        if_true]
      rfl

end Number

end Statechart
