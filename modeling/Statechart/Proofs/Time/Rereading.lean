import Statechart.Proofs.Number.Digits
import Statechart.Time.Reader

/-! The text of an instant is read back as the instant: a part filled up with zeros has as many
digits as its reader takes, and a part of any length ends where its digits stop.
-/

namespace Statechart

namespace Instant

open Numeral

-----------------------------------------------------------------------------------------
-- Digits filled up with zeros
-----------------------------------------------------------------------------------------

theorem isDigit_padded {width n : Nat} {c : Char} (member : c ∈ padded width n)
    : c.isDigit = true := by
  rcases List.mem_append.mp member with zero | digit
  · obtain rfl := List.eq_of_mem_replicate zero
    rfl
  · exact isDigit_toDigits digit

theorem padded_ne_nil (width n : Nat) : padded width n ≠ [] :=
  List.append_ne_nil_of_right_ne_nil _ Nat.toDigits_ne_nil

/-- A natural that fits the width fills it. -/
theorem length_padded {width n : Nat} (positive : 0 < width) (fits : n < Nat.pow 10 width)
    : (padded width n).length = width := by
  have short : (Nat.toDigits 10 n).length ≤ width :=
    (Nat.length_toDigits_le_iff (by decide) positive).mpr fits
  simp only [padded, List.length_append, List.length_replicate]
  omega

/-- Zeros in front do not change what digits write. -/
theorem ofDigits_padded (width n : Nat) : ofDigits ((padded width n).map digitValue) = n := by
  rw [ofDigits_map, padded, Nat.ofDigitChars_append, Nat.ofDigitChars_replicate_zero, Nat.mul_zero,
    Nat.ofDigitChars_ten_toDigits]

/-- Digits are read as a natural if they are as many as may be read, or stop. -/
theorem readNatural?_digits {most : Nat} {digits rest : List Char}
    (all : ∀ c ∈ digits, c.isDigit = true) (some_ : digits ≠ [])
    (fits : digits.length ≤ most) (stops : digits.length = most ∨ StopsDigits rest)
    : readNatural? most (digits ++ rest) = some (ofDigits (digits.map digitValue), rest) := by
  have ends : StopsDigits (rest.take (most - digits.length)) := by
    rcases stops with full | stops
    · rw [full, Nat.sub_self]
      exact stopsDigits_nil
    · cases most - digits.length with
      | zero => exact stopsDigits_nil
      | succ more =>
          cases rest with
          | nil => exact stopsDigits_nil
          | cons c rest => exact stopsDigits_cons (stops c rfl)
  have read : leadingDigits ((digits ++ rest).take most)
      = (digits.map digitValue, rest.take (most - digits.length)) := by
    rw [List.take_append, List.take_of_length_le fits]
    exact leadingDigits_append all ends
  simp [readNatural?, read, some_]

theorem readNatural?_padded {width n : Nat} (positive : 0 < width) (fits : n < Nat.pow 10 width)
    (rest : List Char)
    : readNatural? width (padded width n ++ rest) = some (n, rest) := by
  have length := length_padded positive fits
  rw [readNatural?_digits (fun _ => isDigit_padded) (padded_ne_nil _ _) (Nat.le_of_eq length)
    (.inl length), ofDigits_padded]

-----------------------------------------------------------------------------------------
-- The parts of an instant
-----------------------------------------------------------------------------------------

theorem trimStart_cons {c : Char} {rest : List Char} (shown : isBlank c = false)
    : trimStart (c :: rest) = c :: rest := by
  rw [trimStart, List.dropWhile_cons_of_neg (by simp [shown])]

theorem isBlank_of_isDigit {c : Char} (isDigit : c.isDigit = true) : isBlank c = false := by
  obtain ⟨low, high⟩ := Char.isDigit_iff_toNat.mp isDigit
  simp only [Char.reduceToNat] at low high
  simp [isBlank, blankRanges]
  omega

/-- Digits begin with no blank. -/
theorem trimStart_padded (width n : Nat) (rest : List Char)
    : trimStart (padded width n ++ rest) = padded width n ++ rest := by
  obtain ⟨c, others, shape⟩ := List.exists_cons_of_ne_nil (padded_ne_nil width n)
  have isDigit : c.isDigit = true := isDigit_padded (shape ▸ List.mem_cons_self)
  rw [shape, List.cons_append, trimStart_cons (isBlank_of_isDigit isDigit)]

theorem readPart?_padded {n : Nat} (fits : n < 100) (rest : List Char)
    : readPart? (padded 2 n ++ rest) = some (n, rest) := by
  rw [readPart?, trimStart_padded, readNatural?_padded (by decide) fits]

theorem readSeparator?_cons {c : Char} (shown : isBlank c = false) (rest : List Char)
    : readSeparator? c (c :: rest) = some rest := by
  simp only [readSeparator?, trimStart_cons shown, if_true]

theorem padded_append_ne {c : Char} (other : c.isDigit = false) (width n : Nat)
    (rest others : List Char)
    : padded width n ++ rest ≠ c :: others := by
  intro same
  obtain ⟨first, digits, shape⟩ := List.exists_cons_of_ne_nil (padded_ne_nil width n)
  have isDigit : first.isDigit = true := isDigit_padded (shape ▸ List.mem_cons_self)
  rw [shape, List.cons_append] at same
  obtain ⟨rfl, _⟩ := List.cons.inj same
  simp [other] at isDigit

/-- After a sign a natural is read as far as its digits go. -/
theorem readNatural?_signed (n : Nat) {rest : List Char} (stops : StopsDigits rest)
    : readNatural? (padded 4 n ++ rest).length (padded 4 n ++ rest) = some (n, rest) := by
  have fits : (padded 4 n).length ≤ (padded 4 n ++ rest).length := by simp
  rw [readNatural?_digits (fun _ => isDigit_padded) (padded_ne_nil _ _) fits (.inr stops),
    ofDigits_padded]

/-- A year of four digits is read as it is filled up, any other after its sign. -/
theorem readYear?_yearChars (year : Int) {rest : List Char} (stops : StopsDigits rest)
    : readYear? (yearChars year ++ rest) = some (year, rest) := by
  unfold yearChars
  split
  · rename_i plain
    have fits : year.natAbs < 10 ^ 4 := by omega
    have same : (year.natAbs : Int) = year := by omega
    rw [readYear?, trimStart_padded]
    split
    · rename_i minus
      exact absurd minus (padded_append_ne (c := '-') rfl 4 year.natAbs rest _)
    · rename_i plus
      exact absurd plus (padded_append_ne (c := '+') rfl 4 year.natAbs rest _)
    · rw [readNatural?_padded (by decide) fits, Option.map_some]
      simp only [same]
  · split
    · rename_i negative
      have same : -(year.natAbs : Int) = year := by omega
      rw [List.cons_append, readYear?, trimStart_cons rfl]
      simp only [readNatural?_signed _ stops, Option.map_some, same]
    · have same : (year.natAbs : Int) = year := by omega
      rw [List.cons_append, readYear?, trimStart_cons rfl]
      simp only [readNatural?_signed _ stops, Option.map_some, same]

/-- A day is read back, with what comes after it. -/
theorem readDate?_chars (date : Date) (rest : List Char)
    : readDate?
        (yearChars date.year
          ++ '-' :: (padded 2 date.month ++ '-' :: (padded 2 date.day ++ rest)))
      = some (date, rest) := by
  obtain ⟨_, _, _, months, _, days⟩ := date.valid
  have month : date.month < 100 := by omega
  have day : date.day < 100 := by
    have most : Date.daysIn date.year date.month ≤ 31 := by
      unfold Date.daysIn
      repeat' split
      all_goals omega
    omega
  have valid : Date.of? date.year date.month date.day = some date := by
    rw [Date.of?, dif_pos date.valid]
  have stops (others : List Char) : StopsDigits ('-' :: others) := stopsDigits_cons rfl
  have dash : isBlank '-' = false := rfl
  simp only [readDate?, readYear?_yearChars _ (stops _), readSeparator?_cons dash,
    readPart?_padded month, readPart?_padded day, valid, bind, Option.bind, pure]

/-- A fraction is read by the digits that it is written with, scaled to nanoseconds. -/
theorem readFraction?_padded {width n : Nat} (positive : 0 < width) (most : width ≤ 9)
    (fits : n < Nat.pow 10 width) {rest : List Char} (stops : StopsDigits rest)
    : readFraction? ('.' :: (padded width n ++ rest)) = some (n * Nat.pow 10 (9 - width), rest) := by
  have length := length_padded positive fits
  have digits
      : leadingDigits (padded width n ++ rest) = ((padded width n).map digitValue, rest) :=
    leadingDigits_append (fun _ => isDigit_padded) stops
  have value : readNatural? 9 (padded width n ++ rest) = some (n, rest) := by
    rw [readNatural?_digits (fun _ => isDigit_padded) (padded_ne_nil _ _) (by omega) (.inr stops),
      ofDigits_padded]
  have passed : min 9 width = width := by omega
  simp only [readFraction?, digits, value, bind, Option.bind, pure, List.length_map, length, passed,
    List.drop_left' length]

/-- The nanosecond is read back from a fraction of as many digits as it needs. -/
theorem readFraction?_fractionChars {nanosecond : Nat} (fits : nanosecond < 1000000000)
    (rest : List Char)
    : readFraction? (fractionChars nanosecond ++ 'Z' :: rest) = some (nanosecond, 'Z' :: rest) := by
  unfold fractionChars
  split
  · rename_i zero
    rw [List.nil_append, zero]
    rfl
  split
  · rename_i millis
    have few : nanosecond / 1000000 < 1000 := by omega
    have same : nanosecond / 1000000 * 1000000 = nanosecond := by omega
    rw [List.cons_append, readFraction?_padded (by decide) (by decide) few (stopsDigits_cons rfl)]
    exact congrArg (fun value => some (value, 'Z' :: rest)) same
  split
  · rename_i micros
    have few : nanosecond / 1000 < 1000000 := by omega
    have same : nanosecond / 1000 * 1000 = nanosecond := by omega
    rw [List.cons_append, readFraction?_padded (by decide) (by decide) few (stopsDigits_cons rfl)]
    exact congrArg (fun value => some (value, 'Z' :: rest)) same
  · rw [List.cons_append, readFraction?_padded (by decide) (by decide) fits (stopsDigits_cons rfl)]
    exact congrArg (fun value => some (value, 'Z' :: rest)) (Nat.mul_one nanosecond)

/-- A local time that is not ahead of universal time is the instant itself. -/
theorem ofLocal?_universal (t : Instant)
    : ofLocal? t.date t.minute t.second t.nanosecond 0 = some t := by
  have early : ¬ (t.minute : Int) - 0 < 0 := by omega
  have late : ¬ 1440 ≤ (t.minute : Int) - 0 := by
    have := t.minute_lt
    omega
  have minute : (((t.minute : Int) - 0) % 1440).toNat = t.minute := by
    have := t.minute_lt
    omega
  simp only [ofLocal?, if_neg early, if_neg late, minute, bind, Option.bind]
  rw [dif_pos ⟨t.minute_lt, t.second_le, t.nanosecond_lt⟩]

/-- The text of every instant is read back as the instant. -/
theorem ofText?_text (t : Instant) : ofText? t.text = some t := by
  have minutes := t.minute_lt
  have seconds := t.second_le
  have hour : t.minute / 60 < 100 := by omega
  have minute : t.minute % 60 < 100 := by omega
  have second : t.second < 100 := by omega
  have whole : t.minute / 60 * 60 + t.minute % 60 = t.minute := by omega
  have within : t.minute / 60 < 24 ∧ t.minute % 60 < 60 := by omega
  have colon : isBlank ':' = false := rfl
  have offset : readOffset? (trimStart ['Z']) = some (0, []) := rfl
  have ended : trimStart [] = [] := rfl
  have apart (rest : List Char) : readDaySeparator? ('T' :: rest) = some rest := rfl
  have written : t.text.toList
      = yearChars t.date.year
        ++ '-' :: (padded 2 t.date.month ++ '-' :: (padded 2 t.date.day
          ++ 'T' :: (padded 2 (t.minute / 60) ++ ':' :: (padded 2 (t.minute % 60)
            ++ ':' :: (padded 2 t.second ++ (fractionChars t.nanosecond ++ ['Z'])))))) := by
    simp [text, chars]
  simp only [ofText?, written, readDate?_chars, apart, readPart?_padded hour,
    readSeparator?_cons colon, readPart?_padded minute, readPart?_padded second,
    readFraction?_fractionChars t.nanosecond_lt, offset, ended, within, whole, bind, Option.bind,
    and_self, if_true, ofLocal?_universal]

end Instant

end Statechart
