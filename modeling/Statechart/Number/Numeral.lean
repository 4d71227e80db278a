import Statechart.Number.Binary64

/-! Decimal numerals as written: a sign, digits, a fraction and an exponent. A numeral with
neither fraction nor exponent names an integer when it fits 64 bits; any other is read as a
binary number in a few rounded steps.
-/

namespace Statechart

/-- A number of a document: an exact integer or a binary number. -/
inductive Number where
  | integer (value : Int)
  | decimal (value : Binary64)
deriving DecidableEq, Repr

namespace Number

/-- Numbers are the same if their values are; an integer is never the same as a decimal. -/
def same : Number → Number → Bool
  | .integer a, .integer b => a == b
  | .decimal a, .decimal b => a.sameValue b
  | _, _ => false

end Number

/-- The parts of a numeral, digits by their values. -/
structure Numeral where
  negative : Bool
  whole : List Nat
  fraction : Option (List Nat)
  exponent : Option Int
deriving DecidableEq, Repr

namespace Numeral

-----------------------------------------------------------------------------------------
-- The grammar of numerals
-----------------------------------------------------------------------------------------

def digit? (c : Char) : Option Nat :=
  if c.isDigit then some (c.toNat - '0'.toNat) else none

/-- The digits a text begins with, and what follows them. -/
def leadingDigits : List Char → List Nat × List Char
  | [] => ([], [])
  | c :: rest =>
      match digit? c with
      | some d => (d :: (leadingDigits rest).1, (leadingDigits rest).2)
      | none => ([], c :: rest)

/-- The natural that a list of digits writes. -/
def ofDigits (digits : List Nat) : Nat :=
  digits.foldl (fun value d => 10 * value + d) 0

/-- The exponent that ends a numeral: an `e`, an optional sign and at least one digit. -/
def exponent? : List Char → Option (Option Int)
  | [] => some none
  | mark :: rest =>
      if mark = 'e' ∨ mark = 'E' then
        let (negative, rest) :=
          match rest with
          | '-' :: rest => (true, rest)
          | '+' :: rest => (false, rest)
          | rest => (false, rest)
        match leadingDigits rest with
        | (d :: digits, []) =>
            let size : Int := ofDigits (d :: digits)
            some (some (if negative then -size else size))
        | _ => none
      else none

/-- Reads a whole text as a numeral. The digits before the point are a lone zero or begin
with another digit, and at least one digit follows a point.
-/
def ofChars? (text : List Char) : Option Numeral :=
  let (negative, text) :=
    match text with
    | '-' :: rest => (true, rest)
    | text => (false, text)
  match leadingDigits text with
  | ([], _) => none
  | (0 :: _ :: _, _) => none
  | (whole, '.' :: rest) =>
      match leadingDigits rest with
      | ([], _) => none
      | (fraction, rest) =>
          (exponent? rest).map (fun exponent => ⟨negative, whole, some fraction, exponent⟩)
  | (whole, rest) =>
      (exponent? rest).map (fun exponent => ⟨negative, whole, none, exponent⟩)

-----------------------------------------------------------------------------------------
-- The number that a numeral stands for
-----------------------------------------------------------------------------------------

/-- The largest significand kept while digits are gathered. -/
def significandLimit : Nat :=
  Nat.pow 2 64 - 1

/-- Appends digits to a significand as long as it stays within the limit, and returns it
with the digits that were not taken. After one that does not fit, none is taken.
-/
def gather (significand : Nat) : List Nat → Nat × List Nat
  | [] => (significand, [])
  | d :: digits =>
      if 10 * significand + d ≤ significandLimit then gather (10 * significand + d) digits
      else (significand, d :: digits)

/-- The binary number nearest to a power of ten. -/
def powerOfTen? (exponent : Nat) : Option Binary64 :=
  Binary64.ofRatio? false (Nat.pow 10 exponent) 1

/-- The largest exponent of a power of ten that a binary number can be near to. -/
def largestPower : Nat :=
  308

/-- Divides by the largest power of ten a number of times, or until nothing is left. -/
def divideByLargest? : Nat → Binary64 → Option Binary64
  | 0, x => some x
  | times + 1, x =>
      if x.isZero then some x
      else do
        let power ← powerOfTen? largestPower
        let quotient ← x.div? power
        divideByLargest? times quotient

/-- Scales a number by a power of ten: one rounded product or quotient when the power is
itself near a binary number. A smaller scale first divides by the largest power as often as
that takes; a larger one is out of range, except for zero.
-/
def scaleByTen? (x : Binary64) (exponent : Int) : Option Binary64 :=
  let size := exponent.natAbs
  if 0 ≤ exponent then
    if size ≤ largestPower then (powerOfTen? size).bind x.mul?
    else if x.isZero then some x
    else none
  else do
    let times := (size - 1) / largestPower
    let rest ← powerOfTen? (size - times * largestPower)
    let scaled ← divideByLargest? times x
    scaled.div? rest

/-- The binary number that a numeral is read as, or none when it is out of range. -/
def decimal? (n : Numeral) : Option Binary64 := do
  let (significand, dropped) := gather 0 n.whole
  let fraction := n.fraction.getD []
  let (significand, ignored) := gather significand fraction
  let taken := fraction.length - ignored.length
  let exponent := n.exponent.getD 0 + dropped.length - taken
  let start ← Binary64.ofRatio? false significand 1
  let magnitude ← scaleByTen? start exponent
  return magnitude.withSign n.negative

/-- The integer that a numeral names, if it is one of 64 bits, signed or not. -/
def integer? (n : Numeral) : Option Int :=
  let magnitude := ofDigits n.whole
  match n.fraction, n.exponent, n.negative with
  | none, none, false => if magnitude < Nat.pow 2 64 then some magnitude else none
  | none, none, true =>
      if 0 < magnitude && magnitude ≤ Nat.pow 2 63 then some (-magnitude) else none
  | _, _, _ => none

/-- The number that a numeral stands for, or none when it is out of range. -/
def number? (n : Numeral) : Option Number :=
  match n.integer? with
  | some value => some (.integer value)
  | none => n.decimal?.map .decimal

end Numeral

end Statechart
