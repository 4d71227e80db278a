import Statechart.Number.Binary64

/-! The decimal text of a binary number: the shortest decimal that lies among the reals
rounding to it, nearest to it among those, and laid out as a record of choices says.
-/

namespace Statechart

/-- The decimal number `digits · 10 ^ exponent`. -/
structure Decimal where
  digits : Nat
  exponent : Int
deriving DecidableEq, Repr

namespace Decimal

/-- Compares a decimal with a ratio of naturals, by cross multiplication. -/
def compareRatio (d : Decimal) (numerator denominator : Nat) : Ordering :=
  compare (d.digits * Nat.pow 10 d.exponent.toNat * denominator)
    (numerator * Nat.pow 10 (-d.exponent).toNat)

end Decimal

namespace Binary64

/-- Whether the spacing below this number is half of the spacing above it. -/
def narrowBelow (x : Binary64) : Bool :=
  x.mantissa == Nat.pow 2 52 && x.scale != 0

/-- Whether a decimal lies among the reals that round to the magnitude of this number. They
reach half a spacing to either side, and the two ends belong to the number with the even
last bit.
-/
def readsBack (x : Binary64) (d : Decimal) : Bool :=
  let quarter := Nat.pow 2 x.scale
  let below := if x.narrowBelow then quarter else 2 * quarter
  let low := d.compareRatio (4 * x.units - below) (4 * unitsOfOne)
  let high := d.compareRatio (4 * x.units + 2 * quarter) (4 * unitsOfOne)
  let even := x.mantissa % 2 == 0
  (low == .gt || (even && low == .eq)) && (high == .lt || (even && high == .eq))

/-- The point of the grid of multiples of `10 ^ exponent` that reads back and is nearest to
the magnitude. Only the two neighbours of the magnitude can be it; halfway between them the
one with an even last digit is taken.
-/
def onGrid? (x : Binary64) (exponent : Int) : Option Decimal :=
  let numerator := x.units * Nat.pow 10 (-exponent).toNat
  let denominator := unitsOfOne * Nat.pow 10 exponent.toNat
  let lower : Decimal := ⟨numerator / denominator, exponent⟩
  let upper : Decimal := ⟨numerator / denominator + 1, exponent⟩
  let nearest : Decimal := ⟨roundQuotient numerator denominator, exponent⟩
  [nearest, lower, upper].find? x.readsBack

/-- The exponents of the grids tried, from the coarsest that can hold a point. -/
def gridExponents : List Int :=
  (List.range 634).map (fun (step : Nat) => 309 - (step : Int))

/-- The shortest decimal that reads back as the magnitude of a number other than zero: a
point of the coarsest grid that has one. The number itself lies on the finest grid it needs.
-/
def shortest (x : Binary64) : Decimal :=
  (gridExponents.findSome? x.onGrid?).getD ⟨x.units * Nat.pow 5 1074, -1074⟩

end Binary64

/-- The choices that fix the text of a decimal once its digits are known. -/
structure DecimalLayout where
  /-- The least power of ten of the leading digit that is written positionally. -/
  plainFrom : Int
  /-- The least larger power of ten that is written with an exponent again. -/
  plainBelow : Int
  /-- The letter before an exponent. -/
  mark : Char
  /-- Whether an exponent that is not negative carries a plus sign. -/
  plus : Bool

namespace DecimalLayout

/-- The text of a positive decimal. A positional text always has a digit on both sides of
the point; a text with an exponent has a point only if there is more than one digit.
-/
def chars (layout : DecimalLayout) (d : Decimal) : List Char :=
  let digits := Nat.toDigits 10 d.digits
  let leading : Int := d.exponent + digits.length - 1
  if layout.plainFrom ≤ leading && leading < layout.plainBelow then
    if 0 ≤ d.exponent then
      digits ++ List.replicate d.exponent.toNat '0' ++ ['.', '0']
    else if 0 ≤ leading then
      digits.take (leading + 1).toNat ++ '.' :: digits.drop (leading + 1).toNat
    else
      '0' :: '.' :: List.replicate (-leading - 1).toNat '0' ++ digits
  else
    let fraction := if digits.length ≤ 1 then [] else '.' :: digits.drop 1
    let sign := if leading < 0 then ['-'] else if layout.plus then ['+'] else []
    digits.take 1 ++ fraction ++ layout.mark :: sign ++ Nat.toDigits 10 leading.natAbs

/-- The text of a number; a zero is written `0.0` and keeps its sign. -/
def render (layout : DecimalLayout) (x : Binary64) : List Char :=
  (if x.negative then ['-'] else [])
    ++ if x.isZero then ['0', '.', '0'] else layout.chars x.shortest

end DecimalLayout

end Statechart
