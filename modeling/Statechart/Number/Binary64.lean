/-! Finite binary numbers of 64 bits: a sign, 11 bits of scale and 52 bits of fraction.
Every operation takes the exact result as a ratio of naturals and rounds it once, to the
nearest such number and on a tie to the one with an even last bit.
-/

namespace Statechart

/-- The least code that no finite number has. -/
def Binary64.codeBound : Nat :=
  2047 * Nat.pow 2 52

/-- A finite number of 64 bits. The code of its magnitude is the scale field followed by the
fraction, read as one natural, so larger codes stand for larger magnitudes.
-/
structure Binary64 where
  negative : Bool
  code : Nat
  code_lt : code < Binary64.codeBound
deriving DecidableEq, Repr

namespace Binary64

/-- The number of doublings between the least spacing and the spacing around this number. -/
def scale (x : Binary64) : Nat :=
  x.code / Nat.pow 2 52 - 1

/-- The magnitude counted in units of the spacing around this number. -/
def mantissa (x : Binary64) : Nat :=
  if x.code < Nat.pow 2 52 then x.code else x.code % Nat.pow 2 52 + Nat.pow 2 52

/-- The magnitude is this many times the least spacing, which is 2 to the power −1074. -/
def units (x : Binary64) : Nat :=
  x.mantissa * Nat.pow 2 x.scale

/-- The number of least spacings in one. -/
def unitsOfOne : Nat :=
  Nat.pow 2 1074

/-- The natural nearest to a quotient; halfway between two of them, the even one. -/
def roundQuotient (numerator denominator : Nat) : Nat :=
  let floor := numerator / denominator
  let remainder := numerator % denominator
  if 2 * remainder < denominator then floor
  else if denominator < 2 * remainder then floor + 1
  else floor + floor % 2

/-- The number nearest to a ratio, or none when that would exceed the largest finite number.
The spacing is the one that leaves 53 bits before the point, or the least spacing; a
mantissa that rounds up to 54 bits carries into the scale field of the code.
-/
def ofRatio? (negative : Bool) (numerator denominator : Nat) : Option Binary64 :=
  let units := numerator * unitsOfOne
  let scale := (units / denominator).log2 - 52
  let code := scale * Nat.pow 2 52 + roundQuotient units (denominator * Nat.pow 2 scale)
  if h : code < codeBound then some ⟨negative, code, h⟩ else none

def zero (negative : Bool) : Binary64 :=
  ⟨negative, 0, by decide⟩

def isZero (x : Binary64) : Bool :=
  x.code == 0

/-- The same number with the given sign. -/
def withSign (negative : Bool) (x : Binary64) : Binary64 :=
  { x with negative }

/-- Equality of the numbers meant: the two zeros are equal. -/
def sameValue (x y : Binary64) : Bool :=
  x.code == y.code && (x.negative == y.negative || x.isZero)

/-- The rounded product, or none when it is too large. -/
def mul? (x y : Binary64) : Option Binary64 :=
  ofRatio? (x.negative != y.negative) (x.units * y.units) (unitsOfOne * unitsOfOne)

/-- The rounded quotient, or none when it is too large. -/
def div? (x y : Binary64) : Option Binary64 :=
  ofRatio? (x.negative != y.negative) x.units y.units

end Binary64

end Statechart
