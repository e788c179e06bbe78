import BlockScript.Number.Basic

/-!
# Arithmetic on numbers

Each operation treats NaN and the infinities first, computes the exact result of the finite case in
units, and rounds it once. The sign of a zero result follows the usual rules: an exact sum of zero
is positive unless both sides are negative zeros, and a product or quotient has the sign of its
factors.
-/

namespace BlockScript.Number

/-- Sum. Opposite infinities have none. -/
def add (x y : Number) : Number :=
  if x.isNaN || y.isNaN then nan
  else if x.isInfinite then
    if y.isInfinite && x.signed != y.signed then nan else x
  else if y.isInfinite then y
  else if x.units + y.units = 0 then ofPattern (x.signed && y.signed) 0
  else ofUnits (x.units + y.units)

/-- Difference. -/
def sub (x y : Number) : Number := add x y.neg

/-- Product. Zero times an infinity has none. -/
def mul (x y : Number) : Number :=
  let signed := x.signed != y.signed
  if x.isNaN || y.isNaN then nan
  else if x.isInfinite || y.isInfinite then
    if x.isZero || y.isZero then nan else infinity signed
  else ofPattern signed (roundUnits (x.units.natAbs * y.units.natAbs) unitsPerOne)

/-- Quotient. A nonzero number over zero is infinite. -/
def div (x y : Number) : Number :=
  let signed := x.signed != y.signed
  if x.isNaN || y.isNaN then nan
  else if x.isInfinite then
    if y.isInfinite then nan else infinity signed
  else if y.isInfinite then ofPattern signed 0
  else if y.isZero then
    if x.isZero then nan else infinity signed
  else ofPattern signed (roundUnits (x.units.natAbs * unitsPerOne) y.units.natAbs)

/-- Remainder of the division that cuts its quotient towards zero. It has the sign of the dividend,
is smaller than the divisor and is always exact. -/
def rem (x y : Number) : Number :=
  if x.isNaN || y.isNaN || x.isInfinite || y.isZero then nan
  else if y.isInfinite then x
  else ofPattern x.signed (roundUnits (x.units.natAbs % y.units.natAbs) 1)

/-- The greatest whole number that is not above. The negative zero stays as it is. -/
def floor (x : Number) : Number :=
  if x.isNaN then nan
  else if x.isInfinite || x.isZero then x
  else ofUnits (x.units.fdiv unitsPerOne * unitsPerOne)

/-- The greater of two numbers, of which the second is not a NaN; a NaN loses to it. -/
def max (x y : Number) : Number := if lt y x then x else y

/-- Remainder with the sign of the divisor. -/
def modulo (x y : Number) : Number :=
  let r := rem x y
  if lt (div r y) zero then add r y else r

/-- One half, the tie of `round`. -/
def half : Number := div 1 2

/-- Nearest whole number, a half going up. -/
def round (x : Number) : Number := floor (add x half)

/-- The whole part of a finite number that is not negative. -/
def toNat? (x : Number) : Option Nat :=
  if x.isFinite && !lt x zero then some (x.units.natAbs / unitsPerOne) else none

end BlockScript.Number
