import BlockScript.Number.Basic

/-!
# Numbers and decimals

A `Decimal` is a whole significand with a power of ten. `Decimal.pattern` reads one as the nearest
number. `shortest` goes back: of all decimals that read back as a given number it takes one with the
fewest digits, and of those the nearest, a tie going up.

The search for it tries one digit, then two, and so on. It needs no bound on the number of digits
that are ever necessary: a number is a whole multiple of 2⁻¹⁰⁷⁴ and so of 10⁻¹⁰⁷⁴, and at that place
the decimal is the number itself.
-/

namespace BlockScript

/-- The decimal `significand * 10 ^ exponent`. -/
structure Decimal where
  significand : Nat
  exponent : Int
deriving DecidableEq

namespace Decimal

/-- Numerator and denominator of the decimal, counted in units. -/
def fraction (d : Decimal) : Nat × Nat :=
  if 0 ≤ d.exponent then
    (d.significand * Nat.pow 10 d.exponent.toNat * Number.unitsPerOne, 1)
  else
    (d.significand * Number.unitsPerOne, Nat.pow 10 (-d.exponent).toNat)

/-- The unsigned pattern of the nearest number. Exponents far outside of the range of numbers are
settled without the power of ten: what is at least 10⁴⁰⁰ is infinite, and what is below 10⁻⁴⁰⁰ is
zero, since a significand is less than ten to the number of its binary digits. -/
def pattern (d : Decimal) : Nat :=
  if d.significand = 0 then 0
  else if 400 < d.exponent then Number.infinityPattern
  else if d.exponent + (d.significand.log2 + 1) < -400 then 0
  else Number.roundUnits d.fraction.1 d.fraction.2

end Decimal

namespace Number

/-- Numerator and denominator of `u` units, counted in multiples of `10 ^ place`. -/
def onGrid (u : Nat) (place : Int) : Nat × Nat :=
  if 0 ≤ place then (u, unitsPerOne * Nat.pow 10 place.toNat)
  else (u * Nat.pow 10 (-place).toNat, unitsPerOne)

/-- The decimal at a place of the grid nearest to the units of `pattern` that reads back as
`pattern`, if there is one: the neighbour below, the one above, or, if both read back, the nearer of
the two and in a tie the one above. -/
def nearestAt? (pattern : Nat) (place : Int) : Option Decimal :=
  let (num, den) := onGrid (unitsOfPattern pattern) place
  let below : Decimal := ⟨num / den, place⟩
  let above : Decimal := ⟨num / den + 1, place⟩
  match below.pattern == pattern, above.pattern == pattern with
  | true, true => some (if 2 * (num % den) < den then below else above)
  | true, false => some below
  | false, true => some above
  | false, false => none

/-- The first decimal found at `place`, or at one of the `more` finer places after it; failing
those, the exact one. -/
def searchFrom (pattern : Nat) (place : Int) : Nat → Decimal
  | 0 => ⟨unitsOfPattern pattern * Nat.pow 5 1074, -1074⟩
  | more + 1 =>
    match nearestAt? pattern place with
    | some d => d
    | none => searchFrom pattern (place - 1) more

/-- The number of decimal digits of `n`, at least one. -/
def digitCount (n : Nat) : Nat := (Nat.toDigits 10 n).length

/-- The position of the decimal point: `10 ^ (p - 1) ≤ u < 10 ^ p` for the value of a nonzero
pattern. From one up it is the number of digits of the whole part; below one it is found from the
number of digits of the reciprocal. -/
def pointPosition (pattern : Nat) : Int :=
  let u := unitsOfPattern pattern
  if unitsPerOne ≤ u then digitCount (u / unitsPerOne)
  else 1 - (digitCount ((unitsPerOne - 1) / u) : Int)

/-- The decimal with the fewest digits that reads back as the given finite, nonzero pattern. -/
def shortest (pattern : Nat) : Decimal :=
  let place := pointPosition pattern - 1
  searchFrom pattern place (place + 1075).toNat

end Number

end BlockScript
