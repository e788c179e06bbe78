/-!
# Numbers

A number of the block language is a 64-bit binary floating-point datum. It is kept as its bit
pattern, so that two NaNs with different payloads stay apart and every pattern survives a trip
through a file.

Every finite number is a whole multiple of one *unit*, 2⁻¹⁰⁷⁴. Arithmetic is done on whole numbers
of units, exactly, and the result is rounded once (`roundUnits`): no operation of the machine's own
floating-point hardware takes part, so every definition here can be computed with in a proof.

* `magnitude` is the pattern without its sign; patterns are ordered as the absolute values are.
* `units` is the exact value of a finite number, counted in units.
* `roundUnits` is the pattern nearest to a quotient of units, a tie going to the even pattern.
-/

namespace BlockScript

/-- A 64-bit binary floating-point number, given by its bit pattern. -/
structure Number where
  bits : UInt64
deriving DecidableEq, Inhabited

namespace Number

/-! ## Patterns -/

/-- The pattern of an infinity without its sign; every greater one is a NaN. -/
def infinityPattern : Nat := 2047 * Nat.pow 2 52

/-- The sign bit by itself. -/
def signBit : UInt64 := 0x8000000000000000

/-- The bit pattern without its sign. -/
def magnitude (x : Number) : Nat := (x.bits % signBit).toNat

/-- The sign bit is set. It is set for the negative zero too. -/
def signed (x : Number) : Bool := signBit ≤ x.bits

/-- The number with a given sign and unsigned pattern. -/
def ofPattern (signed : Bool) (pattern : Nat) : Number :=
  ⟨if signed then signBit + UInt64.ofNat pattern else UInt64.ofNat pattern⟩

/-- The number is not a number at all. -/
def isNaN (x : Number) : Bool := infinityPattern < x.magnitude

/-- The number is one of the two infinities. -/
def isInfinite (x : Number) : Bool := x.magnitude == infinityPattern

/-- The number is neither infinite nor a NaN. -/
def isFinite (x : Number) : Bool := x.magnitude < infinityPattern

/-- The number is one of the two zeros. -/
def isZero (x : Number) : Bool := x.magnitude == 0

/-- The positive zero. -/
def zero : Number := ofPattern false 0

/-- The infinity of a given sign. -/
def infinity (signed : Bool) : Number := ofPattern signed infinityPattern

/-- The NaN that arithmetic produces. -/
def nan : Number := ofPattern false (infinityPattern + Nat.pow 2 51)

/-- The same number with its sign bit turned. -/
def neg (x : Number) : Number := ofPattern (!x.signed) x.magnitude

/-! ## Units -/

/-- The number of units in one: 2¹⁰⁷⁴. -/
def unitsPerOne : Nat := Nat.pow 2 1074

/-- The significand of a finite unsigned pattern: the pattern itself where the exponent is the
least, and its lower bits with a leading one elsewhere. -/
def significand (pattern : Nat) : Nat :=
  if pattern < Nat.pow 2 52 then pattern else Nat.pow 2 52 + pattern % Nat.pow 2 52

/-- The power of two, in units, that the significand of a finite unsigned pattern counts. -/
def shift (pattern : Nat) : Nat := pattern / Nat.pow 2 52 - 1

/-- The units that a finite unsigned pattern stands for. -/
def unitsOfPattern (pattern : Nat) : Nat := significand pattern * Nat.pow 2 (shift pattern)

/-- The exact value of a finite number, in units. -/
def units (x : Number) : Int :=
  if x.signed then -(unitsOfPattern x.magnitude : Int) else unitsOfPattern x.magnitude

/-! ## Rounding -/

/-- The whole number nearest to `num / den`; of two equally near ones the even one. -/
def divNearest (num den : Nat) : Nat :=
  let q := num / den
  let r := num % den
  if 2 * r < den then q
  else if den < 2 * r then q + 1
  else if q % 2 = 0 then q
  else q + 1

/-- The unsigned pattern nearest to `num / den` units; a tie goes to the even pattern, and what lies
beyond the finite numbers goes to infinity. A significand has 53 bits, so the quotient is rounded at
the place `k` that leaves it that many; a carry out of the significand moves into the exponent of
the pattern by itself. -/
def roundUnits (num den : Nat) : Nat :=
  let k := (num / den).log2 - 52
  min (k * Nat.pow 2 52 + divNearest num (den * Nat.pow 2 k)) infinityPattern

/-- The number nearest to a whole number of units; zero is positive. -/
def ofUnits (u : Int) : Number := ofPattern (u < 0) (roundUnits u.natAbs 1)

/-- The number nearest to a natural number. -/
def ofNat (n : Nat) : Number := ofPattern false (roundUnits (n * unitsPerOne) 1)

instance (n : Nat) : OfNat Number n := ⟨ofNat n⟩

/-! ## Order -/

/-- The place of a number among all that are not NaN. Both zeros have the same place. -/
def rank (x : Number) : Int := if x.signed then -(x.magnitude : Int) else x.magnitude

/-- Equal as numbers: the two zeros are equal, and no NaN equals anything. -/
def equals (x y : Number) : Bool := !x.isNaN && !y.isNaN && x.rank == y.rank

/-- Less than; false when either side is a NaN. -/
def lt (x y : Number) : Bool := !x.isNaN && !y.isNaN && x.rank < y.rank

/-- At most; false when either side is a NaN. -/
def le (x y : Number) : Bool := !x.isNaN && !y.isNaN && x.rank ≤ y.rank

end Number

end BlockScript
