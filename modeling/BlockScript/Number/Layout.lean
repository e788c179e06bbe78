import BlockScript.Number.Arithmetic
import BlockScript.Number.Decimal

/-!
# Written numbers

The digits of a number are those of its shortest decimal. How they are laid out is for a `Layout` to
say: where positional notation ends and the exponent form begins, and how zeros, infinities and
whole numbers look. `Number.text` is the layout of the block language, `Number.listed` that of
listings.
-/

namespace BlockScript

/-- Decimal digits without trailing zeros, and the position of the decimal point counted from the
first digit: `digits = d₁ d₂ …` and `point = p` stand for `0.d₁d₂… * 10 ^ p`. -/
structure Digits where
  digits : List Char
  point : Int

/-- The digits of a decimal that is not zero. -/
def Decimal.digits (d : Decimal) : Digits :=
  let ds := Nat.toDigits 10 d.significand
  ⟨(ds.reverse.dropWhile (· == '0')).reverse, ds.length + d.exponent⟩

namespace Digits

/-- Positional notation; a whole number is followed by `wholeMark`. -/
def positional (wholeMark : List Char) (d : Digits) : List Char :=
  if d.point ≤ 0 then
    '0' :: '.' :: (List.replicate (-d.point).toNat '0' ++ d.digits)
  else if d.digits.length ≤ d.point.toNat then
    d.digits ++ List.replicate (d.point.toNat - d.digits.length) '0' ++ wholeMark
  else
    d.digits.take d.point.toNat ++ '.' :: d.digits.drop d.point.toNat

/-- The decimal text of a whole exponent; `plusMark` goes before one that is not negative. -/
def exponentText (plusMark : List Char) (e : Int) : List Char :=
  if e < 0 then '-' :: Nat.toDigits 10 (-e).toNat else plusMark ++ Nat.toDigits 10 e.toNat

/-- Exponent form: one digit before the point, the others after it, and the power of ten. -/
def exponential (plusMark : List Char) (d : Digits) : List Char :=
  match d.digits with
  | [] => []
  | [c] => c :: 'e' :: exponentText plusMark (d.point - 1)
  | c :: cs => c :: '.' :: (cs ++ 'e' :: exponentText plusMark (d.point - 1))

end Digits

/-- The choices that turn digits into a text. -/
structure Layout where
  /-- Least position of the point that is written positionally. -/
  leastPoint : Int
  /-- Greatest position of the point that is written positionally. -/
  greatestPoint : Int
  /-- What follows a whole number in positional notation. -/
  wholeMark : List Char
  /-- What goes before an exponent that is not negative. -/
  plusMark : List Char
  /-- The text of zero, which may show its sign. -/
  zero : Bool → List Char
  /-- The name of the positive infinity. -/
  infinity : List Char

namespace Layout

/-- The text of a number that is positive and finite. -/
def writeDigits (l : Layout) (d : Digits) : List Char :=
  if l.leastPoint ≤ d.point && d.point ≤ l.greatestPoint then d.positional l.wholeMark
  else d.exponential l.plusMark

/-- The text of any number. -/
def write (l : Layout) (x : Number) : List Char :=
  if x.isNaN then ['N', 'a', 'N']
  else if x.isZero then l.zero x.signed
  else
    let body := if x.isInfinite then l.infinity
      else l.writeDigits (Number.shortest x.magnitude).digits
    if x.signed then '-' :: body else body

/-- Numbers as scripts see them: positional from 10⁻⁶ up to but excluding 10²¹, whole numbers
without a point, a plus sign on exponents, and no sign on zero. -/
def script : Layout where
  leastPoint := -5
  greatestPoint := 21
  wholeMark := []
  plusMark := ['+']
  zero _ := ['0']
  infinity := "Infinity".toList

/-- Numbers as listings show them: positional from 10⁻⁴ up to but excluding 10¹⁶, whole numbers with
`.0`, no plus sign on exponents, and the sign of zero kept. -/
def listing : Layout where
  leastPoint := -3
  greatestPoint := 16
  wholeMark := ['.', '0']
  plusMark := []
  zero signed := if signed then "-0.0".toList else "0.0".toList
  infinity := "inf".toList

end Layout

namespace Number

/-- The text a script gets for a number. -/
def text (x : Number) : String := String.ofList (Layout.script.write x)

/-- The text a listing shows for a number. -/
def listed (x : Number) : String := String.ofList (Layout.listing.write x)

end Number

end BlockScript
