import BlockScript.Number.Arithmetic
import BlockScript.Number.Decimal
import BlockScript.Text.Blank

/-!
# Number literals

Which texts are numbers, and which number each one is. Blanks around the literal are ignored, and a
text of blanks alone is zero. A literal is whole digits in base 16, 8 or 2 after `0x`, `0o` or `0b`,
or an optional sign before `Infinity` or a decimal `digits [. digits] [e [sign] digits]` with at
least one digit before the exponent. A decimal is the nearest number. Literals may have any length.
-/

namespace BlockScript.Number

/-- The value of a digit in any base up to 16; letters of either case count from ten. -/
def digitValue (c : Char) : Nat :=
  if '0' ≤ c && c ≤ '9' then c.toNat - '0'.toNat
  else if 'a' ≤ c && c ≤ 'f' then c.toNat - 'a'.toNat + 10
  else if 'A' ≤ c && c ≤ 'F' then c.toNat - 'A'.toNat + 10
  else 16

/-- The character is a digit of the given base. -/
def isDigitOf (base : Nat) (c : Char) : Bool := digitValue c < base

/-- The number of a row of digits, most significant first, in base `base`. Each digit is taken in
with one multiplication and one addition of numbers, and each of these rounds. -/
def ofBaseDigits (base : Nat) (cs : List Char) : Number :=
  cs.foldl (fun n c => add (mul n (ofNat base)) (ofNat (digitValue c))) zero

/-- Digits of a base other than ten: at least one, and nothing else. -/
def readBase? (base : Nat) (cs : List Char) : Option Number :=
  if !cs.isEmpty && cs.all (isDigitOf base) then some (ofBaseDigits base cs) else none

/-- The character is a decimal digit. -/
def isDecimalDigit (c : Char) : Bool := isDigitOf 10 c

/-- The whole number of a row of decimal digits. -/
def wholeOfDigits (cs : List Char) : Nat := cs.foldl (fun n c => n * 10 + digitValue c) 0

/-- The exponent of a row of decimal digits. Once it has reached 2¹⁶ no further digit is taken
in. -/
def exponentOfDigits (cs : List Char) : Nat :=
  cs.foldl (fun n c => if n < 65536 then n * 10 + digitValue c else n) 0

/-- The number of leading digits of a decimal that are taken in one by one. A point halfway between
two neighbouring numbers has fewer, so of the digits after them it only counts whether one of them
is not zero. -/
def significantDigits : Nat := 800

/-- A decimal that has the same nearest number as a row of decimal digits with an exponent: the row
itself, unless it is longer than `significantDigits`, and then its beginning with one more digit
that stands for the rest. -/
def decimalOfDigits (cs : List Char) (exponent : Int) : Decimal :=
  let digits := cs.dropWhile (· == '0')
  let rest := digits.drop significantDigits
  if rest.isEmpty then ⟨wholeOfDigits digits, exponent⟩
  else
    let last := if rest.all (· == '0') then 0 else 1
    ⟨wholeOfDigits (digits.take significantDigits) * 10 + last, exponent + rest.length - 1⟩

/-- An optional sign; true for minus. -/
def takeSign : List Char → Bool × List Char
  | '-' :: cs => (true, cs)
  | '+' :: cs => (false, cs)
  | cs => (false, cs)

/-- The exponent that ends a decimal: nothing at all, or a mark, an optional sign and at least one
digit up to the end. -/
def readExponent? : List Char → Option Int
  | [] => some 0
  | c :: cs =>
    let (negative, ds) := takeSign cs
    if (c == 'e' || c == 'E') && !ds.isEmpty && ds.all isDecimalDigit then
      some (if negative then -(exponentOfDigits ds : Int) else exponentOfDigits ds)
    else none

/-- The fraction after whole digits: the digits after a point, if there is one, and what follows. -/
def takeFraction : List Char → List Char × List Char
  | '.' :: cs => (cs.takeWhile isDecimalDigit, cs.dropWhile isDecimalDigit)
  | cs => ([], cs)

/-- An unsigned decimal. -/
def readDecimal? (cs : List Char) : Option Decimal :=
  let whole := cs.takeWhile isDecimalDigit
  let (fraction, afterFraction) := takeFraction (cs.dropWhile isDecimalDigit)
  if whole.isEmpty && fraction.isEmpty then none
  else (readExponent? afterFraction).map fun e =>
    decimalOfDigits (whole ++ fraction) (e - fraction.length)

/-- A literal without blanks around it. -/
def readTrimmed? : List Char → Option Number
  | [] => some zero
  | '0' :: 'x' :: cs => readBase? 16 cs
  | '0' :: 'X' :: cs => readBase? 16 cs
  | '0' :: 'o' :: cs => readBase? 8 cs
  | '0' :: 'O' :: cs => readBase? 8 cs
  | '0' :: 'b' :: cs => readBase? 2 cs
  | '0' :: 'B' :: cs => readBase? 2 cs
  | cs =>
    let (negative, body) := takeSign cs
    if body == "Infinity".toList then some (infinity negative)
    else (readDecimal? body).map fun d => ofPattern negative d.pattern

/-- The number a text stands for, if it is a literal. -/
def read? (s : String) : Option Number := readTrimmed? (Text.trim s.toList)

/-- The number a text stands for; a text that is no literal is not a number. -/
def read (s : String) : Number := (read? s).getD nan

end BlockScript.Number
