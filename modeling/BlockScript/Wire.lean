/-!
# Bytes on the wire

Writing and reading the parts that binary formats are made of. Whole numbers are written in groups
of seven bits, least significant first, every group but the last with its high bit set. Texts and
lists begin with their length.

A reader takes what it needs from the front of a row of bytes and returns the rest.
-/

namespace BlockScript

/-- Why bytes cannot be read. -/
inductive WireError where
  | unexpectedEnd
  | badVarint
  | badBool
  | badText
  | badVariant
deriving DecidableEq

namespace WireError

/-- The text of the error. -/
def message : WireError → String
  | unexpectedEnd => "Hit the end of buffer, expected more data"
  | badVarint => "Found a varint that didn't terminate. Is the usize too big for this platform?"
  | badBool => "Found a bool that wasn't 0 or 1"
  | badText => "Tried to parse invalid utf-8"
  | badVariant => "Serde Deserialization Error"

end WireError

/-- Takes a value from the front of a row of bytes. -/
def Reader (α : Type) := List UInt8 → Except WireError (α × List UInt8)

namespace Reader

variable {α β : Type}

/-- Takes nothing. -/
def ok (a : α) : Reader α := fun bytes => .ok (a, bytes)

/-- Gives up. -/
def fail (e : WireError) : Reader α := fun _ => .error e

/-- Takes one value and then another that may depend on it. -/
def andThen (r : Reader α) (f : α → Reader β) : Reader β := fun bytes =>
  match r bytes with
  | .error e => .error e
  | .ok (a, rest) => f a rest

instance : Monad Reader where
  pure := ok
  bind := andThen

/-- Takes one byte. -/
def byte : Reader UInt8
  | [] => .error .unexpectedEnd
  | b :: rest => .ok (b, rest)

/-- Takes a value so many times. -/
def many (r : Reader α) : Nat → Reader (List α)
  | 0 => ok []
  | n + 1 => do
    let a ← r
    let rest ← r.many n
    return a :: rest

/-- Takes so many bytes. -/
def bytes (n : Nat) : Reader (List UInt8) := byte.many n

/-- Takes a number of at most `groups` groups, the last possible of which may not exceed
`lastMax`. -/
def varint (lastMax : Nat) : (groups : Nat) → Reader Nat
  | 0 => fail .badVarint
  | groups + 1 => do
    let b ← byte
    if b.toNat < 128 then
      if groups = 0 ∧ lastMax < b.toNat then fail .badVarint else return b.toNat
    else
      let high ← varint lastMax groups
      return b.toNat - 128 + 128 * high

/-- Takes a 16-bit number. -/
def uint16 : Reader UInt16 := do return UInt16.ofNat (← varint 3 3)

/-- Takes a 32-bit number. -/
def uint32 : Reader UInt32 := do return UInt32.ofNat (← varint 15 5)

/-- Takes a length, which is a 64-bit number. -/
def length : Reader Nat := varint 1 10

/-- Takes a signed 32-bit number, the sign being in the lowest bit. -/
def int32 : Reader Int32 := do
  let n ← varint 15 5
  return if n % 2 = 0 then Int32.ofInt (n / 2 : Nat) else Int32.ofInt (-((n / 2 : Nat) : Int) - 1)

/-- Takes a truth value. -/
def bool : Reader Bool := do
  let b ← byte
  if b = 0 then return false
  else if b = 1 then return true
  else fail .badBool

/-- Takes a text. -/
def text : Reader String := do
  let n ← length
  let bs ← bytes n
  match String.fromUTF8? (ByteArray.mk bs.toArray) with
  | some s => return s
  | none => fail .badText

/-- Takes a list. -/
def list (r : Reader α) : Reader (List α) := do
  let n ← length
  r.many n

/-- Takes the 64 bits of a number, lowest byte first. -/
def word : Reader UInt64 := do
  let bs ← bytes 8
  return UInt64.ofNat (bs.foldr (fun b n => b.toNat + 256 * n) 0)

end Reader

namespace Wire

/-- Writes a number in at most `groups` groups. -/
def varintGroups : (groups : Nat) → Nat → List UInt8
  | 0, _ => []
  | groups + 1, n =>
    if n < 128 then [UInt8.ofNat n]
    else UInt8.ofNat (n % 128 + 128) :: varintGroups groups (n / 128)

/-- Writes a number below 2⁶⁴, for which ten groups are enough. -/
def varint (n : Nat) : List UInt8 := varintGroups 10 n

/-- Writes a signed number, the sign going into the lowest bit. -/
def int32 (i : Int32) : List UInt8 :=
  varint (if i.toInt < 0 then 2 * i.toInt.natAbs - 1 else 2 * i.toInt.natAbs)

/-- Writes a truth value. -/
def bool (b : Bool) : List UInt8 := [if b then 1 else 0]

/-- Writes a text. -/
def text (s : String) : List UInt8 :=
  varint s.utf8ByteSize ++ s.toUTF8.data.toList

/-- Writes a list. -/
def list {α : Type} (write : α → List UInt8) (xs : List α) : List UInt8 :=
  varint xs.length ++ xs.flatMap write

/-- Writes the 64 bits of a number, lowest byte first. -/
def word (w : UInt64) : List UInt8 :=
  (List.range 8).map fun i => UInt8.ofNat (w.toNat / Nat.pow 256 i)

end Wire

end BlockScript
