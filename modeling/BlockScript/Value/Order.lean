import BlockScript.Text.Lowercase
import BlockScript.Value.Basic

/-!
# Comparing values

Two values that both read as finite numbers compare as numbers. Any others compare as texts, without
regard to case. `Value.compare` is this rule; `equal`, `greater` and `less` are the three questions
that blocks ask, each with a short cut for the common cases.
-/

namespace BlockScript

/-- How two numbers that are not NaN compare. -/
def Number.compare (x y : Number) : Ordering :=
  if x.lt y then .lt else if y.lt x then .gt else .eq

/-- How two texts compare: by the code point at the first place where they differ, an end coming
before everything. -/
def Text.compare : List Char → List Char → Ordering
  | [], [] => .eq
  | [], _ :: _ => .lt
  | _ :: _, [] => .gt
  | a :: as, b :: bs =>
    if a.toNat < b.toNat then .lt
    else if b.toNat < a.toNat then .gt
    else Text.compare as bs

namespace Value

/-- The number a value compares as, if it is finite. -/
def comparable? (v : Value) : Option Number :=
  if v.reading.isFinite then some v.reading else none

/-- The text a value compares as. -/
def folded (v : Value) : List Char := Text.lower v.toText.toList

/-- How two values compare. -/
def compare (a b : Value) : Ordering :=
  match a.comparable?, b.comparable? with
  | some x, some y => Number.compare x y
  | _, _ => Text.compare a.folded b.folded

/-- The values are equal. -/
def equal (a b : Value) : Bool :=
  match a, b with
  | .number x, .number y =>
    if x.isFinite && y.isFinite then x.equals y else compare a b == .eq
  | .text s, .text t => s == t || compare a b == .eq
  | .bool p, .bool q => p == q
  | _, _ => compare a b == .eq

/-- The first value is greater. -/
def greater (a b : Value) : Bool :=
  match a, b with
  | .number x, .number y =>
    if x.isFinite && y.isFinite then y.lt x else compare a b == .gt
  | _, _ => compare a b == .gt

/-- The first value is less. -/
def less (a b : Value) : Bool :=
  match a, b with
  | .number x, .number y =>
    if x.isFinite && y.isFinite then x.lt y else compare a b == .lt
  | _, _ => compare a b == .lt

/-- The letter at a position counted from one; the empty text where there is none. -/
def letterOf (index text : Value) : String :=
  match (index.toNumber.floor.sub 1).toNat? with
  | none => ""
  | some i =>
    match text.toText.toList[i]? with
    | none => ""
    | some c => String.ofList [c]

/-- `needle` occurs somewhere in `hay`. -/
def occursIn (needle : List Char) : List Char → Bool
  | [] => needle.isEmpty
  | c :: cs => needle.isPrefixOf (c :: cs) || occursIn needle cs

/-- The text of the first value contains that of the second, without regard to case. -/
def contains (hay needle : Value) : Bool := occursIn needle.folded hay.folded

end Value

end BlockScript
