import BlockScript.Number.Layout
import BlockScript.Number.Literal
import BlockScript.Text.Quoted

/-!
# Values

What flows through a script: numbers, texts and truth values. Blocks are dynamically typed, so every
value can be read as a number, as a text and as a truth value.
-/

namespace BlockScript

/-- A value of the block language. -/
inductive Value where
  | number (n : Number)
  | text (s : String)
  | bool (b : Bool)
deriving DecidableEq

namespace Value

/-- The empty text, which is what an absent input is worth. -/
def empty : Value := .text ""

instance : Inhabited Value := ⟨empty⟩

/-- The name of the kind of a value. -/
def kind : Value → String
  | .number _ => "number"
  | .text _ => "string"
  | .bool _ => "boolean"

/-- The value as a text. -/
def toText : Value → String
  | .number n => n.text
  | .text s => s
  | .bool b => if b then "true" else "false"

/-- The value with its kind, as listings show it. -/
def listed : Value → String
  | .number n => "Number(" ++ n.listed ++ ")"
  | .text s => "String(" ++ Text.quote s ++ ")"
  | .bool b => "Bool(" ++ (if b then "true" else "false") ++ ")"

/-- The number of a truth value. -/
def ofBool (b : Bool) : Number := if b then 1 else 0

/-- The number a value stands for; a NaN if it is a text that is no literal. -/
def reading : Value → Number
  | .number n => n
  | .text s => Number.read s
  | .bool b => ofBool b

/-- The value as a number: what is not a number counts as zero. -/
def toNumber (v : Value) : Number :=
  if v.reading.isNaN then Number.zero else v.reading

/-- The value as a truth value: zero, a NaN, the empty text, `0` and `false` in any case are
false. -/
def toBool : Value → Bool
  | .number n => !n.isZero && !n.isNaN
  | .text s => !(s == "" || s == "0" || s.toList.map Char.toLower == "false".toList)
  | .bool b => b

/-- Equality that treats numbers as numbers: the two zeros are equal, and a NaN equals nothing. -/
def same : Value → Value → Bool
  | .number x, .number y => x.equals y
  | .text s, .text t => s == t
  | .bool a, .bool b => a == b
  | _, _ => false

end Value

end BlockScript
