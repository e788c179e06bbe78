/-!
# Shapes

What is known of a value before a program runs. Procedures are compiled once for each combination of
argument shapes, after these are *widened*: numbers and texts are not told apart there.
-/

namespace BlockScript

/-- What is known of a value. -/
inductive Shape where
  | boolean
  | number
  | text
  | numberOrText
  | unknown
deriving DecidableEq, Inhabited

namespace Shape

/-- Every shape, in order. -/
def all : List Shape := [boolean, number, text, numberOrText, unknown]

/-- The place of a shape in the order. -/
def rank : Shape → Nat
  | boolean => 0
  | number => 1
  | text => 2
  | numberOrText => 3
  | unknown => 4

/-- The shape with numbers and texts brought together. -/
def widen : Shape → Shape
  | number | text | numberOrText => numberOrText
  | boolean => boolean
  | unknown => unknown

/-- The name of a shape. -/
def label : Shape → String
  | boolean => "boolean"
  | number => "number"
  | text => "string"
  | numberOrText => "numeric-or-string"
  | unknown => "unknown-dynamic"

/-- The shape of a name. -/
def ofLabel? (label : String) : Option Shape := all.find? fun s => s.label == label

/-- The value is known to be a truth value. -/
def isBoolean (s : Shape) : Bool := s == boolean

end Shape

end BlockScript
