import BlockScript.Value.Order

/-!
# Support functions

The operations of the block language that compiled code calls by name. Each takes a fixed number of
values and never fails: what is missing counts as the empty text, and every value is coerced to what
the function works on.
-/

namespace BlockScript

/-- A function that compiled code may import. -/
inductive Support where
  | compareEqual
  | compareGreaterThan
  | compareLessThan
  | toNumber
  | toBoolean
  | toString
  | add
  | subtract
  | multiply
  | divide
  | modulo
  | round
  | join
  | length
  | letterOf
  | contains
  | not
  | and
  | or
  | repeatCount
  | waitDuration
deriving DecidableEq

namespace Support

/-- Every support function. -/
def all : List Support :=
  [compareEqual, compareGreaterThan, compareLessThan, toNumber, toBoolean, toString, add, subtract,
   multiply, divide, modulo, round, join, length, letterOf, contains, not, and, or, repeatCount,
   waitDuration]

/-- The name by which code imports the function. -/
def name : Support → String
  | compareEqual => "compare_equal"
  | compareGreaterThan => "compare_greater_than"
  | compareLessThan => "compare_less_than"
  | toNumber => "to_number"
  | toBoolean => "to_boolean"
  | toString => "to_string"
  | add => "add"
  | subtract => "subtract"
  | multiply => "multiply"
  | divide => "divide"
  | modulo => "modulo"
  | round => "round"
  | join => "join"
  | length => "length"
  | letterOf => "letter_of"
  | contains => "contains"
  | not => "not"
  | and => "and"
  | or => "or"
  | repeatCount => "repeat_count"
  | waitDuration => "wait_duration"

/-- The number of values the function takes. -/
def arity : Support → Nat
  | toNumber | toBoolean | toString | round | length | not | repeatCount | waitDuration => 1
  | _ => 2

/-- The function of a name. -/
def ofName? (name : String) : Option Support := all.find? fun f => f.name == name

/-- A name leads to the function that bears it. -/
theorem name_of_ofName? {name : String} {f : Support} (h : ofName? name = some f) :
    f.name = name := by
  simpa using List.find?_some h

/-- The function applied to two values; those of one value look at the first alone. -/
def apply₂ (a b : Value) : Support → Value
  | compareEqual => .bool (a.equal b)
  | compareGreaterThan => .bool (a.greater b)
  | compareLessThan => .bool (a.less b)
  | toNumber => .number a.toNumber
  | toBoolean => .bool a.toBool
  | toString => .text a.toText
  | add => .number (a.toNumber.add b.toNumber)
  | subtract => .number (a.toNumber.sub b.toNumber)
  | multiply => .number (a.toNumber.mul b.toNumber)
  | divide => .number (a.toNumber.div b.toNumber)
  | modulo => .number (a.toNumber.modulo b.toNumber)
  | round => .number a.toNumber.round
  | join => .text (a.toText ++ b.toText)
  | length => .number (Number.ofNat a.toText.length)
  | letterOf => .text (a.letterOf b)
  | contains => .bool (a.contains b)
  | not => .bool !a.toBool
  | and => .bool (a.toBool && b.toBool)
  | or => .bool (a.toBool || b.toBool)
  | repeatCount => .number a.toNumber.round
  | waitDuration => .number (Number.max (Number.mul 1000 a.toNumber) Number.zero)

/-- The function applied to any number of values: missing ones are empty texts, and those beyond the
second are not looked at. -/
def apply (f : Support) (args : List Value) : Value :=
  f.apply₂ (args[0]?.getD .empty) (args[1]?.getD .empty)

/-- The function as diagnostics show it. -/
def listed (f : Support) : String :=
  "SupportBinding \x7b name: " ++ Text.quote f.name ++ ", arity: " ++ Nat.repr f.arity
  ++ ", .. \x7d"

end Support

end BlockScript
