import BlockScript.Block
import BlockScript.Shape
import BlockScript.Support

/-!
# Expressions

What the reporters of a script compute, as a tree. The shape of an expression is what is known of
its value without running it.
-/

namespace BlockScript

/-- An operator on one value. -/
inductive UnaryOp where
  | not
  | round
  | length
deriving DecidableEq

namespace UnaryOp

/-- The support function that the operator stands for. -/
def support : UnaryOp → Support
  | not => .not
  | round => .round
  | length => .length

/-- The name by which code calls the operator. -/
def supportName : UnaryOp → String
  | not => "not"
  | round => "round"
  | length => "length"

/-- The shape of the result. -/
def shape : UnaryOp → Shape
  | not => .boolean
  | round | length => .number

end UnaryOp

/-- An operator on two values. -/
inductive BinaryOp where
  | add
  | subtract
  | multiply
  | divide
  | modulo
  | equals
  | greaterThan
  | lessThan
  | and
  | or
  | join
  | letterOf
  | contains
deriving DecidableEq

namespace BinaryOp

/-- The support function that the operator stands for. -/
def support : BinaryOp → Support
  | add => .add
  | subtract => .subtract
  | multiply => .multiply
  | divide => .divide
  | modulo => .modulo
  | equals => .compareEqual
  | greaterThan => .compareGreaterThan
  | lessThan => .compareLessThan
  | and => .and
  | or => .or
  | join => .join
  | letterOf => .letterOf
  | contains => .contains

/-- The name by which code calls the operator. -/
def supportName : BinaryOp → String
  | add => "add"
  | subtract => "subtract"
  | multiply => "multiply"
  | divide => "divide"
  | modulo => "modulo"
  | equals => "compare_equal"
  | greaterThan => "compare_greater_than"
  | lessThan => "compare_less_than"
  | and => "and"
  | or => "or"
  | join => "join"
  | letterOf => "letter_of"
  | contains => "contains"

/-- The shape of the result. -/
def shape : BinaryOp → Shape
  | add | subtract | multiply | divide | modulo => .number
  | equals | greaterThan | lessThan | and | or | contains => .boolean
  | join | letterOf => .text

end BinaryOp

/-- An expression. -/
inductive Expr where
  | const (v : Value)
  /-- An argument of the procedure that the expression stands in. -/
  | arg (index : UInt16) (shape : Shape)
  | var (name : String)
  | unary (op : UnaryOp) (operand : Expr)
  | binary (op : BinaryOp) (left right : Expr)
  /-- The answer of a host primitive. -/
  | host (opcode : String) (args : List Expr) (shape : Shape)
  /-- The answer of a block that only the host can run. -/
  | escape (block : BlockId) (opcode : String) (inputs : List (String × Expr))

/-- The shape of a value. -/
def Value.shape : Value → Shape
  | .number _ => .number
  | .text _ => .text
  | .bool _ => .boolean

/-- What is known of the value of an expression. -/
def Expr.shape : Expr → Shape
  | .const v => v.shape
  | .arg _ shape => shape
  | .var _ => .unknown
  | .unary op _ => op.shape
  | .binary op _ _ => op.shape
  | .host _ _ shape => shape
  | .escape _ _ _ => .unknown

end BlockScript
