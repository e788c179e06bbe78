import BlockScript.Primitive
import BlockScript.Routine.Stmt
import BlockScript.Script

/-!
# Kinds of blocks

What a block means by its operation code: as a member of a stack, and as a reporter plugged into a
slot. A code without a meaning of its own is left to the host (`escape`).
-/

namespace BlockScript

/-- The loops that blocks can draw. -/
inductive LoopForm where
  | times
  | forever
  | until
  | while
  | waitUntil
deriving DecidableEq

/-- What a block of a stack does. -/
inductive StatementKind where
  /-- The head of a stack, which does nothing. -/
  | hat
  | loop (form : LoopForm)
  | branch (withElse : Bool)
  | wait
  /-- The end of the script. -/
  | stop
  | set
  | change
  | call
  | primitive (p : Primitive)
  | escape

/-- What a reporter computes. -/
inductive ReporterKind where
  /-- A number typed into a slot, kept as its text. -/
  | numeral
  /-- A text typed into a slot. -/
  | text
  | unary (op : UnaryOp)
  | binary (op : BinaryOp)
  | variable
  | argument (kind : ParamKind)
  | primitive (p : Primitive) (shape : Shape)
  | escape

namespace UnaryOp

/-- The operator of an operation code. -/
def ofOpcode? : String → Option UnaryOp
  | "operator_not" => some not
  | "operator_round" => some round
  | "operator_length" => some length
  | _ => none

/-- The input slot of the operand. -/
def slot : UnaryOp → String
  | not => "OPERAND"
  | round => "NUM"
  | length => "STRING"

/-- The value of an absent operand. -/
def absent : UnaryOp → Value
  | not => .bool false
  | round | length => .empty

end UnaryOp

namespace BinaryOp

/-- The operator of an operation code. -/
def ofOpcode? : String → Option BinaryOp
  | "operator_add" => some add
  | "operator_subtract" => some subtract
  | "operator_multiply" => some multiply
  | "operator_divide" => some divide
  | "operator_mod" => some modulo
  | "operator_equals" => some equals
  | "operator_gt" => some greaterThan
  | "operator_lt" => some lessThan
  | "operator_and" => some and
  | "operator_or" => some or
  | "operator_join" => some join
  | "operator_letter_of" => some letterOf
  | "operator_contains" => some contains
  | _ => none

/-- The input slot of the left operand. -/
def leftSlot : BinaryOp → String
  | add | subtract | multiply | divide | modulo => "NUM1"
  | equals | greaterThan | lessThan | and | or => "OPERAND1"
  | join | contains => "STRING1"
  | letterOf => "LETTER"

/-- The input slot of the right operand. -/
def rightSlot : BinaryOp → String
  | add | subtract | multiply | divide | modulo => "NUM2"
  | equals | greaterThan | lessThan | and | or => "OPERAND2"
  | join | contains => "STRING2"
  | letterOf => "STRING"

/-- The value of an absent operand. -/
def absent : BinaryOp → Value
  | and | or => .bool false
  | _ => .empty

end BinaryOp

namespace Block

/-- The block heads a stack and does nothing itself. -/
def isHat (b : Block) : Bool :=
  "event_when".toList.isPrefixOf b.opcode.toList
    || b.opcode == "control_start_as_clone" || b.opcode == "procedures_definition"

/-- What a block that no rule of the language covers does as a member of a stack. -/
def hostStatement (b : Block) : StatementKind :=
  match Primitive.ofOpcode? b.opcode with
  | some p => if p.kind = .statement then .primitive p else .escape
  | none => .escape

/-- What the block does as a member of a stack. -/
def statementKind (b : Block) : StatementKind :=
  if b.isHat then .hat
  else match b.opcode with
    | "control_repeat" => .loop .times
    | "control_forever" => .loop .forever
    | "control_repeat_until" => .loop .until
    | "control_while" => .loop .while
    | "control_wait_until" => .loop .waitUntil
    | "control_if" => .branch false
    | "control_if_else" => .branch true
    | "control_wait" => .wait
    | "control_stop" =>
      if b.field? "STOP_OPTION" = some "this script" then .stop else b.hostStatement
    | "data_setvariableto" => .set
    | "data_changevariableby" => .change
    | "procedures_call" => .call
    | _ => b.hostStatement

/-- What a block that no rule of the language covers does as a reporter. -/
def hostReporter (b : Block) : ReporterKind :=
  match Primitive.ofOpcode? b.opcode with
  | some p =>
    match p.kind with
    | .reporter shape => .primitive p shape
    | .statement => .escape
  | none => .escape

/-- What the block does as an operator, or else as any other reporter. -/
def operatorKind (b : Block) : ReporterKind :=
  match UnaryOp.ofOpcode? b.opcode, BinaryOp.ofOpcode? b.opcode with
  | some op, _ => .unary op
  | none, some op => .binary op
  | none, none => b.hostReporter

/-- What the block does as a reporter. -/
def reporterKind (b : Block) : ReporterKind :=
  match b.opcode with
  | "math_number" | "math_whole_number" | "math_positive_number" | "math_integer" | "math_angle" =>
    .numeral
  | "text" => .text
  | "data_variable" => .variable
  | "argument_reporter_string_number" => .argument .textOrNumber
  | "argument_reporter_boolean" => .argument .boolean
  | _ => b.operatorKind

end Block

end BlockScript
