import BlockScript.Block.Tree
import BlockScript.Config
import BlockScript.Routine.Basic

/-!
# From trees of blocks to statements

Each block becomes the expression or the statement that its kind says, put together from what its
slots became. A call names the variant that its argument shapes and its surroundings ask for.
-/

namespace BlockScript

/-- What a routine's blocks are read with. -/
structure Surroundings where
  target : Target
  config : CompilerConfig
  /-- The routine runs in warp. -/
  warp : Bool
  /-- The variant and the procedure that the blocks belong to, if they belong to one. -/
  variant : Option (VariantKey × Procedure) := none

/-- What a slot became. -/
inductive Part where
  | expr (e : Expr)
  | body (ss : List Stmt)

namespace Part

/-- The expression in the slot of a name; a constant if the slot is absent. -/
def exprAt (parts : List (String × Part)) (name : String) (absent : Value) : Expr :=
  match parts.lookup name with
  | some (.expr e) => e
  | _ => .const absent

/-- The statements in the slot of a name. -/
def bodyAt (parts : List (String × Part)) (name : String) : List Stmt :=
  match parts.lookup name with
  | some (.body ss) => ss
  | _ => []

/-- The expressions of all slots, with their names. -/
def exprs (parts : List (String × Part)) : List (String × Expr) :=
  parts.filterMap fun (name, part) =>
    match part with
    | .expr e => some (name, e)
    | .body _ => none

end Part

/-- The constant of a number typed into a slot: a number if its text is the text of that number, so
that nothing is lost, and the text itself otherwise. -/
def numeralConst (text : String) : Value :=
  match Number.read? text with
  | some n => if n.text = text then .number n else .text text
  | none => .text text

namespace Surroundings

/-- The argument of a name. Outside of a procedure that has it, it is zero or false. -/
def argument (s : Surroundings) (name : String) (kind : ParamKind) : Expr :=
  let index? := s.variant.bind fun (key, p) =>
    (p.paramIndex? name).bind fun i => if i < 65536 then some (i, key.signature[i]?) else none
  match index?, kind with
  | some (i, shape?), _ => .arg (UInt16.ofNat i) (shape?.getD .unknown)
  | none, .textOrNumber => .const (.number 0)
  | none, .boolean => .const (.bool false)

/-- A loop. It is safe to run in warp unless it may wait; in warp it looks at the deadline in the
interval set, and otherwise each time. -/
def makeLoop (s : Surroundings) (kind : LoopKind) (body : List Stmt) : Stmt :=
  let warpSafe := !kind.isWait && !Stmt.anyWaits body
  .loop kind body warpSafe (if s.warp && warpSafe then max s.config.deadlineCheckInterval 1 else 1)

/-- A call. The thread gives way before a variant that is not in warp calls itself. -/
def makeCall (s : Surroundings) (p : Procedure) (args : List Expr) : Stmt :=
  let key := VariantKey.ofCall p.proccode (args.map Expr.shape) (s.warp || p.warp)
  .call key args (!s.warp && s.variant.map Prod.fst == some key)

/-- The expression of a reporter. -/
def reporter (s : Surroundings) (id : BlockId) (b : Block) (parts : List (String × Part)) : Expr :=
  match b.reporterKind with
  | .numeral => .const (numeralConst (b.field "NUM"))
  | .text => .const (.text (b.field "TEXT"))
  | .unary op => .unary op (Part.exprAt parts op.slot op.absent)
  | .binary op =>
    .binary op (Part.exprAt parts op.leftSlot op.absent) (Part.exprAt parts op.rightSlot op.absent)
  | .variable => .var (b.field "VARIABLE")
  | .argument kind => s.argument (b.field "VALUE") kind
  | .primitive p shape => .host p.opcode (p.inputs.map fun n => Part.exprAt parts n .empty) shape
  | .escape => .escape id b.opcode (Part.exprs parts)

/-- The loop of a form. -/
def loopKind (parts : List (String × Part)) : LoopForm → LoopKind
  | .times => .times (Part.exprAt parts "TIMES" .empty)
  | .forever => .forever
  | .until => .until (Part.exprAt parts "CONDITION" (.bool false))
  | .while => .while (Part.exprAt parts "CONDITION" (.bool false))
  | .waitUntil => .waitUntil (Part.exprAt parts "CONDITION" (.bool false))

/-- The statements that a loop of a form repeats. A wait repeats nothing. -/
def loopBody (parts : List (String × Part)) : LoopForm → List Stmt
  | .waitUntil => []
  | _ => Part.bodyAt parts "SUBSTACK"

/-- The statement of a member of a stack, if it does anything. A call of a procedure that is not
defined does nothing. -/
def statement? (s : Surroundings) (id : BlockId) (b : Block) (parts : List (String × Part)) :
    Option Stmt :=
  match b.statementKind with
  | .hat => none
  | .loop form => some (s.makeLoop (loopKind parts form) (loopBody parts form))
  | .branch withElse =>
    some (.branch (Part.exprAt parts "CONDITION" (.bool false)) (Part.bodyAt parts "SUBSTACK")
      (if withElse then Part.bodyAt parts "SUBSTACK2" else []))
  | .wait => some (.wait (Part.exprAt parts "DURATION" .empty))
  | .stop => some .done
  | .set => some (.set (b.field "VARIABLE") (Part.exprAt parts "VALUE" .empty))
  | .change => some (.change (b.field "VARIABLE") (Part.exprAt parts "VALUE" .empty))
  | .call =>
    (b.callee? s.target).map fun p =>
      s.makeCall p (p.params.map fun q => Part.exprAt parts q.id q.kind.default)
  | .primitive p => some (.host p.opcode (p.inputs.map fun n => Part.exprAt parts n .empty))
  | .escape => some (.escape id b.opcode (Part.exprs parts))

mutual

/-- What a slot becomes. -/
def part (s : Surroundings) : Tree → Part
  | .literal v => .expr (.const v)
  | .block id b slots => .expr (s.reporter id b (s.parts slots))
  | .stack members => .body (s.statements members)

/-- What named slots become. -/
def parts (s : Surroundings) : List (String × Tree) → List (String × Part)
  | [] => []
  | (name, tree) :: rest => (name, s.part tree) :: s.parts rest

/-- What the members of a stack become. -/
def statements (s : Surroundings) : List Tree → List Stmt
  | [] => []
  | tree :: rest => s.member tree ++ s.statements rest

/-- What a member of a stack becomes: one statement, or nothing. -/
def member (s : Surroundings) : Tree → List Stmt
  | .block id b slots => (s.statement? id b (s.parts slots)).toList
  | .literal _ | .stack _ => []

end

end Surroundings

end BlockScript
