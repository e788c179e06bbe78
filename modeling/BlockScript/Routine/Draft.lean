import BlockScript.Config
import BlockScript.Image.Basic
import BlockScript.Routine.Basic

/-!
# Writing an image

The image of a routine is written from its first instruction to its last one. Names are entered into
its tables when they are first needed, and local slots are given out one after the other. Where a
jump forward is written, the place that it leads to is not known yet: the jump gets the offset zero,
and is mended when the code has come to that place.

What is too large for an index or an offset ends the writing, and so does the call of a variant that
the program lacks. There are two more errors, which would be faults of the writing itself: an
instruction that is to be mended and is not a jump, and a loop that counts and has no counter.
-/

namespace BlockScript

/-- Why a routine has no image. -/
inductive CompileError where
  /-- A call of a variant that the program lacks. -/
  | missingVariant (routine key : String)
  /-- More things of a kind than indices. -/
  | tooMany (what routine : String)
  /-- The image cannot be written as bytes. Every image can (`Image.encode`), so that no compiler
  comes to this error; it only has a text. -/
  | encode (routine reason : String)
  /-- A fault of the compiler itself. -/
  | internal (reason : String)
deriving DecidableEq

namespace CompileError

/-- The text of the error. -/
def message : CompileError → String
  | missingVariant routine key =>
    "compile error: '" ++ routine ++ "' calls unknown variant " ++ key
      ++ "\n  hint: every call site must be resolved to a variant before code generation"
  | tooMany what routine => "compile error: too many " ++ what ++ " in '" ++ routine ++ "'"
  | encode routine reason => "compile error: cannot encode '" ++ routine ++ "': " ++ reason
  | internal reason => "compile error: internal error: " ++ reason

end CompileError

/-- An image that is being written. -/
structure Draft where
  name : String
  warp : Bool
  arity : UInt16 := 0
  ops : Array Instr := #[]
  /-- The names of the support functions that are called. -/
  support : List String := []
  /-- The names of the host primitives that are called. -/
  host : List String := []
  /-- The variants that are called. -/
  procedures : List VariantKey := []
  /-- The number of local slots that are given out. -/
  locals : Nat := 0

namespace Draft

/-- The image as far as it is written. -/
def image (d : Draft) : Image where
  name := d.name
  ops := d.ops.toList
  support := d.support
  host := d.host
  procedures := d.procedures
  locals := UInt16.ofNat d.locals
  arity := d.arity
  warp := d.warp

/-! ## Instructions and offsets -/

/-- Writes an instruction. -/
def emit (d : Draft) (op : Instr) : Draft := { d with ops := d.ops.push op }

/-- The position of the next instruction. -/
def here (d : Draft) : Nat := d.ops.size

/-- The offset from one position to another. -/
def offset (d : Draft) (start stop : Nat) : Except CompileError Int32 :=
  let distance : Int := stop - start
  if -2147483648 ≤ distance ∧ distance < 2147483648 then .ok (Int32.ofInt distance)
  else .error (.tooMany "instructions" d.name)

/-- What stands at a position, as diagnostics show it. -/
def found (d : Draft) (pos : Nat) : String :=
  match d.ops[pos]? with
  | some op => Instr.fieldText "Some" op.text
  | none => "None"

/-- Lets the jump at a position lead to the next instruction. -/
def patch (d : Draft) (pos : Nat) : Except CompileError Draft := do
  let offset ← d.offset pos d.here
  match d.ops[pos]?.bind (Instr.withOffset? offset) with
  | some op => return { d with ops := d.ops.setIfInBounds pos op }
  | none =>
    throw (.internal
      ("cannot patch " ++ d.found pos ++ " at pc=" ++ Nat.repr pos ++ " as a jump"))

/-- Writes a jump back to a position. -/
def jumpBack (d : Draft) (target : Nat) : Except CompileError Draft := do
  let offset ← d.offset d.here target
  return d.emit (.jump offset)

/-! ## Tables and slots -/

/-- A number of things of a kind, or the index of one of them, in 16 bits. -/
def index (d : Draft) (what : String) (n : Nat) : Except CompileError UInt16 :=
  if n < 65536 then .ok (UInt16.ofNat n) else .error (.tooMany what d.name)

/-- The table with a name in it. A new name comes last. -/
def enter {α : Type} [BEq α] (table : List α) (name : α) : List α :=
  if table.contains name then table else table ++ [name]

/-- Writes the call of a support function. -/
def callSupport (d : Draft) (name : String) (argc : UInt16) : Except CompileError Draft := do
  let index ← d.index "support imports" (d.support.idxOf name)
  return { d with support := enter d.support name }.emit (.callSupport index argc)

/-- Writes the call of a host primitive. -/
def callHost (d : Draft) (opcode : String) (argc : UInt16) : Except CompileError Draft := do
  let index ← d.index "host imports" (d.host.idxOf opcode)
  return { d with host := enter d.host opcode }.emit (.callHost index argc)

/-- A variant that is called must be part of the program. -/
def checkVariant (d : Draft) (p : Program) (key : VariantKey) : Except CompileError Unit :=
  if (p.procedures.find? key).isSome then .ok () else .error (.missingVariant d.name key.text)

/-- Writes the call of a variant with a number of arguments. -/
def callProcedure (d : Draft) (key : VariantKey) (args : Nat) : Except CompileError Draft := do
  let index ← d.index "procedures" (d.procedures.idxOf key)
  let argc ← d.index "call arguments" args
  return { d with procedures := enter d.procedures key }.emit (.callProcedure index argc)

/-- Gives out a local slot. The number of slots is a 16-bit number, so the last index is not
used. -/
def allocLocal (d : Draft) : Except CompileError (UInt16 × Draft) :=
  if d.locals < 65535 then .ok (UInt16.ofNat d.locals, { d with locals := d.locals + 1 })
  else .error (.tooMany "locals" d.name)

end Draft

/-! ## Expressions -/

namespace Expr

mutual

/-- Writes the code of an expression, which leaves its value on the stack. -/
def write : Expr → Draft → Except CompileError Draft
  | .const v, d => return d.emit (.push v)
  | .arg index _, d => return d.emit (.loadArg index)
  | .var name, d => return d.emit (.getVariable name)
  | .unary op operand, d => do
    let d ← operand.write d
    d.callSupport op.supportName 1
  | .binary op left right, d => do
    let d ← left.write d
    let d ← right.write d
    d.callSupport op.supportName 2
  | .host opcode args _, d => do
    let d ← writeAll args d
    let argc ← d.index "call arguments" args.length
    d.callHost opcode argc
  | .escape block opcode inputs, d => do
    let d ← writeInputs inputs d
    return d.emit (.escape block opcode (inputs.map Prod.fst))

/-- Writes the code of expressions, one after the other. -/
def writeAll : List Expr → Draft → Except CompileError Draft
  | [], d => return d
  | e :: es, d => do
    let d ← e.write d
    writeAll es d

/-- Writes the code of named expressions, one after the other. -/
def writeInputs : List (String × Expr) → Draft → Except CompileError Draft
  | [], d => return d
  | (_, e) :: es, d => do
    let d ← e.write d
    writeInputs es d

end

/-- Writes the code of an expression that leaves a truth value. One that is known to be a truth
value already is left as it is. -/
def writeCondition (e : Expr) (d : Draft) : Except CompileError Draft := do
  let d ← e.write d
  if e.shape.isBoolean then return d else d.callSupport "to_boolean" 1

end Expr

/-! ## Loops -/

namespace LoopKind

/-- Writes what counts the rounds of a loop before the first one, and gives the slot of the
counter. -/
def writeCount (kind : LoopKind) (d : Draft) : Except CompileError (Option UInt16 × Draft) :=
  match kind with
  | .times count => do
    let d ← count.write d
    let d ← d.callSupport "repeat_count" 1
    let (slot, d) ← d.allocLocal
    return (some slot, d.emit (.storeLocal slot))
  | _ => return (none, d)

/-- Writes the test before each round of a loop, and gives the position of the jump that leaves
it. -/
def writeTest (kind : LoopKind) (counter : Option UInt16) (d : Draft) :
    Except CompileError (Option Nat × Draft) :=
  match kind with
  | .times _ =>
    match counter with
    | some slot => return (some d.here, d.emit (.countdown slot 0))
    | none => throw (.internal "repeat loop without a counter")
  | .until c | .waitUntil c => do
    let d ← c.writeCondition d
    return (some d.here, d.emit (.jumpIfTrue 0))
  | .while c => do
    let d ← c.writeCondition d
    return (some d.here, d.emit (.jumpIfFalse 0))
  | .forever => return (none, d)

end LoopKind

namespace Draft

/-- Writes what a loop does before its first round, if it looks at the deadline: it sets the counter
for that to zero. -/
def startDeadline (d : Draft) (checks : Bool) : Except CompileError (Option UInt16 × Draft) :=
  if checks then do
    let (slot, d) ← d.allocLocal
    return (some slot, (d.emit (.push (.number Number.zero))).emit (.storeLocal slot))
  else return (none, d)

/-- Writes what a loop does after each round: it gives way, or in warp it looks at the deadline at
most. -/
def endRound (d : Draft) (runsWarp : Bool) (deadline : Option UInt16) (interval : UInt32) : Draft :=
  if runsWarp then
    match deadline with
    | some slot => d.emit (.checkDeadline slot (max interval 1))
    | none => d
  else d.emit (.yield .soft)

/-- Lets the jump that leaves a loop, if there is one, lead to the next instruction. -/
def endLoop (d : Draft) : Option Nat → Except CompileError Draft
  | some pos => d.patch pos
  | none => return d

end Draft

/-! ## Statements -/

namespace Stmt

mutual

/-- Writes the code of a statement, which leaves the stack as it was. -/
def write (p : Program) (config : CompilerConfig) : Stmt → Draft → Except CompileError Draft
  | .branch c yes no, d => do
    let d ← c.writeCondition d
    let skipYes := d.here
    let d ← writeAll p config yes (d.emit (.jumpIfFalse 0))
    if no.isEmpty then d.patch skipYes
    else
      let skipNo := d.here
      let d ← (d.emit (.jump 0)).patch skipYes
      let d ← writeAll p config no d
      d.patch skipNo
  | .loop kind body warpSafe interval, d => do
    let (counter, d) ← kind.writeCount d
    let runsWarp := d.warp && warpSafe
    let (deadline, d) ← d.startDeadline (runsWarp && config.warpTimer)
    let top := d.here
    let (exit, d) ← kind.writeTest counter d
    let d ← writeAll p config body d
    let d ← (d.endRound runsWarp deadline interval).jumpBack top
    d.endLoop exit
  | .call key args yieldFirst, d => do
    d.checkVariant p key
    let d ← Expr.writeAll args (if yieldFirst then d.emit (.yield .soft) else d)
    d.callProcedure key args.length
  | .set name e, d => do
    let d ← e.write d
    return d.emit (.setVariable name)
  | .change name e, d => do
    let d ← e.write (d.emit (.getVariable name))
    let d ← d.callSupport "add" 2
    return d.emit (.setVariable name)
  | .wait e, d => do
    let d ← e.write d
    let d ← d.callSupport "wait_duration" 1
    return ((d.emit .startTimer).emit (.yield .frame)).emit .waitTimer
  | .host opcode args, d => do
    let d ← Expr.writeAll args d
    let argc ← d.index "call arguments" args.length
    let d ← d.callHost opcode argc
    return d.emit .drop
  | .done, d => return d.emit .ret
  | .escape block opcode inputs, d => do
    let d ← Expr.writeInputs inputs d
    return (d.emit (.escape block opcode (inputs.map Prod.fst))).emit .drop

/-- Writes the code of statements, one after the other. -/
def writeAll (p : Program) (config : CompilerConfig) :
    List Stmt → Draft → Except CompileError Draft
  | [], d => return d
  | t :: ts, d => do
    let d ← write p config t d
    writeAll p config ts d

end

end Stmt

/-- Compiles a routine of a program. -/
def Routine.compile (r : Routine) (p : Program) (config : CompilerConfig) :
    Except CompileError Image := do
  let d : Draft := { name := r.label, warp := r.warp }
  let arity ← d.index "arguments" r.arguments.length
  let d ← Stmt.writeAll p config r.stack { d with arity := arity }
  return (d.emit .ret).image

end BlockScript
