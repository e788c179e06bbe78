import BlockScript.Instr
import BlockScript.Routine.Demand

/-!
# The code of statements

Expressions leave their value on the stack, and statements leave the stack as it was. Control flow
becomes relative jumps, whose offsets are the lengths of the pieces that they lead over. The local
slots of a statement begin at a given base, those of the next statement after them.
-/

namespace BlockScript

/-- The tables that the indices in code refer to. -/
structure Imports where
  support : List Support
  host : List String
  procedures : List VariantKey

namespace Imports

/-- The tables of a row of demands, each name once and in the order of first demand. -/
def ofDemands (ds : List Demand) : Imports where
  support := (ds.filterMap fun | .support f => some f | _ => none).eraseDups
  host := (ds.filterMap fun | .host opcode => some opcode | _ => none).eraseDups
  procedures := (ds.filterMap fun | .procedure key => some key | _ => none).eraseDups

/-- The call of a support function. -/
def callSupport (i : Imports) (f : Support) (argc : Nat) : Instr :=
  .callSupport (UInt16.ofNat (i.support.idxOf f)) (UInt16.ofNat argc)

/-- The call of a host primitive. -/
def callHost (i : Imports) (opcode : String) (argc : Nat) : Instr :=
  .callHost (UInt16.ofNat (i.host.idxOf opcode)) (UInt16.ofNat argc)

/-- The call of a variant. -/
def callProcedure (i : Imports) (key : VariantKey) (argc : Nat) : Instr :=
  .callProcedure (UInt16.ofNat (i.procedures.idxOf key)) (UInt16.ofNat argc)

end Imports

namespace Expr

mutual

/-- The code of an expression. -/
def code (i : Imports) : Expr → List Instr
  | .const v => [.push v]
  | .arg index _ => [.loadArg index]
  | .var name => [.getVariable name]
  | .unary op operand => operand.code i ++ [i.callSupport op.support 1]
  | .binary op left right => left.code i ++ right.code i ++ [i.callSupport op.support 2]
  | .host opcode args _ => allCode i args ++ [i.callHost opcode args.length]
  | .escape block opcode inputs =>
    inputCode i inputs ++ [.escape block opcode (inputs.map Prod.fst)]

/-- The code of expressions, one after the other. -/
def allCode (i : Imports) : List Expr → List Instr
  | [] => []
  | e :: es => e.code i ++ allCode i es

/-- The code of named expressions, one after the other. -/
def inputCode (i : Imports) : List (String × Expr) → List Instr
  | [] => []
  | (_, e) :: es => e.code i ++ inputCode i es

end

/-- The code of an expression that leaves a truth value. One that is known to be a truth value
already is left as it is. -/
def conditionCode (i : Imports) (e : Expr) : List Instr :=
  if e.shape.isBoolean then e.code i else e.code i ++ [i.callSupport .toBoolean 1]

end Expr

/-- An offset of so many instructions forward. -/
def forward (n : Nat) : Int32 := Int32.ofInt n

/-- An offset of so many instructions back. -/
def backward (n : Nat) : Int32 := Int32.ofInt (-n)

/-- The index of a local slot. -/
def localSlot (n : Nat) : UInt16 := UInt16.ofNat n

/-- The code that counts the rounds of a loop before the first one, in the slot `base`. -/
def LoopKind.countCode (i : Imports) (base : Nat) : LoopKind → List Instr
  | .times count => count.code i ++ [i.callSupport .repeatCount 1, .storeLocal (localSlot base)]
  | _ => []

/-- The test before each round of a loop, which jumps over `rest` instructions to leave it. -/
def LoopKind.testCode (i : Imports) (base rest : Nat) : LoopKind → List Instr
  | .times _ => [.countdown (localSlot base) (forward (rest + 1))]
  | .forever => []
  | .until c | .waitUntil c => c.conditionCode i ++ [.jumpIfTrue (forward (rest + 1))]
  | .while c => c.conditionCode i ++ [.jumpIfFalse (forward (rest + 1))]

namespace Stmt

/-- What a loop does before its first round: it begins to count, if it looks at the deadline. -/
def deadlineStart (s : CodeSettings) (warpSafe : Bool) (slot : Nat) : List Instr :=
  if s.checksDeadline warpSafe then
    [.push (.number Number.zero), .storeLocal (localSlot slot)]
  else []

/-- What a loop does after each round: it gives way, or in warp it looks at the deadline at most. -/
def roundEnd (s : CodeSettings) (warpSafe : Bool) (slot : Nat) (interval : UInt32) : List Instr :=
  if s.runsWarp warpSafe then
    if s.timer then [.checkDeadline (localSlot slot) (max interval 1)] else []
  else [.yield .soft]

mutual

/-- The code of a statement whose slots begin at `base`. -/
def code (s : CodeSettings) (i : Imports) (base : Nat) : Stmt → List Instr
  | .branch c yes no =>
    let yesCode := allCode s i base yes
    let noCode := allCode s i (base + allSlots s yes) no
    if no.isEmpty then
      c.conditionCode i ++ .jumpIfFalse (forward (yesCode.length + 1)) :: yesCode
    else
      c.conditionCode i ++ .jumpIfFalse (forward (yesCode.length + 2)) :: yesCode
        ++ .jump (forward (noCode.length + 1)) :: noCode
  | .loop kind body warpSafe interval =>
    let deadline := base + kind.slots
    let round := allCode s i (deadline + s.deadlineSlots warpSafe) body
      ++ roundEnd s warpSafe deadline interval
    let test := kind.testCode i base (round.length + 1)
    kind.countCode i base ++ deadlineStart s warpSafe deadline
      ++ test ++ round ++ [.jump (backward (test.length + round.length))]
  | .call key args yieldFirst =>
    (if yieldFirst then [.yield .soft] else []) ++ Expr.allCode i args
      ++ [i.callProcedure key args.length]
  | .set name e => e.code i ++ [.setVariable name]
  | .change name e =>
    .getVariable name :: (e.code i ++ [i.callSupport .add 2, .setVariable name])
  | .wait e =>
    e.code i ++ [i.callSupport .waitDuration 1, .startTimer, .yield .frame, .waitTimer]
  | .host opcode args => Expr.allCode i args ++ [i.callHost opcode args.length, .drop]
  | .done => [.ret]
  | .escape block opcode inputs =>
    Expr.inputCode i inputs ++ [.escape block opcode (inputs.map Prod.fst), .drop]

/-- The code of statements whose slots begin at `base`. -/
def allCode (s : CodeSettings) (i : Imports) (base : Nat) : List Stmt → List Instr
  | [] => []
  | t :: ts => code s i base t ++ allCode s i (base + slots s t) ts

end

end Stmt

end BlockScript
