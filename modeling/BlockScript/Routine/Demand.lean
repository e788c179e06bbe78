import BlockScript.Routine.Stmt

/-!
# What code asks for

Compiled code refers to functions, primitives, variants, arguments and local slots by 16-bit
indices, and to other places in the code by 32-bit offsets. The demands of a routine are all that
its code will ask of these indices and offsets, in the order of the code. The import tables of an
image follow from them, and so does the first demand that cannot be met.
-/

namespace BlockScript

/-- Something that a piece of code asks for. -/
inductive Demand where
  /-- A support function. -/
  | support (f : Support)
  /-- A host primitive. -/
  | host (opcode : String)
  /-- A variant that must be part of the program. -/
  | variant (key : VariantKey)
  /-- A variant that is called. -/
  | procedure (key : VariantKey)
  /-- A call with so many arguments. -/
  | arguments (count : Nat)
  /-- The local slot of an index. -/
  | slot (index : Nat)
  /-- A jump over so many instructions, the jump itself included. -/
  | forward (distance : Nat)
  /-- A jump back by so many instructions. -/
  | backward (distance : Nat)

/-- What the code of a routine depends on besides its statements. -/
structure CodeSettings where
  /-- The routine runs in warp. -/
  warp : Bool
  /-- Loops in warp look at the deadline. -/
  timer : Bool

namespace CodeSettings

/-- A loop runs without giving way after each round. -/
def runsWarp (s : CodeSettings) (warpSafe : Bool) : Bool := s.warp && warpSafe

/-- A loop counts its rounds and looks at the deadline. -/
def checksDeadline (s : CodeSettings) (warpSafe : Bool) : Bool := s.runsWarp warpSafe && s.timer

/-- The number of slots that a loop needs to count towards the deadline. -/
def deadlineSlots (s : CodeSettings) (warpSafe : Bool) : Nat :=
  if s.checksDeadline warpSafe then 1 else 0

end CodeSettings

/-- The number of slots that a loop needs to count its rounds. -/
def LoopKind.slots : LoopKind → Nat
  | .times _ => 1
  | _ => 0

/-! ## The length of code -/

namespace Expr

mutual

/-- The number of instructions of an expression. -/
def size : Expr → Nat
  | .const _ | .arg _ _ | .var _ => 1
  | .unary _ operand => operand.size + 1
  | .binary _ left right => left.size + right.size + 1
  | .host _ args _ => allSize args + 1
  | .escape _ _ inputs => inputSize inputs + 1

/-- The number of instructions of expressions, one after the other. -/
def allSize : List Expr → Nat
  | [] => 0
  | e :: es => e.size + allSize es

/-- The number of instructions of named expressions, one after the other. -/
def inputSize : List (String × Expr) → Nat
  | [] => 0
  | (_, e) :: es => e.size + inputSize es

end

/-- The number of instructions of a condition. -/
def conditionSize (e : Expr) : Nat := if e.shape.isBoolean then e.size else e.size + 1

end Expr

/-- The number of instructions of a loop before its first round, apart from those for the
deadline. -/
def LoopKind.countSize : LoopKind → Nat
  | .times count => count.size + 2
  | _ => 0

/-- The number of instructions of the test before each round of a loop. -/
def LoopKind.testSize : LoopKind → Nat
  | .times _ => 1
  | .forever => 0
  | .until c | .while c | .waitUntil c => c.conditionSize + 1

/-- The number of instructions after each round of a loop, apart from the jump back. -/
def CodeSettings.roundEndSize (s : CodeSettings) (warpSafe : Bool) : Nat :=
  if s.runsWarp warpSafe then if s.timer then 1 else 0 else 1

namespace Stmt

mutual

/-- The number of instructions of a statement. -/
def size (s : CodeSettings) : Stmt → Nat
  | .branch c yes no =>
    c.conditionSize + 1 + allSize s yes + if no.isEmpty then 0 else 1 + allSize s no
  | .loop kind body warpSafe _ =>
    kind.countSize + 2 * s.deadlineSlots warpSafe + kind.testSize
      + (allSize s body + s.roundEndSize warpSafe) + 1
  | .call _ args yieldFirst => (if yieldFirst then 1 else 0) + Expr.allSize args + 1
  | .set _ e => e.size + 1
  | .change _ e => e.size + 3
  | .wait e => e.size + 4
  | .host _ args => Expr.allSize args + 2
  | .done => 1
  | .escape _ _ inputs => Expr.inputSize inputs + 2

/-- The number of instructions of statements. -/
def allSize (s : CodeSettings) : List Stmt → Nat
  | [] => 0
  | t :: ts => size s t + allSize s ts

end

end Stmt

/-! ## The demands of code -/

namespace Expr

mutual

/-- The demands of an expression. -/
def demands : Expr → List Demand
  | .const _ | .arg _ _ | .var _ => []
  | .unary op operand => operand.demands ++ [.support op.support]
  | .binary op left right => left.demands ++ right.demands ++ [.support op.support]
  | .host opcode args _ => allDemands args ++ [.arguments args.length, .host opcode]
  | .escape _ _ inputs => inputDemands inputs

/-- The demands of expressions, one after the other. -/
def allDemands : List Expr → List Demand
  | [] => []
  | e :: es => e.demands ++ allDemands es

/-- The demands of named expressions, one after the other. -/
def inputDemands : List (String × Expr) → List Demand
  | [] => []
  | (_, e) :: es => e.demands ++ inputDemands es

end

/-- The demands of an expression whose value is used as a condition. -/
def conditionDemands (e : Expr) : List Demand :=
  if e.shape.isBoolean then e.demands else e.demands ++ [.support .toBoolean]

end Expr

/-- The demands of the test before each round of a loop. -/
def LoopKind.testDemands : LoopKind → List Demand
  | .times _ | .forever => []
  | .until c | .while c | .waitUntil c => c.conditionDemands

/-- The demands of a loop before its first round, if its slots begin at `base`. -/
def LoopKind.countDemands (base : Nat) : LoopKind → List Demand
  | .times count => count.demands ++ [.support .repeatCount, .slot base]
  | _ => []

/-- The demands of a loop after its last round, if a round has `round` instructions. -/
def LoopKind.exitDemands (round : Nat) : LoopKind → List Demand
  | .forever => []
  | _ => [.forward (round + 2)]

namespace Stmt

mutual

/-- The number of local slots of a statement. -/
def slots (s : CodeSettings) : Stmt → Nat
  | .loop kind body warpSafe _ => kind.slots + s.deadlineSlots warpSafe + allSlots s body
  | .branch _ yes no => allSlots s yes + allSlots s no
  | _ => 0

/-- The number of local slots of statements. -/
def allSlots (s : CodeSettings) : List Stmt → Nat
  | [] => 0
  | t :: ts => slots s t + allSlots s ts

end

mutual

/-- The demands of a statement whose slots begin at `base`. -/
def demands (s : CodeSettings) (base : Nat) : Stmt → List Demand
  | .branch c yes no =>
    c.conditionDemands ++ allDemands s base yes
      ++ if no.isEmpty then [.forward (allSize s yes + 1)]
        else .forward (allSize s yes + 2)
          :: (allDemands s (base + allSlots s yes) no ++ [.forward (allSize s no + 1)])
  | .loop kind body warpSafe _ =>
    let round := allSize s body + s.roundEndSize warpSafe
    kind.countDemands base
      ++ (if s.checksDeadline warpSafe then [.slot (base + kind.slots)] else [])
      ++ kind.testDemands
      ++ allDemands s (base + kind.slots + s.deadlineSlots warpSafe) body
      ++ .backward (kind.testSize + round) :: kind.exitDemands round
  | .call key args _ =>
    .variant key :: (Expr.allDemands args ++ [.procedure key, .arguments args.length])
  | .set _ e => e.demands
  | .change _ e => e.demands ++ [.support .add]
  | .wait e => e.demands ++ [.support .waitDuration]
  | .host opcode args => Expr.allDemands args ++ [.arguments args.length, .host opcode]
  | .done => []
  | .escape _ _ inputs => Expr.inputDemands inputs

/-- The demands of statements whose slots begin at `base`. -/
def allDemands (s : CodeSettings) (base : Nat) : List Stmt → List Demand
  | [] => []
  | t :: ts => demands s base t ++ allDemands s (base + slots s t) ts

end

end Stmt

end BlockScript
