import BlockScript.Routine.Expr
import BlockScript.Variant.Key

/-!
# Statements

What the stacks of a script do, as a tree.
-/

namespace BlockScript

/-- How a loop decides whether to go round once more. -/
inductive LoopKind where
  /-- So many times as an expression says when the loop begins. -/
  | times (count : Expr)
  | forever
  /-- Until a condition holds. -/
  | until (condition : Expr)
  /-- While a condition holds. -/
  | while (condition : Expr)
  /-- Until a condition holds, doing nothing in the meantime. -/
  | waitUntil (condition : Expr)

namespace LoopKind

/-- The loop does nothing but wait. -/
def isWait : LoopKind → Bool
  | waitUntil _ => true
  | _ => false

end LoopKind

/-- A statement. -/
inductive Stmt where
  | branch (condition : Expr) (yes no : List Stmt)
  /-- A loop. One that is `warpSafe` need not give way after each round when it runs in warp; it
  then looks at the deadline once in `interval` rounds. -/
  | loop (kind : LoopKind) (body : List Stmt) (warpSafe : Bool) (interval : UInt32)
  /-- A call of a variant, before which the thread gives way if `yieldFirst` is set. -/
  | call (key : VariantKey) (args : List Expr) (yieldFirst : Bool)
  | set (name : String) (value : Expr)
  | change (name : String) (delta : Expr)
  | wait (duration : Expr)
  /-- A call of a host primitive. -/
  | host (opcode : String) (args : List Expr)
  /-- The end of the routine. -/
  | done
  /-- A block that only the host can run. -/
  | escape (block : BlockId) (opcode : String) (inputs : List (String × Expr))

namespace Stmt

mutual

/-- The statement may wait for time to pass or for a condition to hold. Calls are not looked
into. -/
def waits : Stmt → Bool
  | .wait _ => true
  | .loop kind body _ _ => kind.isWait || anyWaits body
  | .branch _ yes no => anyWaits yes || anyWaits no
  | _ => false

/-- One of the statements may wait. -/
def anyWaits : List Stmt → Bool
  | [] => false
  | s :: ss => s.waits || anyWaits ss

end

mutual

/-- The variants that a statement calls, in order. -/
def calls : Stmt → List VariantKey
  | .call key _ _ => [key]
  | .loop _ body _ _ => allCalls body
  | .branch _ yes no => allCalls yes ++ allCalls no
  | _ => []

/-- The variants that statements call, in order. -/
def allCalls : List Stmt → List VariantKey
  | [] => []
  | s :: ss => s.calls ++ allCalls ss

end

end Stmt

end BlockScript
