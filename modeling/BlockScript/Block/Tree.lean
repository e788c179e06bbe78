import BlockScript.Block.Kind

/-!
# Trees of blocks

The walk over an arena that turns a stack of blocks into a tree. From a block the walk follows the
input slots that its kind reads, in the order in which they are read, and from a member of a stack
then the block below. Each block may be met once: a missing block or a second visit ends the walk.

The walk ends on every arena. Along any path the blocks are distinct, so no path is longer than the
arena, and a depth of one more is never used up.
-/

namespace BlockScript

/-- A value, a reporter or a stack, with all that hangs on it. -/
inductive Tree where
  | literal (v : Value)
  /-- A block and the slots that were read from it, in order. -/
  | block (id : BlockId) (record : Block) (slots : List (String × Tree))
  | stack (members : List Tree)

/-- A slot that a block reads. -/
inductive Reading where
  /-- A slot read for its value. -/
  | value (name : String) (slot : Slot)
  /-- A slot read as a stack. -/
  | stack (name : String) (first : BlockId)

namespace Reading

/-- The name of the slot. -/
def name : Reading → String
  | value name _ => name
  | stack name _ => name

end Reading

/-- What ends a walk early. -/
inductive WalkError where
  | missing (id : BlockId)
  | repeated (id : BlockId)
deriving DecidableEq

namespace Block

/-- The reading of a slot for its value, if the slot is there. -/
def readValue (b : Block) (name : String) : List Reading :=
  match b.input? name with
  | some slot => [.value name slot]
  | none => []

/-- The reading of a slot as a stack, if there is a block in the slot. -/
def readStack (b : Block) (name : String) : List Reading :=
  match b.input? name with
  | some (.block id) => [.stack name id]
  | _ => []

/-- The slots that go to the host along with a block: all but the stacks inside it. -/
def readOutside (b : Block) : List Reading :=
  (b.inputs.filter fun (name, _) => !"SUBSTACK".toList.isPrefixOf name.toList).map
    fun (name, slot) => .value name slot

/-- The procedure that a call block calls. -/
def callee? (b : Block) (t : Target) : Option Procedure := t.procedure? (b.proccode.getD "")

/-- The slots that a member of a stack reads, in order. -/
def statementReadings (b : Block) (t : Target) : List Reading :=
  match b.statementKind with
  | .hat | .stop => []
  | .loop .times => b.readValue "TIMES" ++ b.readStack "SUBSTACK"
  | .loop .forever => b.readStack "SUBSTACK"
  | .loop .until | .loop .while => b.readValue "CONDITION" ++ b.readStack "SUBSTACK"
  | .loop .waitUntil => b.readValue "CONDITION"
  | .branch false => b.readValue "CONDITION" ++ b.readStack "SUBSTACK"
  | .branch true =>
    b.readValue "CONDITION" ++ b.readStack "SUBSTACK" ++ b.readStack "SUBSTACK2"
  | .wait => b.readValue "DURATION"
  | .set | .change => b.readValue "VALUE"
  | .call =>
    match b.callee? t with
    | some p => p.params.flatMap fun q => b.readValue q.id
    | none => []
  | .primitive p => p.inputs.flatMap b.readValue
  | .escape => b.readOutside

/-- The slots that a reporter reads, in order. -/
def reporterReadings (b : Block) : List Reading :=
  match b.reporterKind with
  | .numeral | .text | .variable | .argument _ => []
  | .unary op => b.readValue op.slot
  | .binary op => b.readValue op.leftSlot ++ b.readValue op.rightSlot
  | .primitive p _ => p.inputs.flatMap b.readValue
  | .escape => b.readOutside

end Block

namespace Arena

/-- The block of a number, which must exist and must not have been seen. -/
def visit (a : Arena) (seen : List BlockId) (id : BlockId) : Except WalkError Block :=
  match a.get? id with
  | none => .error (.missing id)
  | some b => if id ∈ seen then .error (.repeated id) else .ok b

/-- A walk from one block: the result, and the blocks seen so far. -/
abbrev Walk (α : Type) := BlockId → List BlockId → Except WalkError (α × List BlockId)

/-- The tree of a slot, given the walks for reporters and for stacks. -/
def walkReading (reporter : Walk Tree) (stack : Walk (List Tree)) :
    Reading → List BlockId → Except WalkError (Tree × List BlockId)
  | .value _ (.literal v), seen => .ok (.literal v, seen)
  | .value _ (.block id), seen => reporter id seen
  | .stack _ first, seen => do
    let (members, seen) ← stack first seen
    return (.stack members, seen)

/-- The trees of a row of slots, one after the other. -/
def walkReadings (reporter : Walk Tree) (stack : Walk (List Tree)) :
    List Reading → List BlockId → Except WalkError (List (String × Tree) × List BlockId)
  | [], seen => .ok ([], seen)
  | r :: rs, seen => do
    let (tree, seen) ← walkReading reporter stack r seen
    let (trees, seen) ← walkReadings reporter stack rs seen
    return ((r.name, tree) :: trees, seen)

mutual

/-- The tree of a reporter, walking at most `depth` blocks deep. -/
def walkReporter (a : Arena) (t : Target) : (depth : Nat) → Walk Tree
  | 0, id, _ => .error (.repeated id)
  | depth + 1, id, seen => do
    let b ← a.visit seen id
    let (slots, seen) ← walkReadings (a.walkReporter t depth) (a.walkStack t depth)
      b.reporterReadings (id :: seen)
    return (.block id b slots, seen)

/-- The trees of a stack, walking at most `depth` blocks deep. -/
def walkStack (a : Arena) (t : Target) : (depth : Nat) → Walk (List Tree)
  | 0, id, _ => .error (.repeated id)
  | depth + 1, id, seen => do
    let b ← a.visit seen id
    let (slots, seen) ← walkReadings (a.walkReporter t depth) (a.walkStack t depth)
      (b.statementReadings t) (id :: seen)
    match b.next with
    | none => return ([.block id b slots], seen)
    | some below =>
      let (rest, seen) ← a.walkStack t depth below seen
      return (.block id b slots :: rest, seen)

end

/-- The trees of the stack that begins with a block, if every block met exists and is met once. -/
def stackTrees (a : Arena) (t : Target) : Option BlockId → Except WalkError (List Tree)
  | none => .ok []
  | some first => (a.walkStack t (a.size + 1) first []).map Prod.fst

end Arena

end BlockScript
