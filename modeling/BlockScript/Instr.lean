import BlockScript.Block

/-!
# Instructions

The instructions of the stack machine that routines are compiled to. Jumps are relative to the
instruction itself. Functions, primitives and variants are named by their index in the tables of the
image that the instruction belongs to.
-/

namespace BlockScript

/-- Why a thread gives way. -/
inductive YieldKind where
  /-- Others may run, the frame is not over. -/
  | soft
  /-- The rest happens in the next frame at the earliest. -/
  | frame
  /-- Something has to happen first. -/
  | blocking
deriving DecidableEq

/-- An instruction. -/
inductive Instr where
  | push (v : Value)
  | drop
  | loadArg (index : UInt16)
  | loadLocal (index : UInt16)
  | storeLocal (index : UInt16)
  /-- Replaces values on the stack by the answer of a support function. -/
  | callSupport (index : UInt16) (argc : UInt16)
  /-- Replaces values on the stack by the answer of a host primitive. -/
  | callHost (index : UInt16) (argc : UInt16)
  /-- Replaces one value for each input by the answer of a block that the host runs. -/
  | escape (block : BlockId) (opcode : String) (inputs : List String)
  | getVariable (name : String)
  | setVariable (name : String)
  | jump (offset : Int32)
  | jumpIfFalse (offset : Int32)
  | jumpIfTrue (offset : Int32)
  /-- Takes one from a local counter, or jumps when it has run out. -/
  | countdown (counter : UInt16) (exit : Int32)
  | yield (kind : YieldKind)
  /-- Counts in a local, and looks at the deadline once in `interval` times. -/
  | checkDeadline (counter : UInt16) (interval : UInt32)
  /-- Starts the timer of the frame with a duration from the stack. -/
  | startTimer
  /-- Waits for the timer of the frame. -/
  | waitTimer
  /-- Enters a variant with arguments from the stack. -/
  | callProcedure (index : UInt16) (argc : UInt16)
  /-- Leaves the routine. -/
  | ret
deriving DecidableEq

namespace Instr

/-- The offset of an instruction that may jump. -/
def jumpOffset? : Instr → Option Int32
  | jump offset | jumpIfFalse offset | jumpIfTrue offset => some offset
  | countdown _ exit => some exit
  | _ => none

/-- The instruction with another offset, if it is one that may jump. -/
def withOffset? (offset : Int32) : Instr → Option Instr
  | jump _ => some (jump offset)
  | jumpIfFalse _ => some (jumpIfFalse offset)
  | jumpIfTrue _ => some (jumpIfTrue offset)
  | countdown counter _ => some (countdown counter offset)
  | _ => none

/-- How many values the instruction takes from the stack, and how many it then leaves there. -/
def effect : Instr → Nat × Nat
  | push _ | loadArg _ | loadLocal _ | getVariable _ => (0, 1)
  | drop | storeLocal _ | setVariable _ | jumpIfFalse _ | jumpIfTrue _ | startTimer => (1, 0)
  | callSupport _ argc | callHost _ argc => (argc.toNat, 1)
  | escape _ _ inputs => (inputs.length, 1)
  | callProcedure _ argc => (argc.toNat, 0)
  | jump _ | countdown _ _ | yield _ | checkDeadline _ _ | waitTimer | ret => (0, 0)

/-- The instruction runs a block by the host. -/
def isEscape : Instr → Bool
  | escape _ _ _ => true
  | _ => false

/-- The short name of the instruction in listings. -/
def mnemonic : Instr → String
  | push _ => "PUSH"
  | drop => "DROP"
  | loadArg _ => "LOAD_ARG"
  | loadLocal _ => "LOAD_LOCAL"
  | storeLocal _ => "STORE_LOCAL"
  | callSupport _ _ => "CALL_SUPP"
  | callHost _ _ => "CALL_HOST"
  | escape _ _ _ => "ESCAPE"
  | getVariable _ => "GET_VAR"
  | setVariable _ => "SET_VAR"
  | jump _ => "JUMP"
  | jumpIfFalse _ => "JUMP_FALSE"
  | jumpIfTrue _ => "JUMP_TRUE"
  | countdown _ _ => "COUNTDOWN"
  | yield _ => "YIELD"
  | checkDeadline _ _ => "CHECK_DEADLINE"
  | startTimer => "START_TIMER"
  | waitTimer => "WAIT_TIMER"
  | callProcedure _ _ => "CALL_PROC"
  | ret => "RETURN"

/-- A constructor with named fields, as diagnostics show it. -/
def recordText (name : String) (fields : List (String × String)) : String :=
  name ++ " \x7b " ++ ", ".intercalate (fields.map fun (k, v) => k ++ ": " ++ v) ++ " \x7d"

/-- A constructor with one field, as diagnostics show it. -/
def fieldText (name content : String) : String := name ++ "(" ++ content ++ ")"

/-- The decimal text of a whole number. -/
def natText (n : Nat) : String := Nat.repr n

/-- The decimal text of an offset. -/
def offsetText (o : Int32) : String :=
  if o.toInt < 0 then "-" ++ natText o.toInt.natAbs else natText o.toInt.natAbs

/-- The name of a kind of yield in diagnostics. -/
def yieldText : YieldKind → String
  | .soft => "Soft"
  | .frame => "Frame"
  | .blocking => "Blocking"

/-- The instruction as diagnostics show it. -/
def text : Instr → String
  | push v => fieldText "Push" v.listed
  | drop => "Drop"
  | loadArg i => fieldText "LoadArg" (natText i.toNat)
  | loadLocal i => fieldText "LoadLocal" (natText i.toNat)
  | storeLocal i => fieldText "StoreLocal" (natText i.toNat)
  | callSupport i argc =>
    recordText "CallSupport" [("import", natText i.toNat), ("argc", natText argc.toNat)]
  | callHost i argc =>
    recordText "CallHost" [("import", natText i.toNat), ("argc", natText argc.toNat)]
  | escape block opcode inputs =>
    recordText "Escape" [("block", fieldText "BlockId" (natText block.toNat)),
      ("opcode", Text.quote opcode),
      ("inputs", "[" ++ ", ".intercalate (inputs.map Text.quote) ++ "]")]
  | getVariable name => fieldText "GetVariable" (Text.quote name)
  | setVariable name => fieldText "SetVariable" (Text.quote name)
  | jump offset => fieldText "Jump" (offsetText offset)
  | jumpIfFalse offset => fieldText "JumpIfFalse" (offsetText offset)
  | jumpIfTrue offset => fieldText "JumpIfTrue" (offsetText offset)
  | countdown counter exit =>
    recordText "Countdown" [("counter", natText counter.toNat), ("exit", offsetText exit)]
  | yield kind => fieldText "Yield" (yieldText kind)
  | checkDeadline counter interval =>
    recordText "CheckDeadline"
      [("counter", natText counter.toNat), ("interval", natText interval.toNat)]
  | startTimer => "StartTimer"
  | waitTimer => "WaitTimer"
  | callProcedure i argc =>
    recordText "CallProcedure" [("variant", natText i.toNat), ("argc", natText argc.toNat)]
  | ret => "Return"

end Instr

end BlockScript
