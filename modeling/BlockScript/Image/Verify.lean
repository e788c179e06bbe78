import BlockScript.Image.Basic

/-!
# Verification

An image is well formed if it ends with a return, its jumps stay inside, its indices are those of
its tables, and no instruction takes more from the stack than the instructions before it have left
there. The stack is looked at in one pass from the first instruction to the last, without regard to
jumps.
-/

namespace BlockScript

/-- What is wrong with an image. -/
inductive Flaw where
  | noReturn
  | jumpOutside (pc : Nat) (offset target : Int)
  /-- An index that is not below the size of its table. -/
  | badIndex (what : String) (index limit pc : Nat)
  | zeroInterval (pc : Nat)
  | underflow (pc : Nat) (op : Instr)
deriving DecidableEq

/-- The decimal text of an integer. -/
def intText (n : Int) : String :=
  if n < 0 then "-" ++ Nat.repr n.natAbs else Nat.repr n.natAbs

namespace Flaw

/-- The text of the flaw. -/
def message : Flaw → String
  | noReturn => "routine does not end with RETURN"
  | jumpOutside pc offset target =>
    "jump out of bounds: pc=" ++ Nat.repr pc ++ ", offset=" ++ intText offset ++ ", target="
      ++ intText target
  | badIndex what index limit pc =>
    what ++ " index " ++ Nat.repr index ++ " out of range (" ++ Nat.repr limit ++ ") at pc="
      ++ Nat.repr pc
  | zeroInterval pc => "deadline check with zero interval at pc=" ++ Nat.repr pc
  | underflow pc op =>
    "stack underflow at pc=" ++ Nat.repr pc ++ ", op=" ++ op.text ++ ", needed "
      ++ Nat.repr op.effect.1 ++ " items"

end Flaw

/-- A flaw of a named routine. -/
structure VerifyError where
  routine : String
  flaw : Flaw
deriving DecidableEq

/-- The text of the error. -/
def VerifyError.message (e : VerifyError) : String :=
  "verify error in '" ++ e.routine ++ "': " ++ e.flaw.message

namespace Instr

/-- The first instruction that takes more than there is on the stack, in a pass that starts at
position `pc` with `height` values. Each further height is kept as `keep` says. -/
def underflow? (keep : Nat → Nat) (height pc : Nat) : List Instr → Option Flaw
  | [] => none
  | op :: ops =>
    if height < op.effect.1 then some (.underflow pc op)
    else underflow? keep (keep (height - op.effect.1 + op.effect.2)) (pc + 1) ops

/-- Checks the stack along the instructions of a routine, starting with `height` values. The first
height may be any 64-bit number, and the heights after it are such numbers too. -/
def checkStack (routine : String) (height : Nat) (ops : List Instr) : Except VerifyError Unit :=
  match underflow? (· % Nat.pow 2 64) height 0 ops with
  | some flaw => .error ⟨routine, flaw⟩
  | none => .ok ()

end Instr

namespace Image

/-- The flaw of an index that is not below a limit. -/
def indexFlaw? (what : String) (index limit pc : Nat) : Option Flaw :=
  if index < limit then none else some (.badIndex what index limit pc)

/-- The flaw of a jump that leaves the routine. -/
def jumpFlaw? (i : Image) (op : Instr) (pc : Nat) : Option Flaw :=
  op.jumpOffset?.bind fun offset =>
    let target : Int := pc + offset.toInt
    if 0 ≤ target && target < i.ops.length then none
    else some (.jumpOutside pc offset.toInt target)

/-- The flaw of the indices of an instruction. -/
def operandFlaw? (i : Image) (op : Instr) (pc : Nat) : Option Flaw :=
  match op with
  | .loadArg n => indexFlaw? "argument" n.toNat i.arity.toNat pc
  | .loadLocal n | .storeLocal n | .countdown n _ => indexFlaw? "local" n.toNat i.locals.toNat pc
  | .checkDeadline n interval =>
    (indexFlaw? "local" n.toNat i.locals.toNat pc).or
      (if interval = 0 then some (.zeroInterval pc) else none)
  | .callSupport n _ => indexFlaw? "support import" n.toNat i.support.length pc
  | .callHost n _ => indexFlaw? "host import" n.toNat i.host.length pc
  | .callProcedure n _ => indexFlaw? "procedure" n.toNat i.procedures.length pc
  | _ => none

/-- The first flaw of an image. The stack starts empty and each instruction adds one value at most,
so its height needs no bound. -/
def flaw? (i : Image) : Option Flaw :=
  if i.ops.getLast? ≠ some .ret then some .noReturn
  else
    (i.ops.zipIdx.findSome? fun (op, pc) => (i.jumpFlaw? op pc).or (i.operandFlaw? op pc)).or
      (Instr.underflow? id 0 0 i.ops)

/-- Checks that the image is well formed. -/
def verify (i : Image) : Except VerifyError Unit :=
  match i.flaw? with
  | some flaw => .error ⟨i.name, flaw⟩
  | none => .ok ()

end Image

end BlockScript
