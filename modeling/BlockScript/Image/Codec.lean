import BlockScript.Image.Basic
import BlockScript.Wire

/-!
# Images as bytes

The binary form of an image: its parts one after the other. A choice is written as the index of the
alternative, counted from zero in the order in which the alternatives are declared, and then the
contents. Bytes after the image are ignored.
-/

namespace BlockScript

namespace Wire

/-- Writes the index of an alternative, and its contents. -/
def choice (index : Nat) (contents : List UInt8) : List UInt8 := varint index ++ contents

/-- Writes a value. -/
def value : Value → List UInt8
  | .number n => choice 0 (word n.bits)
  | .text s => choice 1 (text s)
  | .bool b => choice 2 (bool b)

/-- Writes a shape. -/
def shape (s : Shape) : List UInt8 := choice s.rank []

/-- Writes a key. -/
def key (k : VariantKey) : List UInt8 := text k.proccode ++ list shape k.signature ++ bool k.warp

/-- Writes a 16-bit number. -/
def uint16 (n : UInt16) : List UInt8 := varint n.toNat

/-- Writes a 32-bit number. -/
def uint32 (n : UInt32) : List UInt8 := varint n.toNat

/-- Writes a kind of yield. -/
def yieldKind : YieldKind → List UInt8
  | .soft => choice 0 []
  | .frame => choice 1 []
  | .blocking => choice 2 []

/-- Writes an instruction. -/
def instr : Instr → List UInt8
  | .push v => choice 0 (value v)
  | .drop => choice 1 []
  | .loadArg i => choice 2 (uint16 i)
  | .loadLocal i => choice 3 (uint16 i)
  | .storeLocal i => choice 4 (uint16 i)
  | .callSupport i argc => choice 5 (uint16 i ++ uint16 argc)
  | .callHost i argc => choice 6 (uint16 i ++ uint16 argc)
  | .escape block opcode inputs => choice 7 (uint32 block ++ text opcode ++ list text inputs)
  | .getVariable name => choice 8 (text name)
  | .setVariable name => choice 9 (text name)
  | .jump offset => choice 10 (int32 offset)
  | .jumpIfFalse offset => choice 11 (int32 offset)
  | .jumpIfTrue offset => choice 12 (int32 offset)
  | .countdown counter exit => choice 13 (uint16 counter ++ int32 exit)
  | .yield kind => choice 14 (yieldKind kind)
  | .checkDeadline counter interval => choice 15 (uint16 counter ++ uint32 interval)
  | .startTimer => choice 16 []
  | .waitTimer => choice 17 []
  | .callProcedure i argc => choice 18 (uint16 i ++ uint16 argc)
  | .ret => choice 19 []

end Wire

namespace Reader

/-- Takes the index of an alternative. -/
def choice : Reader Nat := varint 15 5

/-- Takes a value. -/
def value : Reader Value := do
  match ← choice with
  | 0 => return .number ⟨← word⟩
  | 1 => return .text (← text)
  | 2 => return .bool (← bool)
  | _ => fail .badVariant

/-- Takes a shape. -/
def shape : Reader Shape := do
  match Shape.all[← choice]? with
  | some s => return s
  | none => fail .badVariant

/-- Takes a key. -/
def key : Reader VariantKey := do
  let proccode ← text
  let signature ← list shape
  let warp ← bool
  return ⟨proccode, signature, warp⟩

/-- Takes a kind of yield. -/
def yieldKind : Reader YieldKind := do
  match ← choice with
  | 0 => return .soft
  | 1 => return .frame
  | 2 => return .blocking
  | _ => fail .badVariant

/-- Takes the contents of the instruction of an index. -/
def instrContents : Nat → Reader Instr
  | 0 => do return .push (← value)
  | 1 => return .drop
  | 2 => do return .loadArg (← uint16)
  | 3 => do return .loadLocal (← uint16)
  | 4 => do return .storeLocal (← uint16)
  | 5 => do
    let i ← uint16
    let argc ← uint16
    return .callSupport i argc
  | 6 => do
    let i ← uint16
    let argc ← uint16
    return .callHost i argc
  | 7 => do
    let block ← uint32
    let opcode ← text
    let inputs ← list text
    return .escape block opcode inputs
  | 8 => do return .getVariable (← text)
  | 9 => do return .setVariable (← text)
  | 10 => do return .jump (← int32)
  | 11 => do return .jumpIfFalse (← int32)
  | 12 => do return .jumpIfTrue (← int32)
  | 13 => do
    let counter ← uint16
    let exit ← int32
    return .countdown counter exit
  | 14 => do return .yield (← yieldKind)
  | 15 => do
    let counter ← uint16
    let interval ← uint32
    return .checkDeadline counter interval
  | 16 => return .startTimer
  | 17 => return .waitTimer
  | 18 => do
    let i ← uint16
    let argc ← uint16
    return .callProcedure i argc
  | 19 => return .ret
  | _ => fail .badVariant

/-- Takes an instruction. -/
def instr : Reader Instr := do instrContents (← choice)

/-- Takes an image. -/
def image : Reader Image := do
  let name ← text
  let ops ← list instr
  let support ← list text
  let host ← list text
  let procedures ← list key
  let locals ← uint16
  let arity ← uint16
  let warp ← bool
  return { name, ops, support, host, procedures, locals, arity, warp }

end Reader

namespace Image

/-- The bytes of an image. -/
def encode (i : Image) : List UInt8 :=
  Wire.text i.name ++ Wire.list Wire.instr i.ops ++ Wire.list Wire.text i.support
    ++ Wire.list Wire.text i.host ++ Wire.list Wire.key i.procedures ++ Wire.uint16 i.locals
    ++ Wire.uint16 i.arity ++ Wire.bool i.warp

/-- The image at the front of a row of bytes. -/
def decode (bytes : List UInt8) : Except WireError Image := (Reader.image bytes).map Prod.fst

end Image

end BlockScript
