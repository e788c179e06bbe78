import BlockScript.Instr
import BlockScript.Variant.Key

/-!
# Images

The compiled form of a routine: its instructions, and the tables that their indices refer to.
-/

namespace BlockScript

/-- A compiled routine, not yet linked. -/
structure Image where
  name : String
  ops : List Instr := []
  /-- The names of the support functions that are called. -/
  support : List String := []
  /-- The names of the host primitives that are called. -/
  host : List String := []
  /-- The variants that are called. -/
  procedures : List VariantKey := []
  /-- The number of local slots. -/
  locals : UInt16 := 0
  /-- The number of arguments. -/
  arity : UInt16 := 0
  warp : Bool := false
deriving DecidableEq

/-- Equality of values inside instructions, by which a NaN differs from itself. -/
def Instr.same : Instr → Instr → Bool
  | .push v, .push w => v.same w
  | a, b => a == b

/-- Rows of instructions that are the same one by one. -/
def Instr.allSame : List Instr → List Instr → Bool
  | [], [] => true
  | a :: as, b :: bs => a.same b && allSame as bs
  | _, _ => false

/-- The images are the same, by which an image with a NaN inside differs from itself. -/
def Image.same (a b : Image) : Bool :=
  Instr.allSame a.ops b.ops && { a with ops := [] } == { b with ops := [] }

end BlockScript
