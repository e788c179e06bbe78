import BlockScript.Block
import BlockScript.Variant.Key

/-!
# Scripts and procedures

A script is a stack of blocks that runs by itself. A procedure is a stack that other blocks call
with arguments; each of its variants has a script of its own. A `Target` holds the procedures that
the scripts of one sprite can see.
-/

namespace BlockScript

/-- A stack of blocks with a root. -/
structure Script where
  label : String
  blocks : Arena
  top : Option BlockId
  /-- The script runs without giving way inside loops. -/
  warp : Bool := false

/-- The number of a block as messages show it. -/
def BlockId.text (id : BlockId) : String := "#" ++ Nat.repr id.toNat

/-- The label of a script that has none of its own. -/
def Script.defaultLabel : Option BlockId → String
  | some id => "script " ++ BlockId.text id
  | none => "script <empty>"

/-- How a parameter is declared. -/
inductive ParamKind where
  | textOrNumber
  | boolean
deriving DecidableEq

/-- The value of an argument that a call leaves out. -/
def ParamKind.default : ParamKind → Value
  | textOrNumber => .text ""
  | boolean => .bool false

/-- A parameter of a procedure. -/
structure Param where
  /-- The input slot of call blocks that holds the argument. -/
  id : String
  /-- The name by which reporters in the body ask for the argument. -/
  name : String
  kind : ParamKind

/-- A procedure. -/
structure Procedure where
  proccode : String
  params : List Param := []
  /-- All variants of the procedure run in warp. -/
  warp : Bool := false
  /-- The first block of the body. -/
  body : Option BlockId := none

namespace Procedure

/-- The position of the first parameter of a name. -/
def paramIndex? (p : Procedure) (name : String) : Option Nat :=
  p.params.findIdx? fun q => q.name == name

/-- The script of one variant. -/
def variantScript (p : Procedure) (blocks : Arena) (key : VariantKey) : Script :=
  { label := key.text, blocks := blocks, top := p.body, warp := key.warp }

end Procedure

/-- The variants that have been asked for, in the order of first request. -/
structure VariantRegister where
  keys : List VariantKey := []

namespace VariantRegister

/-- Asks for a variant. -/
def request (r : VariantRegister) (k : VariantKey) : VariantRegister :=
  if k ∈ r.keys then r else ⟨r.keys ++ [k]⟩

/-- The number of variants of a procedure that have been asked for. -/
def countOf (r : VariantRegister) (proccode : String) : Nat :=
  r.keys.countP fun k => k.proccode == proccode

end VariantRegister

/-- A sprite: an arena and the procedures defined in it. -/
structure Target where
  blocks : Arena := {}
  procedures : List Procedure := []

namespace Target

/-- Defines a procedure, in place of an earlier one with the same code. -/
def define (t : Target) (p : Procedure) : Target :=
  { t with procedures := t.procedures.filter (fun q => q.proccode != p.proccode) ++ [p] }

/-- The procedure of a code. -/
def procedure? (t : Target) (proccode : String) : Option Procedure :=
  t.procedures.find? fun p => p.proccode == proccode

end Target

end BlockScript
