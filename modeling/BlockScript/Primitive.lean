import BlockScript.Shape

/-!
# Host primitives

The blocks that the host offers directly: statements with their input slots in the order of a call,
and reporters with the shape of their answer. A routine may call a primitive only if its
`Capabilities` name it.
-/

namespace BlockScript

/-- What a primitive is used for. -/
inductive PrimitiveKind where
  | statement
  | reporter (shape : Shape)
deriving DecidableEq

/-- A block that the host offers directly. -/
structure Primitive where
  opcode : String
  inputs : List String := []
  kind : PrimitiveKind := .statement

namespace Primitive

/-- Every primitive. A host may answer anything at all to the last one, so its shape is unknown. -/
def all : List Primitive :=
  [{ opcode := "motion_movesteps", inputs := ["STEPS"] },
   { opcode := "motion_turnright", inputs := ["DEGREES"] },
   { opcode := "motion_turnleft", inputs := ["DEGREES"] },
   { opcode := "motion_gotoxy", inputs := ["X", "Y"] },
   { opcode := "motion_changexby", inputs := ["DX"] },
   { opcode := "motion_setx", inputs := ["X"] },
   { opcode := "motion_changeyby", inputs := ["DY"] },
   { opcode := "motion_sety", inputs := ["Y"] },
   { opcode := "motion_pointindirection", inputs := ["DIRECTION"] },
   { opcode := "looks_show" },
   { opcode := "looks_hide" },
   { opcode := "looks_say", inputs := ["MESSAGE"] },
   { opcode := "looks_changesizeby", inputs := ["CHANGE"] },
   { opcode := "looks_setsizeto", inputs := ["SIZE"] },
   { opcode := "sensing_resettimer" },
   { opcode := "motion_xposition", kind := .reporter .number },
   { opcode := "motion_yposition", kind := .reporter .number },
   { opcode := "motion_direction", kind := .reporter .number },
   { opcode := "looks_size", kind := .reporter .number },
   { opcode := "sensing_timer", kind := .reporter .number },
   { opcode := "sensing_answer", kind := .reporter .text },
   { opcode := "sensing_mousedown", kind := .reporter .unknown }]

/-- The primitive of an operation code. -/
def ofOpcode? (opcode : String) : Option Primitive := all.find? fun p => p.opcode == opcode

end Primitive

/-- The names of the primitives that a routine may call. -/
structure Capabilities where
  allowed : List String := []

namespace Capabilities

/-- No primitive at all. -/
def none : Capabilities := ⟨[]⟩

/-- Every primitive. -/
def standard : Capabilities := ⟨Primitive.all.map Primitive.opcode⟩

/-- One more name. -/
def grant (c : Capabilities) (name : String) : Capabilities := ⟨name :: c.allowed⟩

/-- One name less. -/
def revoke (c : Capabilities) (name : String) : Capabilities := ⟨c.allowed.filter (· != name)⟩

/-- The name is among those allowed. -/
def allows (c : Capabilities) (name : String) : Bool := name ∈ c.allowed

end Capabilities

end BlockScript
