import BlockScript.Routine.Code
import BlockScript.Routine.Draft

/-!
# The image of a routine

What comes of compiling a routine can be told without writing it down: the routine has an image if
all its demands can be met, which is to say that every variant that it calls is part of the program,
no index outgrows its 16 bits, and no offset its 32 bits. The first demand that cannot be met is the
error.
-/

namespace BlockScript

/-- The error of a demand that cannot be met, in a routine of a name that belongs to a program. The
number of local slots is itself a 16-bit number, so the last index is not used. Offsets have a sign.
Support functions are few, and there are always enough indices for them. -/
def Demand.failure? (routine : String) (p : Program) (i : Imports) : Demand → Option CompileError
  | .support _ => none
  | .host opcode =>
    if i.host.idxOf opcode < 65536 then none else some (.tooMany "host imports" routine)
  | .variant key =>
    if (p.procedures.find? key).isSome then none else some (.missingVariant routine key.text)
  | .procedure key =>
    if i.procedures.idxOf key < 65536 then none else some (.tooMany "procedures" routine)
  | .arguments count => if count < 65536 then none else some (.tooMany "call arguments" routine)
  | .slot index => if index < 65535 then none else some (.tooMany "locals" routine)
  | .forward distance =>
    if distance < 2147483648 then none else some (.tooMany "instructions" routine)
  | .backward distance =>
    if distance ≤ 2147483648 then none else some (.tooMany "instructions" routine)

namespace Routine

/-- The settings that the code of the routine is made with. -/
def settings (r : Routine) (config : CompilerConfig) : CodeSettings := ⟨r.warp, config.warpTimer⟩

/-- The demands of the routine. -/
def demands (r : Routine) (config : CompilerConfig) : List Demand :=
  Stmt.allDemands (r.settings config) 0 r.stack

/-- The import tables of the routine. -/
def imports (r : Routine) (config : CompilerConfig) : Imports := .ofDemands (r.demands config)

/-- The code of the routine. -/
def code (r : Routine) (config : CompilerConfig) : List Instr :=
  Stmt.allCode (r.settings config) (r.imports config) 0 r.stack ++ [.ret]

/-- The image of the routine, if its demands are met. -/
def image (r : Routine) (config : CompilerConfig) : Image where
  name := r.label
  ops := r.code config
  support := (r.imports config).support.map Support.name
  host := (r.imports config).host
  procedures := (r.imports config).procedures
  locals := UInt16.ofNat (Stmt.allSlots (r.settings config) r.stack)
  arity := UInt16.ofNat r.arguments.length
  warp := r.warp

/-- The first reason for which the routine has no image. -/
def compileError? (r : Routine) (p : Program) (config : CompilerConfig) : Option CompileError :=
  if 65536 ≤ r.arguments.length then some (.tooMany "arguments" r.label)
  else (r.demands config).findSome? (Demand.failure? r.label p (r.imports config))

end Routine

end BlockScript
