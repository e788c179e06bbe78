import BlockScript.Routine.Stmt
import BlockScript.Script
import BlockScript.Variant.Table

/-!
# Routines and programs

A routine is what is compiled at a time: the statements of a script, or of one variant of a
procedure. A program is the routine that a thread starts with and all the variants it needs.
-/

namespace BlockScript

/-- The statements of a script or of a variant. -/
structure Routine where
  /-- The script that the statements come from. -/
  script : Script
  /-- The shapes of the arguments. -/
  arguments : List Shape := []
  /-- The variant, unless the routine is a script of its own. -/
  key : Option VariantKey := none
  stack : List Stmt

namespace Routine

/-- The name of the routine in messages. -/
def label (r : Routine) : String := r.script.label

/-- The routine runs in warp. -/
def warp (r : Routine) : Bool := r.script.warp

end Routine

/-- A routine to start with, and variants by their keys. -/
structure Program where
  entry : Routine
  procedures : VariantTable Routine

/-- All routines of a program, the entry first and the variants in the order of their keys. -/
def Program.routines (p : Program) : List Routine := p.entry :: p.procedures.values

end BlockScript
