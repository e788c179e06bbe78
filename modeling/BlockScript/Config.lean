/-!
# Settings of the compiler
-/

namespace BlockScript

/-- Settings of the compiler. -/
structure CompilerConfig where
  /-- A loop in warp looks at the deadline once in so many rounds. -/
  deadlineCheckInterval : UInt32 := 16
  /-- Loops in warp look at the deadline at all. -/
  warpTimer : Bool := true

/-- Sets the interval between two looks at the deadline, which is at least one round. -/
def CompilerConfig.withInterval (c : CompilerConfig) (interval : UInt32) : CompilerConfig :=
  { c with deadlineCheckInterval := max interval 1 }

end BlockScript
