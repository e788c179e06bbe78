import BlockScript.Image.Verify

/-!
# Faults

What can go wrong while a routine runs, and the error that reports it along with the routines that
were active.
-/

namespace BlockScript

/-- What went wrong. -/
inductive Fault where
  | stackUnderflow (routine : String) (pc : Nat)
  | typeMismatch (expected found : String)
  | callDepthExceeded (limit : Nat)
  | stackLimitExceeded (limit : Nat)
  | stepLimitExceeded (limit : Nat)
  /-- A call of a variant that is not in the table. -/
  | unknownVariant (key : String)
  | pcOutside (routine : String) (pc : Nat)
  | argumentOutside (index : Nat) (routine : String)
  | localOutside (index : Nat) (routine : String) (pc : Nat)
  | jumpOutside (pc : Nat) (offset target : Int)
  | supportUnlinked (index : Nat)
  | hostUnlinked (index : Nat)
  | procedureUnlinked (index : Nat)
deriving DecidableEq

namespace Fault

/-- The text of the fault. -/
def message : Fault → String
  | stackUnderflow routine pc => "stack underflow in '" ++ routine ++ "' at pc=" ++ Nat.repr pc
  | typeMismatch expected found => "type error: expected " ++ expected ++ ", got " ++ found
  | callDepthExceeded limit => "maximum call depth exceeded (" ++ Nat.repr limit ++ ")"
  | stackLimitExceeded limit => "stack size limit exceeded (" ++ Nat.repr limit ++ ")"
  | stepLimitExceeded limit => "execution step limit exceeded (" ++ Nat.repr limit ++ ")"
  | unknownVariant key => "procedure variant " ++ key ++ " was never compiled"
  | pcOutside routine pc => "pc=" ++ Nat.repr pc ++ " out of range in '" ++ routine ++ "'"
  | argumentOutside index routine =>
    "argument " ++ Nat.repr index ++ " out of range in '" ++ routine ++ "'"
  | localOutside index routine pc =>
    "local " ++ Nat.repr index ++ " out of range in '" ++ routine ++ "' at pc=" ++ Nat.repr pc
  | jumpOutside pc offset target =>
    "jump out of bounds: pc=" ++ Nat.repr pc ++ ", offset=" ++ intText offset ++ ", target="
      ++ intText target
  | supportUnlinked index => "support import " ++ Nat.repr index ++ " is not linked"
  | hostUnlinked index => "host import " ++ Nat.repr index ++ " is not linked"
  | procedureUnlinked index => "procedure " ++ Nat.repr index ++ " is not linked"

end Fault

/-- A fault, and the names of the active routines, the innermost first. -/
structure RuntimeError where
  fault : Fault
  callStack : List String := []
deriving DecidableEq

namespace RuntimeError

/-- The lines that name the active routines. -/
def stackText (names : List String) : String :=
  if names.isEmpty then ""
  else "\n  call stack:" ++
    String.join (names.zipIdx.map fun (name, i) => "\n    " ++ Nat.repr i ++ ": " ++ name)

/-- The text of the error. -/
def message (e : RuntimeError) : String :=
  "runtime error: " ++ e.fault.message ++ stackText e.callStack

end RuntimeError

end BlockScript
