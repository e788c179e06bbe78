import BlockScript.Compiler.Basic

/-!
# Projects

A project has several targets, and threads of different targets can run the same script. What was
compiled for a script is kept with the script, whatever target the thread belongs to. What was
compiled for a variant is kept with the procedure, so each target keeps its own.
-/

namespace BlockScript

/-- The routine is kept for a script, not for a variant. -/
def ScriptRef.isScript : ScriptRef → Bool
  | script _ => true
  | «variant» _ => false

/-- Targets, scripts that run on them, and compilers. -/
structure Project where
  targets : List Target
  scripts : List Script
  compilers : List Compiler
  /-- What is kept with the scripts. -/
  shared : Cache := {}
  /-- What is kept with the procedures of each target. -/
  own : Nat → Cache := fun _ => {}

namespace Project

/-- All that is kept for threads of a target. -/
def cacheOf (q : Project) (target : Nat) : Cache :=
  ⟨q.shared.entries.filter (fun e => e.1.isScript)
    ++ (q.own target).entries.filter fun e => !e.1.isScript⟩

/-- The routine that is kept for a script, or for a variant of a procedure of the target. -/
def kept (q : Project) (target : Nat) (ref : ScriptRef) : Option Linked :=
  (q.cacheOf target).find? ref

/-- Puts together the program of a script on a target, with the settings of a compiler. -/
def generate (q : Project) (c : Compiler) (target script : Nat) :
    Option (Except GenerationError Program) := do
  let t ← q.targets[target]?
  let s ← q.scripts[script]?
  return (t.generate c.config s).outcome

/-- The project after a compiler has worked for a thread of a target. -/
def afterCompilation {α : Type} (q : Project) (compiler target : Nat) (r : Compilation α) :
    Project :=
  { q with
    compilers := q.compilers.set compiler r.compiler
    shared := r.cache
    own := fun t => if t = target then r.cache else q.own t }

/-- Compiles a thread of a target that runs a script. -/
def compile (q : Project) (compiler target script : Nat) :
    Option (Except CompilerError CompiledThread × Project) := do
  let c ← q.compilers[compiler]?
  match ← q.generate c target script with
  | .error e => return (.error (.generation e), q)
  | .ok p =>
    let r := c.compileProgram (q.cacheOf target) script p
    return (r.outcome, q.afterCompilation compiler target r)

end Project

end BlockScript
