import BlockScript.Compiler.Basic
import BlockScript.Machine.Rehearsal

/-!
# Sessions

A target with its scripts, compilers that share one cache, threads, and executions that take turns
on one scripted host.
-/

namespace BlockScript

/-- A thread of a script. -/
structure ThreadState where
  /-- The number of the script. -/
  script : Nat
  /-- The thread has been asked to stop. -/
  stop : Bool := false

/-- An execution and the number of the thread it belongs to. -/
structure ThreadRun where
  thread : Nat
  rehearsal : Rehearsal

/-- The state of a session. -/
structure Session where
  target : Target
  scripts : List Script
  compilers : List Compiler
  host : ScriptedHost
  cache : Cache := {}
  register : VariantRegister := {}
  threads : List ThreadState := []
  /-- The results of compiling threads, failures included. -/
  compiled : List (Option CompiledThread) := []
  runs : List ThreadRun := []

namespace Session

/-- Begins a thread of a script. -/
def newThread (s : Session) (script : Nat) : Session :=
  { s with threads := s.threads ++ [{ script := script }] }

/-- The script of a thread, with its number. -/
def scriptOf? (s : Session) (thread : Nat) : Option (Nat × Script) :=
  s.threads[thread]?.bind fun t => s.scripts[t.script]?.map fun script => (t.script, script)

/-- Puts together the program of a script with the settings of a compiler. The variants begun are
registered, whatever comes of it. -/
def generate (s : Session) (c : Compiler) (script : Script) :
    Except CompilerError Program × Session :=
  let g := s.target.generate c.config script
  let s := { s with register := g.begun.foldl VariantRegister.request s.register }
  (g.outcome.mapError .generation, s)

/-- The session after a compiler has worked. -/
def afterCompilation {α : Type} (s : Session) (compiler : Nat) (r : Compilation α) : Session :=
  { s with compilers := s.compilers.set compiler r.compiler, cache := r.cache }

/-- Compiles the program of a thread's script. -/
def compileScript (s : Session) (compiler : Nat) (c : Compiler) (number : Nat) (script : Script) :
    Except CompilerError CompiledThread × Session :=
  match s.generate c script with
  | (.error e, s) => (.error e, s)
  | (.ok p, s) =>
    let r := c.compileProgram s.cache number p
    (r.outcome, s.afterCompilation compiler r)

/-- Compiles a thread, and keeps the result whatever it is. -/
def compile (s : Session) (compiler thread : Nat) :
    Option (Except CompilerError CompiledThread × Session) := do
  let c ← s.compilers[compiler]?
  let (number, script) ← s.scriptOf? thread
  let (outcome, s) := s.compileScript compiler c number script
  return (outcome, { s with compiled := s.compiled ++ [outcome.toOption] })

/-- A routine of the program of a thread's script: the entry, or one of the variants in the order of
their keys. -/
def pickRoutine (p : Program) (number : Nat) : Option Nat → Option (ScriptRef × Routine)
  | none => some (.script number, p.entry)
  | some k => p.procedures.entries[k]?.map fun (key, r) => (.variant key, r)

/-- Compiles one routine of a thread by itself. -/
def compileOne (s : Session) (compiler thread : Nat) (variant : Option Nat) :
    Option (Except CompilerError (Option (ScriptRef × Linked)) × Session) := do
  let c ← s.compilers[compiler]?
  let (number, script) ← s.scriptOf? thread
  match s.generate c script with
  | (.error e, s) => return (.error e, s)
  | (.ok p, s) =>
    match pickRoutine p number variant with
    | none => return (.ok none, s)
    | some (ref, routine) =>
      let r := c.compileRoutine s.cache p ref routine
      return (r.outcome.map fun l => some (ref, l), s.afterCompilation compiler r)

/-- Starts an execution of a compiled thread for a thread. -/
def start? (s : Session) (compiled thread : Nat) : Option Session := do
  let t ← (← s.compiled[compiled]?)
  return { s with runs := s.runs ++ [⟨thread, ⟨t.setting, .start t.entry⟩⟩] }

/-- The world as an execution sees it. -/
def worldOf (s : Session) (thread : Nat) : World ScriptedHost :=
  ⟨s.host, (s.threads[thread]?.map ThreadState.stop).getD false⟩

/-- The session after an execution has run. -/
def afterRun (s : Session) (index : Nat) (run : ThreadRun) (w : World ScriptedHost)
    (r : Rehearsal) : Session :=
  { s with
    host := w.host
    threads := s.threads.modify run.thread fun t => { t with stop := w.stop }
    runs := s.runs.set index { run with rehearsal := r } }

/-- One step of an execution. -/
def step? (s : Session) (bound index : Nat) : Option (RunOutcome × Session) := do
  let run ← s.runs[index]?
  let (o, w, r) := run.rehearsal.step bound (s.worldOf run.thread)
  return (o, s.afterRun index run w r)

/-- Steps of an execution, up to a number of yields. -/
def run? (s : Session) (bound index yields : Nat) :
    Option (RunOutcome × List YieldKind × Session) := do
  let run ← s.runs[index]?
  let (o, kinds, w, r) := run.rehearsal.run bound yields (s.worldOf run.thread)
  return (o, kinds, s.afterRun index run w r)

/-- Asks a thread to stop. -/
def requestStop (s : Session) (thread : Nat) : Session :=
  { s with threads := s.threads.modify thread fun t => { t with stop := true } }

/-- The number of variants of a procedure that have been begun, if the procedure is defined. -/
def variantCount? (s : Session) (proccode : String) : Option Nat :=
  (s.target.procedure? proccode).map fun _ => s.register.countOf proccode

end Session

end BlockScript
