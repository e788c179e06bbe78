import BlockScript.Compiler.Cache
import BlockScript.Machine.Frame
import BlockScript.Program
import BlockScript.Routine.Draft

/-!
# Compilers

A compiler turns a script into all that is needed to run it: its own routine and the variants that
it can reach, each taken from the cache or made anew. Routines go into the cache only when all of
them are there, so a failure leaves the cache as it was.
-/

namespace BlockScript

/-- Counts of what a compiler has done. -/
structure Stats where
  /-- Routines compiled. -/
  compiled : Nat := 0
  /-- Routines taken from the cache. -/
  hits : Nat := 0
  /-- Blocks left to the host in the routines compiled. -/
  escapes : Nat := 0
deriving DecidableEq

/-- A compiler: its settings, what its routines may do, and what it has done. -/
structure Compiler where
  config : CompilerConfig := {}
  limits : Limits := {}
  capabilities : Capabilities := .standard
  stats : Stats := {}

/-- Why a script could not be compiled. -/
inductive CompilerError where
  | generation (e : GenerationError)
  | compile (e : CompileError)
  | link (e : LinkError)
deriving DecidableEq

/-- The text of the error. -/
def CompilerError.message : CompilerError → String
  | generation e => e.message
  | compile e => e.message
  | link e => e.message

/-- All that is needed to run a thread. -/
structure CompiledThread where
  entry : Linked
  variants : VariantTable Linked
  limits : Limits

/-- What the machine needs to know of a compiled thread. -/
def CompiledThread.setting (t : CompiledThread) : Setting := ⟨t.variants, t.limits⟩

/-- The number of instructions that run a block by the host. -/
def Image.escapes (i : Image) : Nat := i.ops.countP Instr.isEscape

namespace Compiler

/-- Makes a routine anew: it is compiled, written as bytes, and loaded under the capabilities of the
compiler. -/
def build (c : Compiler) (p : Program) (r : Routine) (stats : Stats) :
    Except CompilerError Linked × Stats :=
  let stats := { stats with compiled := stats.compiled + 1 }
  match r.compile p c.config with
  | .error e => (.error (.compile e), stats)
  | .ok image =>
    let stats := { stats with escapes := stats.escapes + image.escapes }
    match Image.load image.name image.encode c.capabilities with
    | .error e => (.error (.link e), stats)
    | .ok linked => (.ok linked, stats)

/-- Takes a routine from the cache, or makes it anew. -/
def obtain (c : Compiler) (cache : Cache) (p : Program) (ref : ScriptRef) (r : Routine)
    (stats : Stats) : Except CompilerError Linked × Stats :=
  match cache.find? ref with
  | some linked => (.ok linked, { stats with hits := stats.hits + 1 })
  | none => c.build p r stats

/-- Obtains variants one after the other, up to the first error. -/
def obtainAll (c : Compiler) (cache : Cache) (p : Program) :
    List (VariantKey × Routine) → Stats → Except CompilerError (List (VariantKey × Linked)) × Stats
  | [], stats => (.ok [], stats)
  | (key, r) :: rest, stats =>
    match c.obtain cache p (.variant key) r stats with
    | (.error e, stats) => (.error e, stats)
    | (.ok linked, stats) =>
      match c.obtainAll cache p rest stats with
      | (.error e, stats) => (.error e, stats)
      | (.ok linkeds, stats) => (.ok ((key, linked) :: linkeds), stats)

/-- The compiler with new counts. -/
def withStats (c : Compiler) (stats : Stats) : Compiler := { c with stats := stats }

end Compiler

/-- What came of compiling: the result, and the compiler and the cache after it. -/
structure Compilation (α : Type) where
  outcome : Except CompilerError α
  compiler : Compiler
  cache : Cache

namespace Compiler

/-- Compiles a program whose entry is the script of a number: first the entry, then the variants in
the order of their keys. -/
def compileProgram (c : Compiler) (cache : Cache) (script : Nat) (p : Program) :
    Compilation CompiledThread :=
  match c.obtain cache p (.script script) p.entry c.stats with
  | (.error e, stats) => ⟨.error e, c.withStats stats, cache⟩
  | (.ok entry, stats) =>
    match c.obtainAll cache p p.procedures.entries stats with
    | (.error e, stats) => ⟨.error e, c.withStats stats, cache⟩
    | (.ok variants, stats) =>
      ⟨.ok ⟨entry, ⟨variants⟩, c.limits⟩, c.withStats stats,
        (cache.store (.script script) entry).storeVariants variants⟩

/-- Compiles one routine of a program, and keeps it. -/
def compileRoutine (c : Compiler) (cache : Cache) (p : Program) (ref : ScriptRef) (r : Routine) :
    Compilation Linked :=
  match c.obtain cache p ref r c.stats with
  | (.error e, stats) => ⟨.error e, c.withStats stats, cache⟩
  | (.ok linked, stats) => ⟨.ok linked, c.withStats stats, cache.store ref linked⟩

end Compiler

end BlockScript
