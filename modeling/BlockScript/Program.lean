import BlockScript.Routine.Lowering
import BlockScript.Variant.Queue

/-!
# Putting a program together

The program of a script is found by need: the script's own routine, the variants that it calls, the
variants that those call, and so on, each made once and in the order in which calls first name them.

A procedure of `n` parameters has at most `2 * 3 ^ n` variants, since a widened shape is one of
three, so the search ends after as many steps as all procedures of the target have variants
together.
-/

namespace BlockScript

/-- Why a script has no program. -/
inductive GenerationError where
  /-- The script has no blocks. -/
  | missingRoot (script : String)
  /-- A link leads to no block. -/
  | missingBlock (script : String) (id : BlockId)
  /-- A block is met a second time. -/
  | cycle (script : String) (id : BlockId)
deriving DecidableEq

namespace GenerationError

/-- The text of the error. -/
def message : GenerationError → String
  | missingRoot script => "generation error: '" ++ script ++ "' has no root block"
  | missingBlock script id =>
    "generation error: block " ++ BlockId.text id ++ " referenced from '" ++ script
      ++ "' does not exist"
  | cycle script id =>
    "generation error: block " ++ BlockId.text id ++ " reached twice in '" ++ script
      ++ "'\n  hint: a \x60next\x60 or input link points back into the same stack"

/-- The error of a walk in a routine. -/
def ofWalk (label : String) : WalkError → GenerationError
  | .missing id => missingBlock label id
  | .repeated id => cycle label id

end GenerationError

namespace Target

/-- The most variants that the procedures of a target can have. -/
def variantBound (t : Target) : Nat :=
  (t.procedures.map fun p => 2 * Nat.pow 3 p.params.length).foldr (· + ·) 0

/-- The routine of a stack of blocks in its surroundings. -/
def routineOf (s : Surroundings) (script : Script) (arguments : List Shape)
    (key : Option VariantKey) : Except GenerationError Routine :=
  match script.blocks.stackTrees s.target script.top with
  | .error e => .error (.ofWalk script.label e)
  | .ok trees => .ok ⟨script, arguments, key, s.statements trees⟩

/-- The routine of a script that runs by itself. -/
def entryRoutine (t : Target) (config : CompilerConfig) (script : Script) :
    Except GenerationError Routine :=
  match script.top with
  | none => .error (.missingRoot script.label)
  | some _ => routineOf ⟨t, config, script.warp, none⟩ script [] none

/-- The routine of a variant. -/
def variantRoutine (t : Target) (config : CompilerConfig) (r : VariantRequest) :
    Except GenerationError Routine :=
  routineOf ⟨t, config, r.key.warp, some (r.key, r.procedure)⟩
    (r.procedure.variantScript t.blocks r.key) r.key.signature (some r.key)

/-- Asks for the variants that a routine calls. -/
def requestCalls (t : Target) (q : VariantQueue) (r : Routine) : VariantQueue :=
  (Stmt.allCalls r.stack).foldl (fun q key =>
    match t.procedure? key.proccode with
    | some p => q.request ⟨key, p⟩
    | none => q) q

end Target

/-- What came of putting a program together: the program or an error, and the variants that were
begun on the way, in order. -/
structure Generation where
  outcome : Except GenerationError Program
  begun : List VariantKey

namespace Target

/-- Makes the variants that wait in the queue, and those that they call. -/
def makeVariants (t : Target) (config : CompilerConfig) (entry : Routine) :
    (steps : Nat) → VariantQueue → VariantTable Routine → List VariantKey → Generation
  | 0, _, made, begun => ⟨.ok ⟨entry, made⟩, begun⟩
  | steps + 1, queue, made, begun =>
    match queue.next? with
    | none => ⟨.ok ⟨entry, made⟩, begun⟩
    | some (request, queue) =>
      match t.variantRoutine config request with
      | .error e => ⟨.error e, begun ++ [request.key]⟩
      | .ok routine =>
        t.makeVariants config entry steps (t.requestCalls queue routine)
          (made.insert request.key routine) (begun ++ [request.key])

/-- Puts together the program of a script. -/
def generate (t : Target) (config : CompilerConfig) (script : Script) : Generation :=
  match t.entryRoutine config script with
  | .error e => ⟨.error e, []⟩
  | .ok entry =>
    t.makeVariants config entry (t.variantBound + 1) (t.requestCalls {} entry) {} []

end Target

end BlockScript
