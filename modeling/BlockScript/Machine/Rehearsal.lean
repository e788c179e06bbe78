import BlockScript.Machine.Execution
import BlockScript.Machine.ScriptedHost

/-!
# Rehearsals

Runs of executions against a scripted host, by single steps or up to a number of yields.
-/

namespace BlockScript

/-- An execution and what stays the same while it runs. -/
structure Rehearsal where
  setting : Setting
  execution : Execution

/-- How a row of steps ends. -/
inductive RunOutcome where
  | step (o : Outcome)
  /-- There were as many yields as allowed. -/
  | limit
  /-- A step did not end within the bound on its ticks. -/
  | unbounded

namespace Rehearsal

/-- One step of at most `bound` ticks. -/
def step (bound : Nat) (w : World ScriptedHost) (r : Rehearsal) :
    RunOutcome × World ScriptedHost × Rehearsal :=
  match r.execution.step ScriptedHost.host r.setting bound w with
  | none => (.unbounded, w, r)
  | some (o, w, e) => (.step o, w, { r with execution := e })

/-- The world at the beginning of the next frame. -/
def nextFrame (w : World ScriptedHost) : World ScriptedHost :=
  { w with host := w.host.advance w.host.frameTime }

/-- Steps until one does not yield, but at most `yields` times; each yield ends a frame. The kinds
of the yields are returned in order. -/
def run (bound : Nat) :
    (yields : Nat) → World ScriptedHost → Rehearsal →
      RunOutcome × List YieldKind × World ScriptedHost × Rehearsal
  | 0, w, r => (.limit, [], w, r)
  | yields + 1, w, r =>
    match r.step bound w with
    | (.step (.yielded kind), w, r) =>
      let (o, kinds, w, r) := run bound yields (nextFrame w) r
      (o, kind :: kinds, w, r)
    | (o, w, r) => (o, [], w, r)

end Rehearsal

end BlockScript
