import BlockScript.Machine.Frame

/-!
# Executions

One run of a thread. A run goes on in *steps*: each step executes instructions until the thread
gives way, ends, is stopped or fails, and the next step goes on at the same place. A *tick* is the
execution of one instruction, or one look for the result of a host call.

A step may execute any number of instructions, so it is given a bound on them; with enough of them
the outcome does not depend on the bound.
-/

namespace BlockScript

/-- How a step ends. -/
inductive Outcome where
  | yielded (kind : YieldKind)
  | finished
  | stopped
  | failed (e : RuntimeError)
deriving DecidableEq

/-- What a tick asks for. -/
inductive Flow where
  | next
  | suspend (kind : YieldKind)
  | finished
  | stopped
  | fail (fault : Fault)

/-- The state of a run. -/
structure Execution where
  /-- The active frames, the innermost first. -/
  frames : List Frame
  /-- The ticks so far. -/
  ticks : Nat := 0
  /-- The thread was stopped. -/
  stopped : Bool := false

namespace Execution

/-- A run of a routine from its beginning. -/
def start (routine : Linked) : Execution := { frames := [Frame.start routine []] }

/-- No frame is active. -/
def isFinished (e : Execution) : Bool := e.frames.isEmpty

/-- The number of active frames. -/
def depth (e : Execution) : Nat := e.frames.length

/-- The names of the active routines, the innermost first. -/
def callStack (e : Execution) : List String := e.frames.map fun f => f.routine.name

/-- The run, stopped for good. -/
def halt (e : Execution) : Execution := { e with frames := [], stopped := true }

/-- The fault of an innermost stack that is too high. -/
def stackFault? (limits : Limits) (e : Execution) : Option Fault :=
  match e.frames with
  | [] => none
  | f :: _ =>
    if limits.maxStackSize < f.stack.size then some (.stackLimitExceeded limits.maxStackSize)
    else none

/-- The fault of a run that has reached a limit: it has had all its ticks, or its innermost stack is
too high. -/
def limitFault? (limits : Limits) (e : Execution) : Option Fault :=
  match limits.maxSteps with
  | some max => if max < e.ticks then some (.stepLimitExceeded max) else e.stackFault? limits
  | none => e.stackFault? limits

variable {σ : Type}

/-- The flow after a host call that has come back. -/
def flowAfterCall (w : World σ) : Flow := if w.stop then .stopped else .next

/-- Looks for the result of the host call that the innermost frame waits for. -/
def pollFrame (h : Host σ) (w : World σ) (f : Frame) (callers : List Frame) (id : PendingId) :
    List Frame × World σ × Flow :=
  let reply := h.poll w.host id
  let w := w.after reply
  match reply.answer with
  | some v => (({ f with pending := none }.push v).advance :: callers, w, flowAfterCall w)
  | none => (f :: callers, w, .suspend .blocking)

/-- What the effect of an instruction of the innermost frame makes of all frames. -/
def applyEffect (w : World σ) (f : Frame) (callers : List Frame) :
    Effect → List Frame × World σ × Flow
  | .next => (f :: callers, w, .next)
  | .nextUnlessStopped => (f :: callers, w, flowAfterCall w)
  | .suspend kind => (f :: callers, w, .suspend kind)
  | .enter callee args => (Frame.start callee args :: f :: callers, w, .next)
  | .leave => (callers, w, if callers.isEmpty then .finished else .next)
  | .fail fault => (f :: callers, w, .fail fault)

/-- Executes one instruction of the innermost frame, or looks for the result that it waits for. -/
def dispatch (h : Host σ) (s : Setting) (w : World σ) :
    List Frame → List Frame × World σ × Flow
  | [] => ([], w, .finished)
  | f :: callers =>
    match f.pending with
    | some id => pollFrame h w f callers id
    | none =>
      match f.routine.code[f.pc]? with
      | none => (f :: callers, w, .fail (.pcOutside f.routine.name f.pc))
      | some op =>
        let (f, w, effect) := f.exec h s callers w op
        applyEffect w f callers effect

/-- One tick: the limits are looked at, and unless one is reached an instruction is executed. -/
def tick (h : Host σ) (s : Setting) (w : World σ) (e : Execution) : Execution × World σ × Flow :=
  let e := { e with ticks := e.ticks + 1 }
  match e.limitFault? s.limits with
  | some fault => (e, w, .fail fault)
  | none =>
    let (frames, w, flow) := dispatch h s w e.frames
    ({ e with frames := frames }, w, flow)

/-- Ticks until one of them ends the step, but at most `bound` times. -/
def run (h : Host σ) (s : Setting) :
    (bound : Nat) → World σ → Execution → Option (Outcome × World σ × Execution)
  | 0, _, _ => none
  | bound + 1, w, e =>
    match tick h s w e with
    | (e, w, .next) => run h s bound w e
    | (e, w, .suspend kind) => some (.yielded kind, w, e)
    | (e, w, .finished) => some (.finished, w, e)
    | (e, w, .stopped) => some (.stopped, w, e.halt)
    | (e, w, .fail fault) => some (.failed ⟨fault, e.callStack⟩, w, e)

/-- One step of a run, of at most `bound` ticks. A run that was stopped stays so, one that has ended
stays so, and a request to stop is met before anything else is done. -/
def step (h : Host σ) (s : Setting) (bound : Nat) (w : World σ) (e : Execution) :
    Option (Outcome × World σ × Execution) :=
  if e.stopped then some (.stopped, w, e)
  else if e.frames.isEmpty then some (.finished, w, e)
  else if w.stop then some (.stopped, w, e.halt)
  else run h s bound w e

end Execution

end BlockScript
