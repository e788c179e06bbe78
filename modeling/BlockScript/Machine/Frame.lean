import BlockScript.Image.Link
import BlockScript.Machine.Fault
import BlockScript.Machine.Host
import BlockScript.Variant.Table

/-!
# Frames

A frame is one activation of a routine: a position in its code, a stack of values, local slots,
arguments, and what it waits for. `Frame.exec` is the meaning of each instruction on the frame that
executes it.
-/

namespace BlockScript

/-- Bounds on a thread. -/
structure Limits where
  maxCallDepth : Nat := 1000
  maxSteps : Option Nat := none
  maxStackSize : Nat := 10000

/-- What stays the same while a thread runs: the variants it can call, and its limits. -/
structure Setting where
  variants : VariantTable Linked := {}
  limits : Limits := {}

/-- A timer that was started at a time for a duration. -/
structure Timer where
  start : Number
  duration : Number
deriving DecidableEq

/-- An activation of a routine. -/
structure Frame where
  routine : Linked
  pc : Nat := 0
  /-- The values computed so far, the latest at the end. -/
  stack : Array Value := #[]
  locals : Array Value
  args : List Value := []
  timer : Option Timer := none
  /-- The host call whose result the frame waits for. -/
  pending : Option PendingId := none

/-- What an instruction asks of the thread after its effect on the frame. -/
inductive Effect where
  /-- Goes on. -/
  | next
  /-- Goes on, unless the thread has been asked to stop. -/
  | nextUnlessStopped
  | suspend (kind : YieldKind)
  /-- Enters a routine. -/
  | enter (callee : Linked) (args : List Value)
  /-- Leaves the routine. -/
  | leave
  | fail (fault : Fault)

namespace Frame

/-- The activation of a routine at its beginning; all local slots hold zero. -/
def start (routine : Linked) (args : List Value) : Frame where
  routine := routine
  locals := Array.replicate routine.image.locals.toNat (.number Number.zero)
  args := args

/-- The frame with one more value on its stack. -/
def push (f : Frame) (v : Value) : Frame := { f with stack := f.stack.push v }

/-- The frame at its next instruction. -/
def advance (f : Frame) : Frame := { f with pc := f.pc + 1 }

/-- The fault of a stack with too few values. -/
def underflow (f : Frame) : Effect := .fail (.stackUnderflow f.routine.name f.pc)

/-- The frame with a value in a local slot. -/
def setLocal (f : Frame) (index : UInt16) (v : Value) : Frame :=
  { f with locals := f.locals.setIfInBounds index.toNat v }

/-- The fault of a local slot that does not exist. -/
def badLocal (f : Frame) (index : UInt16) : Effect :=
  .fail (.localOutside index.toNat f.routine.name f.pc)

variable {σ : Type}

/-- Goes on with the value on top of the stack and the frame without it. -/
def withValue (w : World σ) (f : Frame) (k : Value → Frame → Frame × World σ × Effect) :
    Frame × World σ × Effect :=
  match f.stack.back? with
  | none => (f, w, f.underflow)
  | some v => k v { f with stack := f.stack.pop }

/-- Goes on with the top `n` values of the stack, the latest last, and the frame without them. -/
def withValues (w : World σ) (f : Frame) (n : Nat)
    (k : List Value → Frame → Frame × World σ × Effect) : Frame × World σ × Effect :=
  if f.stack.size < n then (f, w, f.underflow)
  else
    let rest := f.stack.size - n
    let taken := (f.stack.extract rest f.stack.size).toList
    k taken { f with stack := f.stack.shrink rest }

/-- Goes on with the value of a local slot. -/
def withLocal (w : World σ) (f : Frame) (index : UInt16)
    (k : Value → Frame → Frame × World σ × Effect) : Frame × World σ × Effect :=
  match f.locals[index.toNat]? with
  | none => (f, w, f.badLocal index)
  | some v => k v f

/-- Goes on after a jump, which must stay inside the routine. -/
def jumpBy (w : World σ) (f : Frame) (offset : Int32) : Frame × World σ × Effect :=
  let target : Int := f.pc + offset.toInt
  if 0 ≤ target && target < f.routine.code.size then ({ f with pc := target.toNat }, w, .next)
  else (f, w, .fail (.jumpOutside f.pc offset.toInt target))

/-- Jumps if the truth value on top of the stack is `taken`. -/
def jumpIf (w : World σ) (f : Frame) (taken : Bool) (offset : Int32) :
    Frame × World σ × Effect :=
  f.withValue w fun
    | .bool b, f => if b = taken then f.jumpBy w offset else (f.advance, w, .next)
    | v, f => (f, w, .fail (.typeMismatch "boolean" v.kind))

/-- A round of a counted loop: the counter goes down by one, or if less than a half is left the loop
is left by a jump. -/
def countdown (w : World σ) (f : Frame) (counter : UInt16) (exit : Int32) :
    Frame × World σ × Effect :=
  f.withLocal w counter fun
    | .number n, f =>
      if Number.half.le n then ((f.setLocal counter (.number (n.sub 1))).advance, w, .next)
      else f.jumpBy w exit
    | v, f => (f, w, .fail (.typeMismatch "number" v.kind))

/-- Counts in a local slot, and each time that it has reached `interval` starts again from zero and
asks the host about the deadline. -/
def checkDeadline (h : Host σ) (w : World σ) (f : Frame) (counter : UInt16) (interval : UInt32) :
    Frame × World σ × Effect :=
  f.withLocal w counter fun v f =>
    let count := v.toNumber.add 1
    if (Number.ofNat interval.toNat).le count then
      let reply := h.deadlineElapsed w.host
      ((f.setLocal counter (.number Number.zero)).advance, w.after reply,
        if reply.answer then .suspend .soft else .next)
    else ((f.setLocal counter (.number count)).advance, w, .next)

/-- Waits until the timer has run out, if there is one. -/
def waitTimer (h : Host σ) (w : World σ) (f : Frame) : Frame × World σ × Effect :=
  match f.timer with
  | none => (f.advance, w, .next)
  | some t =>
    let reply := h.now w.host
    if (reply.answer.sub t.start).lt t.duration then (f, w.after reply, .suspend .blocking)
    else ({ f with timer := none }.advance, w.after reply, .next)

/-- Calls a host primitive. If its result comes later the frame stays at the call. -/
def callHost (h : Host σ) (w : World σ) (f : Frame) (name : String) (args : List Value) :
    Frame × World σ × Effect :=
  let reply := h.callPrimitive w.host name args
  match reply.answer with
  | .ready v => ((f.push v).advance, w.after reply, .nextUnlessStopped)
  | .pending id => ({ f with pending := some id }, w.after reply, .suspend .blocking)

/-- Calls a variant, unless too many frames are active; below this one there are `callers`. -/
def callProcedure (s : Setting) (callers : List Frame) (w : World σ) (f : Frame)
    (key : VariantKey) (argc : UInt16) : Frame × World σ × Effect :=
  match s.variants.find? key with
  | none => (f, w, .fail (.unknownVariant key.text))
  | some callee =>
    if s.limits.maxCallDepth ≤ callers.length + 1 then
      (f, w, .fail (.callDepthExceeded s.limits.maxCallDepth))
    else f.withValues w argc.toNat fun args f => (f.advance, w, .enter callee args)

/-- Executes an instruction in a frame, below which the frames `callers` are active. -/
def exec (h : Host σ) (s : Setting) (callers : List Frame) (w : World σ) (f : Frame) :
    Instr → Frame × World σ × Effect
  | .push v => ((f.push v).advance, w, .next)
  | .drop => f.withValue w fun _ f => (f.advance, w, .next)
  | .loadArg i =>
    match f.args[i.toNat]? with
    | none => (f, w, .fail (.argumentOutside i.toNat f.routine.name))
    | some v => ((f.push v).advance, w, .next)
  | .loadLocal i => f.withLocal w i fun v f => ((f.push v).advance, w, .next)
  | .storeLocal i => f.withValue w fun v f =>
    if i.toNat < f.locals.size then ((f.setLocal i v).advance, w, .next) else (f, w, f.badLocal i)
  | .callSupport i argc =>
    match f.routine.support[i.toNat]? with
    | none => (f, w, .fail (.supportUnlinked i.toNat))
    | some fn => f.withValues w argc.toNat fun args f =>
      ((f.push (fn.apply args)).advance, w, .next)
  | .callHost i argc =>
    match f.routine.image.host[i.toNat]? with
    | none => (f, w, .fail (.hostUnlinked i.toNat))
    | some name => f.withValues w argc.toNat fun args f => f.callHost h w name args
  | .escape block opcode inputs =>
    -- The number of values is a 16-bit number.
    f.withValues w (inputs.length % 65536) fun args f =>
      let reply := h.evaluate w.host block opcode (inputs.zip args)
      ((f.push reply.answer).advance, w.after reply, .nextUnlessStopped)
  | .getVariable name =>
    let reply := h.getVariable w.host name
    ((f.push reply.answer).advance, w.after reply, .next)
  | .setVariable name => f.withValue w fun v f =>
    (f.advance, w.after (h.setVariable w.host name v), .next)
  | .jump offset => f.jumpBy w offset
  | .jumpIfFalse offset => f.jumpIf w false offset
  | .jumpIfTrue offset => f.jumpIf w true offset
  | .countdown counter exit => f.countdown w counter exit
  | .yield kind => (f.advance, w, .suspend kind)
  | .checkDeadline counter interval => f.checkDeadline h w counter interval
  | .startTimer => f.withValue w fun v f =>
    let reply := h.now w.host
    ({ f with timer := some ⟨reply.answer, v.toNumber⟩ }.advance, w.after reply, .next)
  | .waitTimer => f.waitTimer h w
  | .callProcedure i argc =>
    match f.routine.image.procedures[i.toNat]? with
    | none => (f, w, .fail (.procedureUnlinked i.toNat))
    | some key => f.callProcedure s callers w key argc
  | .ret => (f, w, .leave)

end Frame

end BlockScript
