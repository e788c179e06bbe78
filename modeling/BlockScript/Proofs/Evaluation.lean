import BlockScript.Machine.Execution
import BlockScript.Machine.ScriptedHost
import BlockScript.Routine.Image

/-!
# What a program means

The meaning of a program without instructions, positions and stacks: its trees are evaluated
directly, one case for each kind of expression and statement.

A program may run for ever, and so may each loop, each wait and each chain of calls in it. Therefore
an evaluation is given a number, its *fuel*: it goes round a loop, asks for one result and goes down
a chain of calls so many times at most, and is then `exhausted`. What was done up to that point is
kept. A program whose evaluation is never exhausted with enough fuel ends; the others have a meaning
too, which is what all their evaluations do together.
-/

namespace BlockScript

/-! ## The outside -/

/-- The world outside of a thread: its host, and what happens there while the thread has given
way. -/
structure Outside (σ : Type) where
  host : Host σ
  resume : YieldKind → σ → σ

/-- What can be seen of a thread from the outside. -/
inductive Observation where
  | called (e : HostEvent)
  | gaveWay (kind : YieldKind)
deriving DecidableEq

/-- A reply, and what was seen before it with one more observation. -/
def Reply.noting {σ α : Type} (r : Reply σ α) (seen : List Observation) (e : HostEvent) :
    Reply (σ × List Observation) α :=
  ⟨r.answer, (r.host, seen ++ [.called e]), r.stop⟩

/-- The same host, with a list of the calls made to it. -/
def Host.recorded {σ : Type} (h : Host σ) : Host (σ × List Observation) where
  evaluate w block opcode inputs :=
    (h.evaluate w.1 block opcode inputs).noting w.2 (.escape block opcode inputs)
  callPrimitive w name args := (h.callPrimitive w.1 name args).noting w.2 (.primitive name args)
  poll w id := (h.poll w.1 id).noting w.2 (.poll id)
  getVariable w name := (h.getVariable w.1 name).noting w.2 (.get name)
  setVariable w name v := (h.setVariable w.1 name v).noting w.2 (.set name v)
  now w := (h.now w.1).noting w.2 .now
  deadlineElapsed w :=
    (h.deadlineElapsed w.1).noting w.2 (.deadline (h.deadlineElapsed w.1).answer)

/-- The same outside, with a list of all that was seen there. -/
def Outside.recorded {σ : Type} (o : Outside σ) : Outside (σ × List Observation) where
  host := o.host.recorded
  resume kind w := (o.resume kind w.1, w.2 ++ [.gaveWay kind])

/-! ## Evaluations -/

/-- Why an evaluation ends before its time. -/
inductive Exit where
  /-- The routine is left. -/
  | left
  /-- The fuel is used up. -/
  | exhausted
  /-- A variant is called that the program does not have. -/
  | missing (key : VariantKey)

/-- What changes the outside and has a result. -/
abbrev Evaluation (σ α : Type) := EStateM Exit σ α

namespace Outside

variable {σ α : Type}

/-- A call to the host. -/
def ask (call : σ → Reply σ α) : Evaluation σ α := fun w => .ok (call w).answer (call w).host

/-- The thread gives way. -/
def giveWay (o : Outside σ) (kind : YieldKind) : Evaluation σ Unit :=
  fun w => .ok () (o.resume kind w)

/-- The thread gives way, if it is to. -/
def giveWayIf (o : Outside σ) (b : Bool) (kind : YieldKind) : Evaluation σ Unit :=
  if b then o.giveWay kind else pure ()

/-- Asks for the result of a call until it has come. -/
def await (o : Outside σ) (id : PendingId) : (fuel : Nat) → Evaluation σ Value
  | 0 => throw .exhausted
  | fuel + 1 => do
    match ← ask (o.host.poll · id) with
    | some v => pure v
    | none =>
      o.giveWay .blocking
      o.await id fuel

/-- Calls a primitive, and waits for its result if that comes later. -/
def callPrimitive (o : Outside σ) (fuel : Nat) (name : String) (args : List Value) :
    Evaluation σ Value := do
  match ← ask (o.host.callPrimitive · name args) with
  | .ready v => pure v
  | .pending id =>
    o.giveWay .blocking
    o.await id fuel

/-- Looks at the clock until a duration has passed since a start. -/
def waitFor (o : Outside σ) (start duration : Number) : (fuel : Nat) → Evaluation σ Unit
  | 0 => throw .exhausted
  | fuel + 1 => do
    let time ← ask o.host.now
    if (time.sub start).lt duration then
      o.giveWay .blocking
      o.waitFor start duration fuel
    else pure ()

end Outside

/-- What the trees of a routine are evaluated with. -/
structure Context (σ : Type) where
  outside : Outside σ
  fuel : Nat
  settings : CodeSettings
  /-- The arguments of the routine. -/
  args : List Value
  /-- What a call of a variant does. -/
  call : VariantKey → List Value → Evaluation σ Unit

variable {σ : Type}

/-! ## Expressions -/

namespace Expr

mutual

/-- The value of an expression: its operands are evaluated from left to right, each once. -/
def eval (x : Context σ) : Expr → Evaluation σ Value
  | .const v => pure v
  | .arg index _ => pure (x.args[index.toNat]?.getD .empty)
  | .var name => Outside.ask (x.outside.host.getVariable · name)
  | .unary op operand => do
    let v ← operand.eval x
    pure (op.support.apply [v])
  | .binary op left right => do
    let v ← left.eval x
    let w ← right.eval x
    pure (op.support.apply [v, w])
  | .host opcode args _ => do
    let vs ← evalAll x args
    x.outside.callPrimitive x.fuel opcode vs
  | .escape block opcode inputs => do
    let vs ← evalInputs x inputs
    Outside.ask (x.outside.host.evaluate · block opcode vs)

/-- The values of expressions, one after the other. -/
def evalAll (x : Context σ) : List Expr → Evaluation σ (List Value)
  | [] => pure []
  | e :: es => do
    let v ← e.eval x
    let vs ← evalAll x es
    pure (v :: vs)

/-- The values of named expressions, one after the other. -/
def evalInputs (x : Context σ) : List (String × Expr) → Evaluation σ (List (String × Value))
  | [] => pure []
  | (name, e) :: es => do
    let v ← e.eval x
    let vs ← evalInputs x es
    pure ((name, v) :: vs)

end

/-- The truth value of an expression. -/
def holds (x : Context σ) (e : Expr) : Evaluation σ Bool := do
  let v ← e.eval x
  pure v.toBool

end Expr

/-! ## Statements -/

namespace LoopKind

/-- The number of rounds that a counted loop begins with. -/
def count (x : Context σ) : LoopKind → Evaluation σ Number
  | .times e => do
    let v ← e.eval x
    pure v.toNumber.round
  | _ => pure Number.zero

/-- The test before a round, when `left` rounds are left of a counted loop: `none` if the loop is
left, otherwise the number of rounds after this one. -/
def test (x : Context σ) (left : Number) : LoopKind → Evaluation σ (Option Number)
  | .times _ => pure (if Number.half.le left then some (left.sub 1) else none)
  | .forever => pure (some left)
  | .until c | .waitUntil c => do
    let b ← c.holds x
    pure (if b then none else some left)
  | .while c => do
    let b ← c.holds x
    pure (if b then some left else none)

end LoopKind

/-- The end of a round, the `count`-th since the deadline was last looked at: the thread gives way,
or in warp looks at the deadline once in `interval` rounds, and gives way if it has passed. The
result is the new count. -/
def Context.endRound (x : Context σ) (warpSafe : Bool) (interval : UInt32) (count : Number) :
    Evaluation σ Number :=
  if x.settings.runsWarp warpSafe then
    if x.settings.timer then
      if (Number.ofNat (max interval 1).toNat).le (count.add 1) then do
        let elapsed ← Outside.ask x.outside.host.deadlineElapsed
        x.outside.giveWayIf elapsed .soft
        pure Number.zero
      else pure (count.add 1)
    else pure count
  else do
    x.outside.giveWay .soft
    pure count

/-- The rounds of a loop, of which `left` are left if it is counted, and of which `count` were made
since the deadline was last looked at. -/
def Evaluation.rounds (test : Number → Evaluation σ (Option Number)) (body : Evaluation σ Unit)
    (endRound : Number → Evaluation σ Number) :
    (fuel : Nat) → (left count : Number) → Evaluation σ Unit
  | 0, _, _ => throw .exhausted
  | fuel + 1, left, count => do
    match ← test left with
    | none => pure ()
    | some left =>
      body
      let count ← endRound count
      rounds test body endRound fuel left count

namespace Stmt

mutual

/-- What a statement does. -/
def eval (x : Context σ) : Stmt → Evaluation σ Unit
  | .branch condition yes no => do
    let b ← condition.holds x
    if b then evalAll x yes else evalAll x no
  | .loop kind body warpSafe interval => do
    let left ← kind.count x
    Evaluation.rounds (fun left => kind.test x left) (evalAll x body) (x.endRound warpSafe interval)
      x.fuel left Number.zero
  | .call key args yieldFirst => do
    x.outside.giveWayIf yieldFirst .soft
    let vs ← Expr.evalAll x args
    x.call key vs
  | .set name e => do
    let v ← e.eval x
    Outside.ask (x.outside.host.setVariable · name v)
  | .change name e => do
    let old ← Outside.ask (x.outside.host.getVariable · name)
    let delta ← e.eval x
    Outside.ask (x.outside.host.setVariable · name (Support.add.apply [old, delta]))
  | .wait e => do
    let v ← e.eval x
    let start ← Outside.ask x.outside.host.now
    x.outside.giveWay .frame
    x.outside.waitFor start (Support.waitDuration.apply [v]).toNumber x.fuel
  | .host opcode args => do
    let vs ← Expr.evalAll x args
    let _ ← x.outside.callPrimitive x.fuel opcode vs
  | .done => throw .left
  | .escape block opcode inputs => do
    let vs ← Expr.evalInputs x inputs
    let _ ← Outside.ask (x.outside.host.evaluate · block opcode vs)

/-- What statements do, one after the other. -/
def evalAll (x : Context σ) : List Stmt → Evaluation σ Unit
  | [] => pure ()
  | s :: ss => do
    s.eval x
    evalAll x ss

end

end Stmt

/-! ## Routines and programs -/

/-- An evaluation that goes on after the routine in it has been left. -/
def Evaluation.leaving (e : Evaluation σ Unit) : Evaluation σ Unit := fun w =>
  match e w with
  | .error .left w => .ok () w
  | result => result

namespace Program

/-- What a routine of a program does with arguments. -/
def perform (p : Program) (o : Outside σ) (config : CompilerConfig) :
    (fuel : Nat) → Routine → List Value → Evaluation σ Unit
  | 0, _, _ => throw .exhausted
  | fuel + 1, r, args =>
    let call := fun key vs =>
      match p.procedures.find? key with
      | some callee => p.perform o config fuel callee vs
      | none => throw (.missing key)
    (Stmt.evalAll ⟨o, fuel + 1, r.settings config, args, call⟩ r.stack).leaving

end Program

/-- What was seen of a run, and how it ended if it has. -/
structure Report where
  seen : List Observation
  outcome : Option Outcome

/-- What is seen of a program that is evaluated with some fuel, from a state of the outside. -/
def Program.report (p : Program) (o : Outside σ) (config : CompilerConfig) (w : σ) (fuel : Nat) :
    Report :=
  match p.perform o.recorded config fuel p.entry [] (w, []) with
  | .ok _ w => ⟨w.2, some .finished⟩
  | .error (.missing key) w => ⟨w.2, some (.failed ⟨.unknownVariant key.text, []⟩)⟩
  | .error _ w => ⟨w.2, none⟩

end BlockScript
