import BlockScript.Proofs.Effects
import BlockScript.Proofs.Histories

/-!
# Limits are hard bounds

The limits of a thread are looked at in three places: the number of ticks and the height of the
innermost stack before each tick, and the number of frames where a variant is called. None of the
other stacks is looked at, and a step that has failed is followed by another one, which counts its
ticks on.

That is enough, since a stack grows by one value at a time (`Frame.stackUpTo_exec`), only while it
is the innermost one, and a thread that calls a variant keeps its own stack as it is then. So all
stacks stay below the height at which their frame is stopped (`Execution.Within.dispatch`). Each
tick that is not stopped by a limit makes one call to the host at most, and the ticks of all steps
are counted together (`Execution.Spent.run`).

Main statement: `Execution.spent_of_runs`.
-/

namespace BlockScript

variable {σ : Type}

/-! ## Frames -/

namespace Frame

variable {h : Host σ} {w : World σ} {f : Frame}

theorem Faults.size_le {s : Setting} {callers : List Frame} {op : Instr} {stack : Array Value}
    {fault : Fault} (hfault : f.Faults s callers op stack fault) : stack.size ≤ f.stack.size := by
  cases hfault with
  | slot _ _ hstack | jump _ _ hstack | condition _ hstack => exact size_le_of_append hstack
  | _ => exact Nat.le_refl _

/-- The instruction leaves a stack of at most `n` values. -/
def StackUpTo (n : Nat) (r : Frame × World σ × Effect) : Prop := r.1.stack.size ≤ n

/-- **An instruction leaves one value more at most**, also if it fails. -/
theorem stackUpTo_exec (f : Frame) (s : Setting) (callers : List Frame) (op : Instr) :
    StackUpTo (f.stack.size + 1) (f.exec h s callers w op) := by
  have hpush : ∀ {rest vs : List Value} (v : Value), f.stack.toList = rest ++ vs →
      (rest.toArray.push v).size ≤ f.stack.size + 1 := by
    intro rest vs v hstack
    rw [Array.size_push]
    exact Nat.succ_le_succ (size_le_of_append hstack)
  obtain ⟨action, hacts, hexec⟩ := f.exists_acts s callers op
  rw [hexec]
  cases hacts with
  | fails hfault => exact Nat.le_succ_of_le hfault.size_le
  | computes hstack | evaluates hstack => exact hpush _ hstack
  | calls _ hstack =>
    simp only [Action.perform, callHost]
    split
    · exact hpush _ hstack
    · exact Nat.le_succ_of_le (size_le_of_append hstack)
  | gets => exact Nat.le_of_eq (Array.size_push _)
  | drops hstack | stores hstack | jumps hstack | passes hstack | starts hstack | sets hstack
  | enters _ _ _ hstack => exact Nat.le_succ_of_le (size_le_of_append hstack)
  | waits =>
    simp only [Action.perform]
    split <;> exact Nat.le_succ _
  | counts | early | asks | yields | idles | leaves => exact Nat.le_succ _

/-- A variant is called only where there is room for one more frame. -/
theorem Executes.length_lt {s : Setting} {callers : List Frame} {op : Instr} {f' : Frame}
    {callee : Linked} {args : List Value}
    (hexec : f.Executes h s callers w op f' (.enter callee args)) :
    callers.length + 1 < s.limits.maxCallDepth := by
  cases hexec with
  | moves _ _ _ heffect => rcases heffect with heffect | heffect <;> cases heffect
  | asks _ _ _ _ heffect => split at heffect <;> cases heffect
  | enters _ _ _ _ hroom => exact hroom

end Frame

/-! ## Ticks -/

namespace Execution

variable {h : Host σ} {s : Setting} {w : World σ} {f : Frame} {frames callers : List Frame}

/-- There are at most as many frames as may be, and at least one is always allowed. No stack is
higher than it is when its frame is stopped. -/
structure Within (limits : Limits) (frames : List Frame) : Prop where
  depth : frames.length ≤ max 1 limits.maxCallDepth
  heights : ∀ f ∈ frames, f.stack.size ≤ limits.maxStackSize + 1

/-- The innermost frame is another one. -/
theorem Within.replace {limits : Limits} {f' : Frame} (hin : Within limits (f :: callers))
    (hf' : f'.stack.size ≤ limits.maxStackSize + 1) : Within limits (f' :: callers) :=
  ⟨hin.depth, List.forall_mem_cons.mpr ⟨hf', (List.forall_mem_cons.mp hin.heights).2⟩⟩

theorem Within.tail {limits : Limits} (hin : Within limits (f :: callers)) :
    Within limits callers := by
  refine ⟨?_, (List.forall_mem_cons.mp hin.heights).2⟩
  have hdepth := hin.depth
  rw [List.length_cons] at hdepth
  omega

/-- **A tick keeps to the limits**, if the innermost stack is not too high before it. -/
theorem Within.dispatch (hin : Within s.limits frames) (hfits : Fits s.limits frames) :
    Within s.limits (dispatch h s w frames).1 := by
  cases frames with
  | nil => exact hin
  | cons f callers =>
    have hsize : f.stack.size ≤ s.limits.maxStackSize := fits_cons_iff.mp hfits
    cases hpending : f.pending with
    | some id =>
      simp only [Execution.dispatch, hpending, pollFrame]
      split
      · refine hin.replace ?_
        simp only [Frame.advance, Frame.push, Array.size_push]
        omega
      · exact hin
    | none =>
      simp only [Execution.dispatch, hpending]
      split
      · exact hin
      · next op _ =>
        have hstack := f.stackUpTo_exec (h := h) (w := w) s callers op
        have hexec := f.executes_exec h s callers w op
        generalize f.exec h s callers w op = r at hstack hexec
        obtain ⟨f', w', effect⟩ := r
        have hf' : f'.stack.size ≤ s.limits.maxStackSize + 1 :=
          Nat.le_trans hstack (Nat.succ_le_succ hsize)
        cases effect with
        | next | nextUnlessStopped | suspend | fail => exact hin.replace hf'
        | leave => exact hin.tail
        | enter callee args =>
          have hroom := Frame.Executes.length_lt hexec
          have hcaller := hin.replace hf'
          refine ⟨?_, List.forall_mem_cons.mpr ⟨Nat.zero_le _, hcaller.heights⟩⟩
          simp only [applyEffect, List.length_cons]
          omega

/-! ## What a thread has done -/

/-- One if the next tick dispatches something, that is, executes an instruction or looks for a
result; zero if it comes to a limit. -/
def due (limits : Limits) (e : Execution) : Nat :=
  if ({ e with ticks := e.ticks + 1 } : Execution).limitFault? limits = none then 1 else 0

/-- How much is dispatched by at most `bound` ticks until one of them ends the step. -/
def dispatchedByRun (h : Host σ) (s : Setting) : (bound : Nat) → World σ → Execution → Nat
  | 0, _, _ => 0
  | bound + 1, w, e =>
    match e.tick h s w with
    | (e', w', .next) => e.due s.limits + dispatchedByRun h s bound w' e'
    | _ => e.due s.limits

/-- How much is dispatched by one step of at most `bound` ticks. A thread that is over or is asked
to stop does nothing. -/
def dispatchedByStep (h : Host σ) (s : Setting) (bound : Nat) (w : World σ) (e : Execution) : Nat :=
  if e.stopped || e.frames.isEmpty || w.stop then 0 else dispatchedByRun h s bound w e

end Execution

/-- What a thread has done since its beginning. -/
structure Tally where
  /-- How often it has executed an instruction or looked for a result. -/
  dispatched : Nat := 0
  /-- How many calls it has made to the host. -/
  calls : Nat := 0

namespace Execution

variable {h : Host σ} {s : Setting} {e e' start : Execution}

/-- The states that a thread can get into from a first one, as in `Visits`, and what it has done
meanwhile. Each step and each tick within a step may have a host of its own, whose calls are
recorded. -/
inductive Runs (s : Setting) (start : Execution) : Tally → Execution → Prop
  | start : Runs s start {} start
  | step {σ : Type} {e e' : Execution} {outcome : Outcome} {t : Tally} {w : σ} {stop : Bool}
    {w' : World (σ × List Observation)} (h : Host σ) (bound : Nat) (before : Runs s start t e)
    (done : e.step h.recorded s bound ⟨(w, []), stop⟩ = some (outcome, w', e')) :
    Runs s start ⟨t.dispatched + e.dispatchedByStep h.recorded s bound ⟨(w, []), stop⟩,
      t.calls + w'.host.2.length⟩ e'
  | tick {σ : Type} {e e' : Execution} {flow : Flow} {t : Tally} {w : σ} {stop : Bool}
    {w' : World (σ × List Observation)} (h : Host σ) (before : Runs s start t e)
    (done : e.tick h.recorded s ⟨(w, []), stop⟩ = (e', w', flow)) :
    Runs s start ⟨t.dispatched + e.due s.limits, t.calls + w'.host.2.length⟩ e'

/-- The thread keeps to its limits, and what it has done is covered by the ticks that were
counted. -/
structure Spent (limits : Limits) (t : Tally) (e : Execution) : Prop where
  within : Within limits e.frames
  counted : t.dispatched ≤ e.ticks
  dispatched : ∀ m, limits.maxSteps = some m → t.dispatched ≤ m
  calls : t.calls ≤ t.dispatched

theorem Spent.halt {limits : Limits} {t : Tally} (he : Spent limits t e) :
    Spent limits t e.halt where
  within := ⟨Nat.zero_le _, fun _ hf => (List.not_mem_nil hf).elim⟩
  counted := he.counted
  dispatched := he.dispatched
  calls := he.calls

/-- A tick records one call at most. -/
theorem length_seen_dispatch (w : World (σ × List Observation)) (frames : List Frame) :
    (dispatch h.recorded s w frames).2.1.host.2.length ≤ w.host.2.length + 1 := by
  rcases callsOnce_dispatch (h := h.recorded) (s := s) w frames with hworld | ⟨call, hworld, -⟩
  · rw [hworld]
    exact Nat.le_succ _
  · obtain ⟨-, call', hseen, -⟩ := h.recorded_afterCall w call
    simp [hworld, hseen]

section

variable {d c : Nat} {w w' : World (σ × List Observation)}

/-- **A tick dispatches no more than is left to the thread**, and makes no more calls than it
dispatches. -/
theorem Spent.tick {flow : Flow} (he : Spent s.limits ⟨d, c + w.host.2.length⟩ e)
    (htick : e.tick h.recorded s w = (e', w', flow)) :
    Spent s.limits ⟨d + e.due s.limits, c + w'.host.2.length⟩ e' := by
  have hcounted := he.counted
  have hcalls := he.calls
  dsimp only at hcounted hcalls
  by_cases hfree : Free s.limits e
  · have hdue : e.due s.limits = 1 := if_pos (limitFault?_eq_none_iff.mpr hfree)
    have hin := he.within.dispatch (h := h.recorded) (w := w) hfree.1
    have hseen := length_seen_dispatch (h := h) (s := s) w e.frames
    rw [hfree.tick] at htick
    rcases hdispatch : dispatch h.recorded s w e.frames with ⟨frames, w₁, flow₁⟩
    rw [hdispatch] at htick hin hseen
    cases htick
    dsimp only at hin hseen
    refine ⟨hin, ?_, fun m hm => ?_, ?_⟩
    · dsimp only
      omega
    · have hlt := hfree.2 m hm
      dsimp only
      omega
    · dsimp only
      omega
  · have hlimit := mt limitFault?_eq_none_iff.mp hfree
    have hdue : e.due s.limits = 0 := if_neg hlimit
    obtain ⟨fault, hfault⟩ := Option.ne_none_iff_exists'.mp hlimit
    unfold Execution.tick at htick
    simp only [hfault] at htick
    cases htick
    rw [hdue]
    exact ⟨he.within, Nat.le_succ_of_le he.counted, he.dispatched, he.calls⟩

theorem dispatchedByRun_succ (bound : Nat) {flow : Flow}
    (htick : e.tick h.recorded s w = (e', w', flow)) :
    dispatchedByRun h.recorded s (bound + 1) w e
      = e.due s.limits
        + if (flow.ending e').isSome then 0 else dispatchedByRun h.recorded s bound w' e' := by
  rw [dispatchedByRun, htick]
  cases flow <;> rfl

/-- **A step dispatches no more than is left to the thread.** -/
theorem Spent.run : ∀ (bound : Nat) {d : Nat} {w : World (σ × List Observation)} {e : Execution}
    {outcome : Outcome}, Spent s.limits ⟨d, c + w.host.2.length⟩ e →
    e.run h.recorded s bound w = some (outcome, w', e') →
    Spent s.limits ⟨d + dispatchedByRun h.recorded s bound w e, c + w'.host.2.length⟩ e'
  | 0, _, _, _, _, _, hrun => by cases hrun
  | bound + 1, d, w, e, outcome, he, hrun => by
    rcases htick : e.tick h.recorded s w with ⟨e₁, w₁, flow⟩
    have he₁ := he.tick htick
    rw [run_succ bound htick] at hrun
    rw [dispatchedByRun_succ bound htick]
    cases flow with
    | next =>
      have hlater := Spent.run bound he₁ hrun
      rwa [Nat.add_assoc] at hlater
    | suspend | finished | fail =>
      cases hrun
      exact he₁
    | stopped =>
      cases hrun
      exact he₁.halt

end

theorem Runs.spent {t : Tally} (hstart : Spent s.limits {} start) (he : start.Runs s t e) :
    Spent s.limits t e := by
  induction he with
  | start => exact hstart
  | @step σ e e' outcome t w stop w' h bound _ hdone ih =>
    unfold dispatchedByStep
    unfold Execution.step at hdone
    split_ifs at hdone with hstopped hempty hstop
    · cases hdone
      simpa [hstopped] using ih
    · cases hdone
      simpa [hempty] using ih
    · cases hdone
      dsimp only at hstop
      simpa [hstop] using ih.halt
    · dsimp only at hstop
      simpa [hstopped, hempty, hstop] using Spent.run (w := ⟨(w, []), stop⟩) bound ih hdone
  | @tick σ e e' flow t w stop w' h _ hdone ih => exact Spent.tick (w := ⟨(w, []), stop⟩) ih hdone

/--
**The limits of a thread are hard bounds.**

Take any linked routine and any setting, and let a thread run from the beginning of the routine, on
any hosts and for any number of steps, of which any may have failed. In each state that it gets
into, between its steps and within them, there are at most as many frames as may be called, or one
if none may, and each stack holds at most one value more than may be there. If its ticks are
limited, it has executed instructions and looked for results no more often than that, all its steps
together, and it has made no more calls.
-/
theorem spent_of_runs {entry : Linked} {s : Setting} {t : Tally} {e : Execution}
    (he : (Execution.start entry).Runs s t e) :
    e.frames.length ≤ max 1 s.limits.maxCallDepth
      ∧ (∀ f ∈ e.frames, f.stack.size ≤ s.limits.maxStackSize + 1)
      ∧ ∀ m, s.limits.maxSteps = some m → t.dispatched ≤ m ∧ t.calls ≤ m := by
  have hstart : Spent s.limits {} (Execution.start entry) := by
    refine ⟨⟨Nat.le_max_left 1 _, fun f hf => ?_⟩, Nat.zero_le _,
      fun _ _ => Nat.zero_le _, Nat.le_refl 0⟩
    rw [List.mem_singleton.mp hf]
    exact Nat.zero_le _
  have hspent := he.spent hstart
  refine ⟨hspent.within.depth, hspent.within.heights, fun m hm => ⟨hspent.dispatched m hm, ?_⟩⟩
  exact Nat.le_trans hspent.calls (hspent.dispatched m hm)

/-- A routine that reads a variable and calls itself. -/
def diggerImage : Image where
  name := "digger"
  ops := [.getVariable "x", .callProcedure 0 0, .drop, .ret]
  procedures := [⟨"dig", [], false⟩]

/-- Two frames may be active, each with one value on its stack, and a number of ticks may be had. -/
def diggerSetting (l : Linked) (ticks : Nat) : Setting where
  variants := ⟨[(⟨"dig", [], false⟩, l)]⟩
  limits := { maxCallDepth := 2, maxSteps := some ticks, maxStackSize := 1 }

/-- The digger has its three ticks in the first step, reads the variable in each of its two frames,
and does nothing more in the second step. -/
theorem spent_of_runs_digger :
    ∃ l t e, diggerImage.link .none = .ok l ∧ (Execution.start l).Runs (diggerSetting l 3) t e
      ∧ t = ⟨3, 2⟩ ∧ e.ticks = 5 ∧ e.frames.length = 2 ∧ (∀ f ∈ e.frames, f.stack.size ≤ 2)
      ∧ t.dispatched ≤ 3 ∧ t.calls ≤ 3 := by
  have hrun : ((diggerImage.link .none).toOption.bind fun l =>
      ((Execution.start l).step ScriptedHost.host.recorded (diggerSetting l 3) 10
          ⟨({}, []), false⟩).bind fun r =>
        (r.2.2.step ScriptedHost.host.recorded (diggerSetting l 3) 10
            ⟨(r.2.1.host.1, []), false⟩).map fun r' =>
          (((Execution.start l).dispatchedByStep ScriptedHost.host.recorded (diggerSetting l 3) 10
              ⟨({}, []), false⟩, r.2.1.host.2.length),
            (r.2.2.dispatchedByStep ScriptedHost.host.recorded (diggerSetting l 3) 10
              ⟨(r.2.1.host.1, []), false⟩, r'.2.1.host.2.length),
            r'.2.2.ticks, r'.2.2.frames.length))
      = some ((3, 2), (0, 0), 5, 2) := by
    decide +kernel
  obtain ⟨l, hl, hrun⟩ := Option.bind_eq_some_iff.mp hrun
  obtain ⟨⟨outcome, w, e⟩, hfirst, hrun⟩ := Option.bind_eq_some_iff.mp hrun
  obtain ⟨⟨outcome', w', e'⟩, hsecond, hcounts⟩ := Option.map_eq_some_iff.mp hrun
  simp only [Prod.mk.injEq] at hcounts
  obtain ⟨⟨hdispatched, hcalls⟩, ⟨hdispatched', hcalls'⟩, hticks, hdepth⟩ := hcounts
  have hruns := ((Runs.start (s := diggerSetting l 3)).step _ _ hfirst).step _ _ hsecond
  rw [hdispatched, hcalls, hdispatched', hcalls'] at hruns
  obtain ⟨-, hheights, htally⟩ := spent_of_runs hruns
  exact ⟨l, _, e', eq_ok_of_toOption hl, hruns, rfl, hticks, hdepth, hheights, htally 3 rfl⟩

end Execution

end BlockScript
