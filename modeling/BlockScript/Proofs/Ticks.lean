import BlockScript.Machine.ScriptedHost
import BlockScript.Proofs.Actions

/-!
# What a tick can do

A tick comes to a limit, or it executes one instruction or looks for one result
(`Execution.tick_cases`). If it fails after that, it has the fault of the instruction
(`Execution.exists_exec_of_dispatch`), and only the call of a variant can be refused
(`Frame.unrefused_exec`).

All that a tick does to the world is one call to the host at most, and that is one which the routine
of the frame may make (`Frame.callsWithin_exec`, `Execution.callsOnce_dispatch`). So it keeps every
property of the world that calls keep (`Execution.tick_keeps`); a request to stop is one
(`Execution.keeps_stop`).

After some calls the thread looks whether it has been asked to stop: when a block was run, when a
primitive was called, and when a result was looked for (`HostEvent.heeded`), unless the result is
still to come. After the others it goes on.
-/

namespace BlockScript

variable {σ : Type}

/-- The fault of a thread that has reached one of its limits. -/
def Fault.IsLimit : Fault → Prop
  | .callDepthExceeded _ | .stackLimitExceeded _ | .stepLimitExceeded _ => True
  | _ => False

/-- The faults of a thread that is refused: it has reached a limit, or calls a variant that is not
there. -/
def Fault.IsRefusal : Fault → Prop
  | .callDepthExceeded _ | .stackLimitExceeded _ | .stepLimitExceeded _ | .unknownVariant _ => True
  | _ => False

/-! ## Instructions that fail -/

namespace Frame

variable {h : Host σ} {w : World σ}

/-- If the instruction has failed, it was not refused. -/
def Unrefused (r : Frame × World σ × Effect) : Prop :=
  ∀ fault, r.2.2 = .fail fault → ¬ fault.IsRefusal

/-- **No instruction is refused but a call of a variant.** -/
theorem unrefused_exec (f : Frame) (s : Setting) (callers : List Frame) {op : Instr}
    (hop : ∀ i argc, op ≠ .callProcedure i argc) : Unrefused (f.exec h s callers w op) := by
  intro fault hfail hrefusal
  obtain ⟨stack, hfault, -⟩ := exists_faults_of_exec hfail
  cases hfault with
  | variant | depth => exact hop _ _ rfl
  | _ => exact hrefusal

end Frame

namespace Execution

variable {h : Host σ} {s : Setting}

theorem flowAfterCall_ne_fail (w : World σ) (fault : Fault) :
    flowAfterCall w ≠ .fail fault := by
  unfold flowAfterCall
  split <;> simp

/-- **A tick fails with the fault of its instruction**, or because there is no instruction. -/
theorem exists_exec_of_dispatch {w : World σ} {frames : List Frame} {fault : Fault}
    (hfail : (dispatch h s w frames).2.2 = .fail fault) :
    ∃ f callers, frames = f :: callers ∧ f.pending = none
      ∧ (f.routine.code[f.pc]? = none ∧ fault = .pcOutside f.routine.name f.pc
        ∨ ∃ op, f.routine.code[f.pc]? = some op ∧ (f.exec h s callers w op).2.2 = .fail fault) := by
  cases frames with
  | nil => cases hfail
  | cons f callers =>
    cases hpending : f.pending with
    | some id =>
      simp only [dispatch, hpending, pollFrame] at hfail
      split at hfail
      · exact absurd hfail (flowAfterCall_ne_fail _ fault)
      · cases hfail
    | none =>
      refine ⟨f, callers, rfl, hpending, ?_⟩
      cases hop : f.routine.code[f.pc]? with
      | none =>
        simp only [dispatch, hpending, hop, Flow.fail.injEq] at hfail
        exact Or.inl ⟨rfl, hfail.symm⟩
      | some op =>
        refine Or.inr ⟨op, rfl, ?_⟩
        simp only [dispatch, hpending, hop] at hfail
        generalize f.exec h s callers w op = r at hfail
        obtain ⟨f', w', effect⟩ := r
        cases effect with
        | fail fault' =>
          cases hfail
          rfl
        | nextUnlessStopped => exact absurd hfail (flowAfterCall_ne_fail _ fault)
        | leave =>
          simp only [applyEffect] at hfail
          split at hfail <;> cases hfail
        | next | suspend | enter => cases hfail

end Execution

/-! ## Calls to the host -/

/-- If the call is one of a primitive, the routine names it. -/
def Linked.MayCall (l : Linked) (call : HostEvent) : Prop :=
  ∀ name args, call = .primitive name args → name ∈ l.image.host

/-- A thread looks whether it is to stop when it has made the call. -/
def HostEvent.heeded : HostEvent → Bool
  | .escape _ _ _ | .primitive _ _ | .poll _ => true
  | .get _ | .set _ _ | .now | .deadline _ => false

namespace Host

/-- The world after a call. -/
def afterCall (h : Host σ) (w : World σ) : HostEvent → World σ
  | .escape block opcode inputs => w.after (h.evaluate w.host block opcode inputs)
  | .primitive name args => w.after (h.callPrimitive w.host name args)
  | .poll id => w.after (h.poll w.host id)
  | .get name => w.after (h.getVariable w.host name)
  | .set name v => w.after (h.setVariable w.host name v)
  | .now => w.after (h.now w.host)
  | .deadline _ => w.after (h.deadlineElapsed w.host)

/-- The number under which the result of a call is to be asked for, if it has not come yet. -/
def pendingId? (h : Host σ) (w : σ) : HostEvent → Option PendingId
  | .primitive name args =>
    match (h.callPrimitive w name args).answer with
    | .ready _ => none
    | .pending id => some id
  | .poll id =>
    match (h.poll w id).answer with
    | some _ => none
    | none => some id
  | .escape _ _ _ | .get _ | .set _ _ | .now | .deadline _ => none

end Host

namespace Frame

variable {h : Host σ} {w : World σ}

/-- The world after an instruction is the one before it, or the one after one call. After a call
that is heeded the thread looks whether it is to stop, or else it waits for the result. -/
def CallsOnce (h : Host σ) (w : World σ) (r : Frame × World σ × Effect) : Prop :=
  r.2.1 = w ∨ ∃ call, r.2.1 = h.afterCall w call ∧ (call.heeded = true →
    match h.pendingId? w.host call with
    | none => r.2.2 = .nextUnlessStopped
    | some id => r.2.2 = .suspend .blocking ∧ r.1.pending = some id)

/-- The same as `CallsOnce`, of a call that the routine may make. -/
def CallsWithin (l : Linked) (h : Host σ) (w : World σ) (r : Frame × World σ × Effect) : Prop :=
  r.2.1 = w ∨ ∃ call, l.MayCall call ∧ r.2.1 = h.afterCall w call ∧ (call.heeded = true →
    match h.pendingId? w.host call with
    | none => r.2.2 = .nextUnlessStopped
    | some id => r.2.2 = .suspend .blocking ∧ r.1.pending = some id)

/-- The call is not heeded, and so it is not one of a primitive. -/
theorem CallsWithin.of_not_heeded {l : Linked} {r : Frame × World σ × Effect} (call : HostEvent)
    (hworld : r.2.1 = h.afterCall w call) (hcall : call.heeded = false) : CallsWithin l h w r := by
  refine Or.inr ⟨call, ?_, hworld, fun hheeded => ?_⟩
  · rintro name args rfl
    cases hcall
  · rw [hcall] at hheeded
    cases hheeded

theorem callsWithin_callHost {l : Linked} (f : Frame) {name : String} (hname : name ∈ l.image.host)
    (args : List Value) : CallsWithin l h w (f.callHost h w name args) := by
  refine Or.inr ⟨.primitive name args, ?_, ?_, fun _ => ?_⟩
  · rintro name' args' heq
    cases heq
    exact hname
  · unfold callHost
    dsimp only
    split <;> rfl
  · simp only [Host.pendingId?, callHost]
    cases (h.callPrimitive w.host name args).answer with
    | ready v => rfl
    | pending id => exact ⟨rfl, rfl⟩

/-- **An instruction makes one call at most**, and calls no primitive that its routine does not
name. -/
theorem callsWithin_exec (f : Frame) (s : Setting) (callers : List Frame) (op : Instr) :
    CallsWithin f.routine h w (f.exec h s callers w op) := by
  obtain ⟨action, hacts, hexec⟩ := f.exists_acts s callers op
  rw [hexec]
  cases hacts with
  | @evaluates block opcode inputs _ vs =>
    refine Or.inr ⟨.escape block opcode (inputs.zip vs), ?_, rfl, fun _ => rfl⟩
    rintro name args heq
    cases heq
  | calls hname => exact callsWithin_callHost _ (List.mem_of_getElem? hname) _
  | gets name => exact .of_not_heeded (.get name) rfl rfl
  | @sets name _ v => exact .of_not_heeded (.set name v) rfl rfl
  | asks => exact .of_not_heeded (.deadline false) rfl rfl
  | starts | waits => exact .of_not_heeded .now rfl rfl
  | _ => exact Or.inl rfl

theorem callsOnce_exec (f : Frame) (s : Setting) (callers : List Frame) (op : Instr) :
    CallsOnce h w (f.exec h s callers w op) := by
  rcases f.callsWithin_exec (h := h) (w := w) s callers op with hworld | ⟨call, -, hcall⟩
  · exact Or.inl hworld
  · exact Or.inr ⟨call, hcall⟩

end Frame

namespace Execution

variable {h : Host σ} {s : Setting}

theorem applyEffect_world (w : World σ) (f : Frame) (callers : List Frame) (effect : Effect) :
    (applyEffect w f callers effect).2.1 = w := by
  cases effect <;> rfl

/-- The world after a tick is the one before it, or the one after one call. After a call that is
heeded the thread has looked whether it is to stop, or else it waits for the result. -/
def CallsOnce (h : Host σ) (w : World σ) (r : List Frame × World σ × Flow) : Prop :=
  r.2.1 = w ∨ ∃ call, r.2.1 = h.afterCall w call ∧ (call.heeded = true →
    match h.pendingId? w.host call with
    | none => r.2.2 = flowAfterCall r.2.1
    | some id => r.2.2 = .suspend .blocking ∧ ∃ f, r.1.head? = some f ∧ f.pending = some id)

theorem callsOnce_applyEffect {w : World σ} {r : Frame × World σ × Effect}
    (hr : Frame.CallsOnce h w r) (callers : List Frame) :
    CallsOnce h w (applyEffect r.2.1 r.1 callers r.2.2) := by
  rcases hr with hworld | ⟨call, hworld, hheeded⟩
  · exact Or.inl (by rw [applyEffect_world, hworld])
  · refine Or.inr ⟨call, by rw [applyEffect_world, hworld], fun hcall => ?_⟩
    have hheeded := hheeded hcall
    cases hid : h.pendingId? w.host call with
    | none =>
      rw [hid] at hheeded
      rw [hheeded]
      rfl
    | some id =>
      rw [hid] at hheeded
      rw [hheeded.1]
      exact ⟨rfl, r.1, rfl, hheeded.2⟩

theorem callsOnce_pollFrame {w : World σ} {f : Frame} {id : PendingId} (hf : f.pending = some id)
    (callers : List Frame) : CallsOnce h w (pollFrame h w f callers id) := by
  refine Or.inr ⟨.poll id, ?_, fun _ => ?_⟩
  · unfold pollFrame
    dsimp only
    split <;> rfl
  · simp only [Host.pendingId?, pollFrame]
    cases (h.poll w.host id).answer with
    | some v => rfl
    | none => exact ⟨rfl, f, rfl, hf⟩

theorem callsOnce_dispatch (w : World σ) (frames : List Frame) :
    CallsOnce h w (dispatch h s w frames) := by
  cases frames with
  | nil => exact Or.inl rfl
  | cons f callers =>
    cases hpending : f.pending with
    | some id =>
      simp only [dispatch, hpending]
      exact callsOnce_pollFrame hpending callers
    | none =>
      simp only [dispatch, hpending]
      split
      · exact Or.inl rfl
      · exact callsOnce_applyEffect (f.callsOnce_exec s callers _) callers

/-- A frame that waits for nothing executes the instruction at its position. -/
theorem dispatch_of_code {w : World σ} {f : Frame} {callers : List Frame} {op : Instr}
    (hnone : f.pending = none) (hop : f.routine.image.ops[f.pc]? = some op) :
    dispatch h s w (f :: callers)
      = applyEffect (f.exec h s callers w op).2.1 (f.exec h s callers w op).1
        callers (f.exec h s callers w op).2.2 := by
  have hcode : f.routine.code[f.pc]? = some op := by
    rw [f.routine.code_eq, List.getElem?_toArray, hop]
  simp only [dispatch, hnone, hcode]

end Execution

/-! ## What calls to the host keep -/

/-- The property of a world is kept by all calls to the host. -/
structure Host.Keeps (h : Host σ) (P : World σ → Prop) : Prop where
  evaluate : ∀ w block opcode inputs, P w → P (w.after (h.evaluate w.host block opcode inputs))
  callPrimitive : ∀ w name args, P w → P (w.after (h.callPrimitive w.host name args))
  poll : ∀ w id, P w → P (w.after (h.poll w.host id))
  getVariable : ∀ w name, P w → P (w.after (h.getVariable w.host name))
  setVariable : ∀ w name v, P w → P (w.after (h.setVariable w.host name v))
  now : ∀ w, P w → P (w.after (h.now w.host))
  deadlineElapsed : ∀ w, P w → P (w.after (h.deadlineElapsed w.host))

theorem Host.Keeps.afterCall {h : Host σ} {P : World σ → Prop} (hP : h.Keeps P) {w : World σ}
    (hw : P w) (call : HostEvent) : P (h.afterCall w call) := by
  cases call with
  | escape block opcode inputs => exact hP.evaluate w block opcode inputs hw
  | primitive name args => exact hP.callPrimitive w name args hw
  | poll id => exact hP.poll w id hw
  | get name => exact hP.getVariable w name hw
  | set name v => exact hP.setVariable w name v hw
  | now => exact hP.now w hw
  | deadline elapsed => exact hP.deadlineElapsed w hw

namespace Execution

variable {P : World σ → Prop} {h : Host σ} {s : Setting}

theorem dispatch_keeps (hP : h.Keeps P) {w : World σ} (hw : P w) (frames : List Frame) :
    P (dispatch h s w frames).2.1 := by
  rcases callsOnce_dispatch (h := h) (s := s) w frames with hworld | ⟨call, hworld, -⟩
  · rw [hworld]
    exact hw
  · rw [hworld]
    exact hP.afterCall hw call

theorem isLimit_of_limitFault? {limits : Limits} {e : Execution} {fault : Fault}
    (h : limitFault? limits e = some fault) : fault.IsLimit := by
  unfold limitFault? stackFault? at h
  split at h
  · split at h
    · cases h
      trivial
    · split at h
      · cases h
      · split at h
        · cases h
          trivial
        · cases h
  · split at h
    · cases h
    · split at h
      · cases h
        trivial
      · cases h

/-- What a tick does: it comes to a limit, or it executes an instruction. -/
theorem tick_cases (w : World σ) (e : Execution) :
    (∃ e' fault, fault.IsLimit ∧ e'.frames = e.frames ∧ tick h s w e = (e', w, .fail fault))
      ∨ ∃ e', e'.stopped = e.stopped ∧ e'.frames = (dispatch h s w e.frames).1
        ∧ tick h s w e = (e', (dispatch h s w e.frames).2) := by
  unfold tick
  dsimp only
  split
  · next fault hfault =>
    exact Or.inl ⟨{ e with ticks := e.ticks + 1 }, fault, isLimit_of_limitFault? hfault, rfl, rfl⟩
  · exact Or.inr ⟨⟨(dispatch h s w e.frames).1, e.ticks + 1, e.stopped⟩, rfl, rfl, rfl⟩

theorem tick_keeps (hP : h.Keeps P) {w : World σ} (hw : P w) (e : Execution) :
    P (tick h s w e).2.1 := by
  rcases tick_cases (h := h) (s := s) w e with ⟨e', fault, -, -, heq⟩ | ⟨e', -, -, heq⟩
  · rw [heq]
    exact hw
  · rw [heq]
    exact dispatch_keeps hP hw e.frames

end Execution

/-! ## From ticks to steps -/

/-- How a step ends with a tick that does not go on. -/
def Flow.ending (e : Execution) : Flow → Option (Outcome × Execution)
  | .next => none
  | .suspend kind => some (.yielded kind, e)
  | .finished => some (.finished, e)
  | .stopped => some (.stopped, e.halt)
  | .fail fault => some (.failed ⟨fault, e.callStack⟩, e)

namespace Execution

variable {P : World σ → Prop} {h : Host σ} {s : Setting}

theorem run_succ (bound : Nat) {w w₁ : World σ} {e e₁ : Execution} {flow : Flow}
    (htick : e.tick h s w = (e₁, w₁, flow)) :
    e.run h s (bound + 1) w = match flow.ending e₁ with
      | none => e₁.run h s bound w₁
      | some (outcome, e') => some (outcome, w₁, e') := by
  rw [run, htick]
  cases flow <;> rfl

/-- **A step that has an outcome ends with a tick**, before which there is what ticks that go on
keep. -/
theorem exists_last_tick {R : World σ → Execution → Prop}
    (hR : ∀ {w w₁ e e₁}, R w e → e.tick h s w = (e₁, w₁, .next) → R w₁ e₁) :
    ∀ (bound : Nat) {w w' : World σ} {e e' : Execution} {outcome : Outcome}, R w e →
      e.run h s bound w = some (outcome, w', e') →
      ∃ w₁ e₁ e₂ flow, R w₁ e₁ ∧ e₁.tick h s w₁ = (e₂, w', flow)
        ∧ flow.ending e₂ = some (outcome, e')
  | 0, _, _, _, _, _, _, hrun => by cases hrun
  | bound + 1, w, w', e, e', outcome, he, hrun => by
    rcases htick : e.tick h s w with ⟨e₁, w₁, flow⟩
    rw [run_succ bound htick] at hrun
    cases flow with
    | next => exact exists_last_tick hR bound (hR he htick) hrun
    | suspend | finished | stopped | fail =>
      cases hrun
      exact ⟨w, e, _, _, he, htick, rfl⟩

theorem run_keeps (hP : h.Keeps P) (bound : Nat) {w w' : World σ} {e e' : Execution}
    {outcome : Outcome} (hw : P w) (hrun : run h s bound w e = some (outcome, w', e')) : P w' := by
  obtain ⟨w₁, e₁, e₂, flow, hw₁, htick, -⟩ :=
    exists_last_tick (R := fun w _ => P w) (fun {_ _ e _} hw htick => by
      have hnext := tick_keeps (s := s) hP hw e
      rwa [htick] at hnext) bound hw hrun
  have hlast := tick_keeps (s := s) hP hw₁ e₁
  rw [htick] at hlast
  exact hlast

/-- A request to stop is never taken back. -/
theorem keeps_stop (h : Host σ) : h.Keeps fun w => w.stop = true := by
  constructor
  all_goals
    intros
    simp_all [World.after]

end Execution

end BlockScript
