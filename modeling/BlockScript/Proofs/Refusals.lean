import BlockScript.Proofs.Limits
import BlockScript.Proofs.Responsiveness

/-!
# Threads that are refused

A thread is refused if it has had all its ticks, if its innermost stack is too high, if it calls a
variant that is not there, or if it calls one and there are as many frames as may be. Each of these
is found out before anything is taken from the stack and before a host is called, so the frames stay
as they are (`Execution.refused_of_tick`).

A step that was refused may be followed by another one. That finds the same frames, and more ticks
that were had: what has refused the thread refuses it again, unless its ticks are at an end first
(`Execution.Refused.again`). So it is refused for good (`Execution.Stuck.step`), as long as it is
not asked to stop. Main statement: `Execution.refused_of_step`.
-/

namespace BlockScript

variable {σ : Type}

/-- The fault is the one that was met before, or says that the thread has had all its ticks. -/
def Fault.Repeats (fault fault' : Fault) : Prop :=
  fault' = fault ∨ ∃ max, fault' = .stepLimitExceeded max

/-! ## Instructions -/

namespace Frame

variable {h : Host σ} {s : Setting} {w : World σ} {f : Frame} {callers : List Frame}

/-- A call of a variant that has failed has done nothing, and would do nothing with any host. -/
theorem exec_callProcedure_of_fail {i argc : UInt16} {fault : Fault}
    (hfail : (f.exec h s callers w (.callProcedure i argc)).2.2 = .fail fault)
    (τ : Type) (k : Host τ) (u : World τ) :
    f.exec k s callers u (.callProcedure i argc) = (f, u, .fail fault) := by
  obtain ⟨stack, hfault, hexec⟩ := exists_faults_of_exec hfail
  rw [hexec]
  cases hfault with
  | underflow | procedure | variant | depth => rfl
  | slot hlocal => cases hlocal
  | jump hoffset => cases hoffset
  | condition hop => rcases hop with hop | hop <;> cases hop

end Frame

/-! ## Ticks -/

namespace Execution

variable {h : Host σ} {s : Setting} {e e' : Execution} {fault : Fault}

/-- A tick that is refused by its instruction does nothing, and would do nothing with any host. -/
theorem dispatch_of_refusal {w : World σ} {frames : List Frame}
    (hfail : (dispatch h s w frames).2.2 = .fail fault) (hrefusal : fault.IsRefusal) (τ : Type)
    (k : Host τ) (u : World τ) : dispatch k s u frames = (frames, u, .fail fault) := by
  obtain ⟨f, callers, rfl, hpending, ⟨-, rfl⟩ | ⟨op, hop, hexec⟩⟩ := exists_exec_of_dispatch hfail
  · exact hrefusal.elim
  · have hcall : ∃ i argc, op = .callProcedure i argc := by
      by_contra hnone
      push Not at hnone
      exact f.unrefused_exec s callers hnone fault hexec hrefusal
    obtain ⟨i, argc, rfl⟩ := hcall
    simp only [dispatch, hpending, hop]
    rw [Frame.exec_callProcedure_of_fail hexec τ k u]
    rfl

/-- The next tick is refused, whatever the host: it is counted, but the frames stay as they are and
no host is called. -/
def Refused (s : Setting) (fault : Fault) (e : Execution) : Prop :=
  ∀ (τ : Type) (h : Host τ) (w : World τ),
    e.tick h s w = ({ e with ticks := e.ticks + 1 }, w, .fail fault)

/-- **A tick that is refused does nothing.** -/
theorem refused_of_tick {w w' : World σ} (htick : e.tick h s w = (e', w', .fail fault))
    (hrefusal : fault.IsRefusal) : e.Refused s fault := by
  intro τ k u
  unfold tick at htick ⊢
  dsimp only at htick ⊢
  cases hlimit : limitFault? s.limits { e with ticks := e.ticks + 1 } with
  | some fault' =>
    rw [hlimit] at htick
    cases htick
    rfl
  | none =>
    rw [hlimit] at htick
    have hfail : (dispatch h s w e.frames).2.2 = .fail fault := congrArg (fun r => r.2.2) htick
    simp only [dispatch_of_refusal hfail hrefusal τ k u]

/-- With one more tick a thread has reached the same limit, or it has had all its ticks. -/
theorem limitFault?_succ (limits : Limits) (e : Execution) :
    limitFault? limits { e with ticks := e.ticks + 1 } = limitFault? limits e
      ∨ ∃ max, limitFault? limits { e with ticks := e.ticks + 1 }
        = some (.stepLimitExceeded max) := by
  have hstack : stackFault? limits { e with ticks := e.ticks + 1 } = stackFault? limits e := rfl
  unfold limitFault?
  rw [hstack]
  cases limits.maxSteps with
  | none => exact Or.inl rfl
  | some max =>
    dsimp only
    by_cases hmax : max < e.ticks + 1
    · exact Or.inr ⟨max, if_pos hmax⟩
    · rw [if_neg hmax, if_neg (show ¬ max < e.ticks by omega)]
      exact Or.inl rfl

/-- **A thread that was refused is refused again**, for the same reason unless it has had all its
ticks. -/
theorem Refused.again (he : e.Refused s fault) :
    Refused s fault { e with ticks := e.ticks + 1 }
      ∨ ∃ max, Refused s (.stepLimitExceeded max) { e with ticks := e.ticks + 1 } := by
  rcases limitFault?_succ s.limits { e with ticks := e.ticks + 1 } with hsame | ⟨max, hmax⟩
  · refine Or.inl fun τ k u => ?_
    have htick := he τ k u
    unfold tick at htick ⊢
    dsimp only at htick hsame ⊢
    rw [hsame]
    cases hlimit : limitFault? s.limits { e with ticks := e.ticks + 1 } with
    | some fault' =>
      rw [hlimit] at htick
      cases htick
      rfl
    | none =>
      rw [hlimit] at htick
      simp only [Prod.mk.injEq, mk.injEq] at htick
      simp only [htick]
  · refine Or.inr ⟨max, fun τ k u => ?_⟩
    unfold tick
    dsimp only at hmax ⊢
    rw [hmax]

/-! ## Steps -/

theorem ComesTo.concat {w w₁ w' : World σ} {e₁ : Execution} (hcomes : ComesTo h s w e w₁ e₁)
    (htick : e₁.tick h s w₁ = (e', w', .next)) : ComesTo h s w e w' e' := by
  induction hcomes with
  | refl => exact .tick htick .refl
  | tick hfirst _ ih => exact .tick hfirst (ih htick)

/-- **A step that is refused was refused at its last tick.** -/
theorem refused_of_run {bound : Nat} {w w' : World σ} {err : RuntimeError} (he : e.IsOn)
    (hrun : e.run h s bound w = some (.failed err, w', e')) (hrefusal : err.fault.IsRefusal) :
    ∃ e₁, ComesTo h s w e w' e₁ ∧ e₁.IsOn ∧ e₁.Refused s err.fault
      ∧ e' = { e₁ with ticks := e₁.ticks + 1 } ∧ err.callStack = e'.callStack := by
  have hnext : ∀ {w₁ w₂ : World σ} {e₁ e₂ : Execution}, ComesTo h s w e w₁ e₁ ∧ e₁.IsOn →
      e₁.tick h s w₁ = (e₂, w₂, .next) → ComesTo h s w e w₂ e₂ ∧ e₂.IsOn := by
    intro w₁ w₂ e₁ e₂ hreached htick
    obtain ⟨hframes, hstopped⟩ := hreached.2.tick htick
    have hne : e₂.frames ≠ [] := by
      intro hnil
      cases hframes.mp hnil
    exact ⟨hreached.1.concat htick, hne, hstopped⟩
  obtain ⟨w₁, e₁, e₂, flow, ⟨hcomes, hon⟩, htick, hend⟩ :=
    exists_last_tick (R := fun w₁ e₁ => ComesTo h s w e w₁ e₁ ∧ e₁.IsOn) hnext bound
    ⟨.refl, he⟩ hrun
  cases flow with
  | next | suspend | finished | stopped => cases hend
  | fail fault =>
    cases hend
    have hrefused := refused_of_tick htick hrefusal
    rw [hrefused] at htick
    cases htick
    exact ⟨e₁, hcomes, hon, hrefused, rfl, rfl⟩

/-- The thread is on, and its next tick is refused, for the given reason unless it has had all its
ticks. -/
structure Stuck (s : Setting) (fault : Fault) (e : Execution) : Prop where
  on : e.IsOn
  refused : ∃ fault', fault.Repeats fault' ∧ e.Refused s fault'

/-- What was refused is stuck. -/
theorem Refused.stuck (hon : e.IsOn) (he : e.Refused s fault) :
    Stuck s fault { e with ticks := e.ticks + 1 } := by
  refine ⟨⟨hon.1, hon.2⟩, ?_⟩
  rcases he.again with hsame | ⟨max, hmax⟩
  · exact ⟨fault, Or.inl rfl, hsame⟩
  · exact ⟨_, Or.inr ⟨max, rfl⟩, hmax⟩

/-- **A thread that is stuck fails at its next step and stays stuck.** No host is called and the
frames stay as they are. -/
theorem Stuck.step (he : e.Stuck s fault) (h : Host σ) (bound : Nat) {w : World σ}
    (hw : w.stop = false) :
    ∃ fault', fault.Repeats fault'
      ∧ e.step h s (bound + 1) w
        = some (.failed ⟨fault', e.callStack⟩, w, { e with ticks := e.ticks + 1 })
      ∧ Stuck s fault { e with ticks := e.ticks + 1 } := by
  obtain ⟨⟨hframes, hstopped⟩, fault', hrepeats, hrefused⟩ := he
  refine ⟨fault', hrepeats, ?_, ?_⟩
  · have hstep : e.step h s (bound + 1) w = e.run h s (bound + 1) w := by
      simp [Execution.step, hstopped, hframes, hw]
    rw [hstep, run_succ bound (hrefused σ h w)]
    rfl
  · obtain ⟨hon, fault'', hagain, hrefused'⟩ := hrefused.stuck ⟨hframes, hstopped⟩
    refine ⟨hon, fault'', ?_, hrefused'⟩
    rcases hagain with rfl | hmax
    · exact hrepeats
    · exact Or.inr hmax

/-- The states after some more steps, none of which has begun with a request to stop. Each step may
have a host of its own. -/
inductive Retries (s : Setting) (start : Execution) : Execution → Prop
  | start : Retries s start start
  | step {σ : Type} {e e' : Execution} {outcome : Outcome} {w w' : World σ} (h : Host σ)
    (bound : Nat) (before : Retries s start e) (unasked : w.stop = false)
    (done : e.step h s bound w = some (outcome, w', e')) : Retries s start e'

theorem Stuck.retries {start : Execution} (hstart : start.Stuck s fault) (he : start.Retries s e) :
    e.Stuck s fault ∧ e.frames = start.frames := by
  induction he with
  | start => exact ⟨hstart, rfl⟩
  | @step σ e e' outcome w w' h bound _ hw hdone ih =>
    obtain ⟨hstuck, hframes⟩ := ih
    cases bound with
    | zero => simp [Execution.step, hstuck.on.1, hstuck.on.2, hw, Execution.run] at hdone
    | succ bound =>
      obtain ⟨fault', -, hstep, hstuck'⟩ := hstuck.step h bound hw
      rw [hstep] at hdone
      cases hdone
      exact ⟨hstuck', hframes⟩

/--
**A thread that is refused loses nothing and is refused for good.**

Take a thread in any state and let a step of it fail because a limit was reached or because a
variant that it calls is not there. At the instruction that has failed, after all that the step did
before, the frames are those that are left now, with all that belongs to them, and no host was
called: with any other host it would have been the same. The error names the routines of all frames,
the innermost first.

Let the thread go on for any number of steps, on any hosts, and never be asked to stop. Then its
frames are still the same, and the next step fails too, without a call to the host. It fails for the
same reason, or because the thread has had all its ticks.
-/
theorem refused_of_step {s : Setting} {e e' : Execution} {h : Host σ} {bound : Nat} {w w' : World σ}
    {err : RuntimeError} (hstep : e.step h s bound w = some (.failed err, w', e'))
    (hrefusal : err.fault.IsRefusal) :
    (∃ e₁, ComesTo h s w e w' e₁ ∧ e'.frames = e₁.frames
        ∧ ∀ (τ : Type) (k : Host τ) (u : World τ), e₁.tick k s u = (e', u, .fail err.fault))
      ∧ err.callStack = e'.frames.map (fun f => f.routine.name)
      ∧ ∀ later, e'.Retries s later → later.frames = e'.frames
        ∧ ∀ (τ : Type) (k : Host τ) (bound : Nat) (u : World τ), u.stop = false →
          ∃ fault next,
            later.step k s (bound + 1) u = some (.failed ⟨fault, err.callStack⟩, u, next)
            ∧ next.frames = e'.frames ∧ err.fault.Repeats fault := by
  have hrun : e.IsOn ∧ e.run h s bound w = some (.failed err, w', e') := by
    unfold Execution.step at hstep
    split_ifs at hstep with hstopped hempty hstop
    · cases hstep
    · cases hstep
    · cases hstep
    · simp only [List.isEmpty_iff, Bool.not_eq_true] at hempty hstopped
      exact ⟨⟨hempty, hstopped⟩, hstep⟩
  obtain ⟨e₁, hcomes, hon, hrefused, rfl, hnames⟩ := refused_of_run hrun.1 hrun.2 hrefusal
  refine ⟨⟨e₁, hcomes, rfl, hrefused⟩, hnames, fun later hlater => ?_⟩
  obtain ⟨hstuck, hframes⟩ := (hrefused.stuck hon).retries hlater
  refine ⟨hframes, fun τ k bound u hu => ?_⟩
  obtain ⟨fault, hrepeats, hfails, -⟩ := hstuck.step k bound hu
  have hnames' : later.callStack = err.callStack := by
    rw [hnames, callStack, callStack, hframes]
  rw [hnames'] at hfails
  exact ⟨fault, _, hfails, hframes, hrepeats⟩

/-- The digger is refused its third frame, and has had its four ticks by then. -/
theorem refused_of_step_digger :
    ∃ l w e, diggerImage.link .none = .ok l
      ∧ (Execution.start l).step ScriptedHost.host (diggerSetting l 4) 10 ⟨{}, false⟩
        = some (.failed ⟨.callDepthExceeded 2, ["digger", "digger"]⟩, w, e)
      ∧ ∃ fault next, e.step ScriptedHost.host (diggerSetting l 4) 10 ⟨{}, false⟩
          = some (.failed ⟨fault, ["digger", "digger"]⟩, ⟨{}, false⟩, next)
        ∧ next.frames = e.frames ∧ Fault.Repeats (.callDepthExceeded 2) fault := by
  have hrun : ((diggerImage.link .none).toOption.bind fun l =>
      ((Execution.start l).step ScriptedHost.host (diggerSetting l 4) 10 ⟨{}, false⟩).map fun r =>
        r.1)
      = some (.failed ⟨.callDepthExceeded 2, ["digger", "digger"]⟩) := by
    decide +kernel
  obtain ⟨l, hl, hrun⟩ := Option.bind_eq_some_iff.mp hrun
  obtain ⟨⟨outcome, w, e⟩, hstep, houtcome⟩ := Option.map_eq_some_iff.mp hrun
  cases houtcome
  obtain ⟨-, -, hlater⟩ := refused_of_step hstep trivial
  exact ⟨l, w, e, eq_ok_of_toOption hl, hstep, (hlater e .start).2 ScriptedHost _ 9 ⟨{}, false⟩ rfl⟩

end Execution

end BlockScript
