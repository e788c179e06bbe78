import BlockScript.Proofs.Invariants
import BlockScript.Proofs.Refinement

/-!
# Threads that are asked to stop

A thread can be asked to stop between two of its steps, or by the host during a call. It then makes
no call any more. Between steps this is so because a step begins with a look at the request
(`Execution.StoppedEmpty.silent`). During a step it is so because the thread looks at the request
after each call that is heeded, unless the result of the call is still to come, and then the step
ends anyway (`Execution.endsAtCall_run`).

Main statement: a thread that has been asked to stop is silent from then on, and the step in
progress ends with the call in which it was asked (`Execution.silent_of_request`).
-/

namespace BlockScript

variable {σ : Type}

/-! ## What is recorded of a call -/

/-- A recording host writes each call down, and does to the host that is recorded what the call
does. -/
theorem Host.recorded_afterCall (h : Host σ) (w : World (σ × List Observation)) (call : HostEvent) :
    (h.recorded.afterCall w call).host.1 = (h.afterCall ⟨w.host.1, false⟩ call).host
      ∧ ∃ call', (h.recorded.afterCall w call).host.2 = w.host.2 ++ [.called call']
        ∧ (call'.heeded = true → call = call') := by
  cases call with
  | deadline b => exact ⟨rfl, _, rfl, fun hheeded => by cases hheeded⟩
  | escape | primitive | poll | get | set | now => exact ⟨rfl, _, rfl, fun _ => rfl⟩

theorem Host.recorded_pendingId? (h : Host σ) (w : σ × List Observation) (call : HostEvent) :
    h.recorded.pendingId? w call = h.pendingId? w.1 call := by
  cases call <;> rfl

namespace Execution

variable {h : Host σ} {s : Setting}

/-! ## Threads that are over -/

/-- The thread has left its last frame by itself. -/
def Over (e : Execution) : Prop := e.frames = [] ∧ e.stopped = false

/-- All later steps have the outcome and leave everything as it is, whatever the host. -/
def Settled (s : Setting) (outcome : Outcome) (e : Execution) : Prop :=
  ∀ (τ : Type) (h : Host τ) (bound : Nat) (w : World τ), e.step h s bound w = some (outcome, w, e)

theorem settled_stopped {e : Execution} (he : e.stopped = true) : e.Settled s .stopped := by
  intro τ h bound w
  rw [step, if_pos he]

theorem Over.settled {e : Execution} (he : e.Over) : e.Settled s .finished := by
  intro τ h bound w
  simp [step, he.1, he.2]

/-- A thread finishes when it leaves its last frame. -/
theorem dispatch_eq_nil_iff {w : World σ} {frames : List Frame} :
    (dispatch h s w frames).1 = [] ↔ (dispatch h s w frames).2.2 = .finished := by
  have hcall : ∀ w : World σ, flowAfterCall w ≠ .finished := by
    intro w
    unfold flowAfterCall
    split <;> simp
  cases frames with
  | nil => simp [dispatch]
  | cons f callers =>
    cases hpending : f.pending with
    | some id =>
      simp only [dispatch, hpending, pollFrame]
      split <;> simp [hcall]
    | none =>
      simp only [dispatch, hpending]
      split
      · simp
      · next op _ =>
        generalize f.exec h s callers w op = r
        obtain ⟨f', w', effect⟩ := r
        cases effect with
        | leave => cases callers <;> simp [applyEffect]
        | next | nextUnlessStopped | suspend | enter | fail => simp [applyEffect, hcall]

/-- What is left of a thread with frames after a tick. -/
theorem tick_eq_nil_iff {w : World σ} {e : Execution} (he : e.frames ≠ []) :
    (e.tick h s w).1.frames = [] ↔ (e.tick h s w).2.2 = .finished := by
  rcases tick_cases (h := h) (s := s) w e with ⟨e', fault, -, hframes, heq⟩ | ⟨e', -, hframes, heq⟩
  · rw [heq]
    simp [hframes, he]
  · rw [heq, hframes]
    exact dispatch_eq_nil_iff

theorem tick_stopped {w : World σ} (e : Execution) : (e.tick h s w).1.stopped = e.stopped := by
  unfold tick
  dsimp only
  split <;> rfl

/-- The thread is on: it has frames, and was not stopped. -/
def IsOn (e : Execution) : Prop := e.frames ≠ [] ∧ e.stopped = false

theorem IsOn.tick {w w₁ : World σ} {e e₁ : Execution} {flow : Flow} (he : e.IsOn)
    (htick : e.tick h s w = (e₁, w₁, flow)) :
    (e₁.frames = [] ↔ flow = .finished) ∧ e₁.stopped = false := by
  have hframes := tick_eq_nil_iff (h := h) (s := s) (w := w) he.1
  have hstopped := tick_stopped (h := h) (s := s) (w := w) e
  rw [htick] at hframes hstopped
  exact ⟨hframes, hstopped.trans he.2⟩

/-- A thread that is on has finished after a step exactly if that says so. -/
theorem IsOn.over_iff_run {bound : Nat} {w w' : World σ} {e e' : Execution} {outcome : Outcome}
    (he : e.IsOn) (hrun : e.run h s bound w = some (outcome, w', e')) :
    (outcome = .finished ↔ e'.Over) ∧ (e'.stopped = true → e'.frames = []) := by
  have hnext : ∀ {w w₁ : World σ} {e e₁ : Execution}, e.IsOn → e.tick h s w = (e₁, w₁, .next) →
      e₁.IsOn := by
    intro w w₁ e e₁ he htick
    obtain ⟨hframes, hstopped⟩ := he.tick htick
    have hne : e₁.frames ≠ [] := by
      intro hnil
      cases hframes.mp hnil
    exact ⟨hne, hstopped⟩
  obtain ⟨w₁, e₁, e₂, flow, he₁, htick, hend⟩ :=
    exists_last_tick (R := fun _ e => e.IsOn) hnext bound he hrun
  obtain ⟨hframes, hstopped⟩ := he₁.tick htick
  unfold Over
  cases flow with
  | next => cases hend
  | finished =>
    cases hend
    simp [hframes, hstopped]
  | stopped =>
    cases hend
    simp [halt]
  | suspend | fail =>
    cases hend
    simp [hframes, hstopped]

/-- A thread that was stopped has no frames. -/
def StoppedEmpty (e : Execution) : Prop := e.stopped = true → e.frames = []

theorem StoppedEmpty.tick {w : World σ} {e : Execution} (he : e.StoppedEmpty) :
    (e.tick h s w).1.StoppedEmpty := by
  unfold Execution.tick
  dsimp only
  split
  · exact he
  · intro hstopped
    show (dispatch h s w e.frames).1 = []
    rw [he hstopped]
    rfl

/-- **A thread has finished exactly if its step says so.** -/
theorem StoppedEmpty.step {bound : Nat} {w w' : World σ} {e e' : Execution} {outcome : Outcome}
    (he : e.StoppedEmpty) (hstep : e.step h s bound w = some (outcome, w', e')) :
    (outcome = .finished ↔ e'.Over) ∧ e'.StoppedEmpty := by
  unfold Execution.step at hstep
  split_ifs at hstep with hstopped hempty
  · cases hstep
    exact ⟨by simp [Over, hstopped], he⟩
  · cases hstep
    simp only [List.isEmpty_iff] at hempty
    exact ⟨by simp [Over, hstopped, hempty], he⟩
  · cases hstep
    exact ⟨by simp [Over, halt], fun _ => rfl⟩
  · have hon : e.IsOn := by
      simp only [List.isEmpty_iff, Bool.not_eq_true] at hempty hstopped
      exact ⟨hempty, hstopped⟩
    exact hon.over_iff_run hstep

theorem Visits.stoppedEmpty {start e : Execution} (hstart : start.StoppedEmpty)
    (he : start.Visits s e) : e.StoppedEmpty := by
  induction he with
  | start => exact hstart
  | step h bound _ hdone ih => exact (ih.step hdone).2
  | tick h w _ ih => exact ih.tick

/-! ## Requests between steps -/

/-- Once the thread is asked to stop, its next step is stopped without a call to the host, whichever
that is: the world stays as it is. No frame is left, and all later steps are stopped too. -/
def Silent (s : Setting) (e : Execution) : Prop :=
  ∀ (τ : Type) (h : Host τ) (bound : Nat) (w : World τ), w.stop = true →
    ∃ e', e.step h s bound w = some (.stopped, w, e') ∧ e'.frames = [] ∧ e'.Settled s .stopped

/-- **A thread that has not finished heeds a request to stop at its next step.** -/
theorem StoppedEmpty.silent {e : Execution} (he : e.StoppedEmpty) (hover : ¬ e.Over) :
    e.Silent s := by
  intro τ h bound w hw
  by_cases hstopped : e.stopped = true
  · exact ⟨e, settled_stopped hstopped τ h bound w, he hstopped, settled_stopped hstopped⟩
  · have hframes : e.frames ≠ [] := fun hnil => hover ⟨hnil, Bool.eq_false_of_not_eq_true hstopped⟩
    refine ⟨e.halt, ?_, rfl, settled_stopped rfl⟩
    simp [Execution.step, hstopped, hframes, hw]

/-! ## Requests during a step -/

/-- How a step ends with a call in which the thread is asked to stop, the host being in the state
`u` when it is called: the thread is stopped, or the innermost frame waits for the result of the
call. -/
def EndsAtCall (h : Host σ) (u : σ) (call : HostEvent) (outcome : Outcome) (e : Execution) : Prop :=
  match h.pendingId? u call with
  | none => outcome = .stopped ∧ e.stopped = true ∧ e.frames = []
  | some id => outcome = .yielded .blocking ∧ ∃ f, e.frames.head? = some f ∧ f.pending = some id

/-- No request was overlooked: if the thread has been asked to stop, it was not in the last call or
the last call is not heeded. -/
def Unrequested (w : World (σ × List Observation)) : Prop :=
  w.stop = true → ∀ call, w.host.2.getLast? = some (.called call) → call.heeded = false

/-- A tick ends the step if it makes a call that is heeded and the thread is asked to stop. -/
theorem endsAtCall_tick {w w₁ : World (σ × List Observation)} {e e₁ : Execution} {flow : Flow}
    {call : HostEvent} (hw : Unrequested w) (htick : e.tick h.recorded s w = (e₁, w₁, flow))
    (hstop : w₁.stop = true) (hlast : w₁.host.2.getLast? = some (.called call))
    (hcall : call.heeded = true) :
    ∃ outcome e' u, flow.ending e₁ = some (outcome, e')
      ∧ w₁.host.1 = (h.afterCall ⟨u, false⟩ call).host ∧ EndsAtCall h u call outcome e' := by
  -- the request was not there before the tick, so the tick has made a call
  have hsame : w₁ ≠ w := by
    rintro rfl
    rw [hw hstop call hlast] at hcall
    cases hcall
  rcases tick_cases (h := h.recorded) (s := s) w e with
    ⟨e₂, fault, -, -, heq⟩ | ⟨e₂, -, hframes, heq⟩
  · rw [htick] at heq
    cases heq
    exact absurd rfl hsame
  rw [htick] at heq
  obtain ⟨rfl, hdispatch⟩ := Prod.mk.inj heq
  have hcalls := callsOnce_dispatch (h := h.recorded) (s := s) w e.frames
  unfold CallsOnce at hcalls
  rw [← hdispatch, ← hframes] at hcalls
  dsimp only at hcalls
  rcases hcalls with hworld | ⟨call', hworld, hheeded⟩
  · exact absurd hworld hsame
  obtain ⟨hhost, call'', hseen, heq⟩ := h.recorded_afterCall w call'
  rw [← hworld] at hhost hseen
  rw [hseen, List.getLast?_concat] at hlast
  cases hlast
  cases heq hcall
  have hheeded := hheeded hcall
  rw [Host.recorded_pendingId?] at hheeded
  cases hid : h.pendingId? w.host.1 call with
  | none =>
    rw [hid] at hheeded
    have hflow : flow = .stopped := by
      rw [hheeded, flowAfterCall, if_pos hstop]
    refine ⟨.stopped, e₁.halt, w.host.1, by rw [hflow]; rfl, hhost, ?_⟩
    rw [EndsAtCall, hid]
    exact ⟨rfl, rfl, rfl⟩
  | some id =>
    rw [hid] at hheeded
    refine ⟨.yielded .blocking, e₁, w.host.1, by rw [hheeded.1]; rfl, hhost, ?_⟩
    rw [EndsAtCall, hid]
    exact ⟨rfl, hheeded.2⟩

theorem worldAfter_succ (bound : Nat) {w w₁ : World σ} {e e₁ : Execution} {flow : Flow}
    (htick : e.tick h s w = (e₁, w₁, flow)) :
    worldAfter h s (bound + 1) w e
      = if (flow.ending e₁).isSome then w₁ else worldAfter h s bound w₁ e₁ := by
  rw [worldAfter, htick]
  cases flow <;> rfl

/-- **A step ends with the call in which the thread is asked to stop**, if the call is heeded. -/
theorem endsAtCall_run : ∀ (bound : Nat) {w : World (σ × List Observation)} {e : Execution}
    {call : HostEvent}, Unrequested w → (worldAfter h.recorded s bound w e).stop = true →
    (worldAfter h.recorded s bound w e).host.2.getLast? = some (.called call) → call.heeded = true →
    ∃ outcome e' u, (∀ more, e.run h.recorded s (bound + more) w
        = some (outcome, worldAfter h.recorded s bound w e, e'))
      ∧ (worldAfter h.recorded s bound w e).host.1 = (h.afterCall ⟨u, false⟩ call).host
      ∧ EndsAtCall h u call outcome e'
  | 0, w, e, call, hw, hstop, hlast, hcall => by
    have hnot := hw hstop call hlast
    rw [hcall] at hnot
    cases hnot
  | bound + 1, w, e, call, hw, hstop, hlast, hcall => by
    rcases htick : e.tick h.recorded s w with ⟨e₁, w₁, flow⟩
    have hsucc : ∀ more, bound + 1 + more = bound + more + 1 :=
      fun more => Nat.add_right_comm bound 1 more
    rw [worldAfter_succ bound htick] at hstop hlast ⊢
    cases hend : flow.ending e₁ with
    | some r =>
      rw [hend] at hstop hlast
      obtain ⟨outcome, e', u, hend', hu, hends⟩ := endsAtCall_tick hw htick hstop hlast hcall
      refine ⟨outcome, e', u, fun more => ?_, hu, hends⟩
      rw [hsucc, run_succ (bound + more) htick, hend']
      rfl
    | none =>
      rw [hend] at hstop hlast
      -- a tick that goes on has not overlooked a request
      have hw₁ : Unrequested w₁ := by
        intro hstop₁ call₁ hlast₁
        cases hcall₁ : call₁.heeded with
        | false => rfl
        | true =>
          obtain ⟨_, _, _, hend', -⟩ := endsAtCall_tick hw htick hstop₁ hlast₁ hcall₁
          rw [hend] at hend'
          cases hend'
      obtain ⟨outcome, e', u, hrun, hu, hends⟩ := endsAtCall_run bound hw₁ hstop hlast hcall
      refine ⟨outcome, e', u, fun more => ?_, hu, hends⟩
      rw [hsucc, run_succ (bound + more) htick, hend]
      exact hrun more

/--
**A request to stop ends all calls to the host.**

Take any linked routine and any setting, and a thread in any state that it can get into.

A thread that is asked to stop between two steps is silent from then on, unless it is over; it is
over after a step exactly if that has said so, and then all later steps say so too. Now let the
thread be asked to stop during a step: a block is run, a primitive is called or a result is looked
for, and after this call, the last one recorded, there is a request. Then the step ends with the
call. It is stopped, or it gives way if the result of the call is still to come; and the thread is
silent from then on.
-/
theorem silent_of_request {entry : Linked} {s : Setting} {e : Execution}
    (he : (Execution.start entry).Visits s e) :
    (¬ e.Over → e.Silent s) ∧ (e.Over → e.Settled s .finished)
      ∧ (∀ (σ : Type) (h : Host σ) (bound : Nat) (w w' : World σ) (outcome : Outcome)
        (e' : Execution), e.step h s bound w = some (outcome, w', e') →
        (outcome = .finished ↔ e'.Over))
      ∧ ∀ (σ : Type) (h : Host σ) (bound : Nat) (w w' : σ) (seen : List Observation)
        (call : HostEvent), e.IsOn → call.heeded = true →
        worldAfter h.recorded s bound ⟨(w, []), false⟩ e = ⟨(w', seen ++ [.called call]), true⟩ →
          ∃ outcome e' u,
            (∀ more, e.step h.recorded s (bound + more) ⟨(w, []), false⟩
              = some (outcome, ⟨(w', seen ++ [.called call]), true⟩, e'))
            ∧ w' = (h.afterCall ⟨u, false⟩ call).host ∧ EndsAtCall h u call outcome e'
            ∧ e'.Silent s := by
  have hempty := he.stoppedEmpty (fun hstopped => by cases hstopped)
  refine ⟨hempty.silent, Over.settled,
    fun σ h bound w w' outcome e' hstep => (hempty.step hstep).1, ?_⟩
  intro σ h bound w w' seen call ⟨hframes, hstopped⟩ hcall hworld
  have hstep : ∀ more, e.step h.recorded s (bound + more) ⟨(w, []), false⟩
      = e.run h.recorded s (bound + more) ⟨(w, []), false⟩ := by
    intro more
    simp [step, hstopped, hframes]
  have hrun : ∃ outcome e' u, (∀ more, e.run h.recorded s (bound + more) ⟨(w, []), false⟩
        = some (outcome, worldAfter h.recorded s bound ⟨(w, []), false⟩ e, e'))
      ∧ (worldAfter h.recorded s bound ⟨(w, []), false⟩ e).host.1
        = (h.afterCall ⟨u, false⟩ call).host
      ∧ EndsAtCall h u call outcome e' :=
    endsAtCall_run bound (fun hstop => by cases hstop) (by rw [hworld]) (by simp [hworld]) hcall
  rw [hworld] at hrun
  obtain ⟨outcome, e', u, hrun, hu, hends⟩ := hrun
  obtain ⟨hfinished, hempty'⟩ := hempty.step ((hstep 0).trans (hrun 0))
  -- the step has not finished, since a call was made in its last tick
  have hover : ¬ e'.Over := by
    rw [← hfinished]
    rintro rfl
    unfold EndsAtCall at hends
    split at hends <;> cases hends.1
  exact ⟨outcome, e', u, fun more => (hstep more).trans (hrun more), hu, hends,
    hempty'.silent hover⟩

/-- A routine that speaks, and then reads a variable. -/
def speakerImage : Image where
  name := "speaker"
  ops := [.push (.text "hi"), .callHost 0 1, .drop, .getVariable "x", .drop, .ret]
  host := ["looks_say"]

/-- A host that takes its time to speak, and meanwhile asks the thread to stop. -/
def hasty : ScriptedHost := { slow := [("looks_say", 2)], stopOn := ["looks_say"] }

theorem silent_of_request_speaker :
    ∃ l w e', speakerImage.link .standard = .ok l
      ∧ (Execution.start l).step ScriptedHost.host.recorded {} 10 ⟨(hasty, []), false⟩
        = some (.yielded .blocking,
          ⟨(w, [.called (.primitive "looks_say" [.text "hi"])]), true⟩, e')
      ∧ e'.Silent {} := by
  have hrun : ((speakerImage.link .standard).toOption.bind fun l =>
      ((Execution.start l).step ScriptedHost.host.recorded {} 10 ⟨(hasty, []), false⟩).map fun r =>
        let w := worldAfter ScriptedHost.host.recorded {} 10 ⟨(hasty, []), false⟩
          (Execution.start l)
        (r.1, w.stop, decide (w.host.2 = [.called (.primitive "looks_say" [.text "hi"])])))
      = some (.yielded .blocking, true, true) := by
    decide +kernel
  obtain ⟨l, hl, hrun⟩ := Option.bind_eq_some_iff.mp hrun
  obtain ⟨r, hstep, houtcome⟩ := Option.map_eq_some_iff.mp hrun
  simp only [Prod.mk.injEq, decide_eq_true_eq] at houtcome
  obtain ⟨houtcome, hstop, hseen⟩ := houtcome
  generalize hw : worldAfter ScriptedHost.host.recorded {} 10 ⟨(hasty, []), false⟩
    (Execution.start l)
    = w at hstop hseen
  obtain ⟨⟨u, seen⟩, stop⟩ := w
  cases hstop
  cases hseen
  obtain ⟨outcome, e', -, hends, -, -, hsilent⟩ :=
    (silent_of_request .start).2.2.2 _ _ 10 hasty u []
    (.primitive "looks_say" [.text "hi"]) ⟨by simp [Execution.start], rfl⟩ rfl hw
  rw [hends 0] at hstep
  cases hstep
  cases houtcome
  exact ⟨l, u, e', eq_ok_of_toOption hl, hends 0, hsilent⟩

end Execution

end BlockScript
