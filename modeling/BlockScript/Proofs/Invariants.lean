import BlockScript.Proofs.Ticks

/-!
# What holds of every frame of a run

A thread consists of frames, and a tick works on the innermost one only. So a property of frames
that each instruction keeps holds of all frames that the thread ever has. A `FrameInvariant` is such
a property, along with what it says about the faults that a frame with the property can have.

What is proved of one instruction is here carried to ticks (`FrameInvariant.tick`), to steps
(`FrameInvariant.step`) and to all that a thread can get into (`FrameInvariant.visits`).
-/

namespace BlockScript

/-- What an instruction leaves has a property: its frame, and the frame that it enters. If it has
failed, the fault is one that the frame admits. -/
def Frame.After {σ : Type} (Holds : Frame → Prop) (Admits : Frame → Fault → Prop)
    (r : Frame × World σ × Effect) : Prop :=
  match r.2.2 with
  | .leave => True
  | .enter callee args => Holds r.1 ∧ Holds (Frame.start callee args)
  | .fail fault => Holds r.1 ∧ Admits r.1 fault
  | .next | .nextUnlessStopped | .suspend _ => Holds r.1

/-- A property of frames that instructions keep, and the faults that they can have meanwhile. -/
structure FrameInvariant (s : Setting) where
  Holds : Frame → Prop
  Admits : Frame → Fault → Prop
  /-- A frame that waits for nothing stands at an instruction, which keeps the property. -/
  exec : ∀ {σ : Type} (h : Host σ) (callers : List Frame) (w : World σ) {f : Frame}, Holds f →
    f.pending = none → ∃ op, f.routine.code[f.pc]? = some op
      ∧ Frame.After Holds Admits (f.exec h s callers w op)
  /-- The result that a frame has waited for keeps the property. -/
  resume : ∀ {f : Frame} {id : PendingId} (v : Value), Holds f → f.pending = some id →
    Holds ({ f with pending := none }.push v).advance

namespace Execution

/-- The states that a thread can get into from a first one: between its steps, of which any number
may have had any outcome, and also within a step. Each step may have a host of its own. -/
inductive Visits (s : Setting) (start : Execution) : Execution → Prop
  | start : Visits s start start
  | step {σ : Type} {e e' : Execution} {outcome : Outcome} {w w' : World σ} (h : Host σ)
    (bound : Nat) (before : Visits s start e) (done : e.step h s bound w = some (outcome, w', e')) :
    Visits s start e'
  | tick {σ : Type} {e : Execution} (h : Host σ) (w : World σ) (before : Visits s start e) :
    Visits s start (e.tick h s w).1

end Execution

namespace FrameInvariant

variable {σ : Type} {s : Setting} {h : Host σ} {w : World σ}

/-- All frames of a thread have the property. -/
def HoldsOf (I : FrameInvariant s) (e : Execution) : Prop := ∀ f ∈ e.frames, I.Holds f

/-- The fault is a limit, or one that the innermost frame admits. -/
def Explains (I : FrameInvariant s) (frames : List Frame) (fault : Fault) : Prop :=
  fault.IsLimit ∨ ∃ f, frames.head? = some f ∧ I.Admits f fault

/-- What the effect of an instruction makes of all frames. -/
theorem applyEffect (I : FrameInvariant s) {callers : List Frame}
    (hcallers : ∀ f ∈ callers, I.Holds f) {f : Frame} {effect : Effect}
    (hafter : Frame.After I.Holds I.Admits (f, w, effect)) :
    (∀ g ∈ (Execution.applyEffect w f callers effect).1, I.Holds g)
      ∧ ∀ fault, (Execution.applyEffect w f callers effect).2.2 = .fail fault →
        I.Explains (Execution.applyEffect w f callers effect).1 fault := by
  cases effect with
  | next | suspend =>
    exact ⟨List.forall_mem_cons.mpr ⟨hafter, hcallers⟩, fun _ hfail => by cases hfail⟩
  | nextUnlessStopped =>
    exact ⟨List.forall_mem_cons.mpr ⟨hafter, hcallers⟩,
      fun fault hfail => absurd hfail (Execution.flowAfterCall_ne_fail w fault)⟩
  | enter callee args =>
    exact ⟨List.forall_mem_cons.mpr ⟨hafter.2, List.forall_mem_cons.mpr ⟨hafter.1, hcallers⟩⟩,
      fun _ hfail => by cases hfail⟩
  | leave =>
    refine ⟨hcallers, fun fault hfail => ?_⟩
    simp only [Execution.applyEffect] at hfail
    split at hfail <;> cases hfail
  | fail fault =>
    refine ⟨List.forall_mem_cons.mpr ⟨hafter.1, hcallers⟩, fun fault' hfail => ?_⟩
    cases hfail
    exact Or.inr ⟨f, rfl, hafter.2⟩

theorem dispatch (I : FrameInvariant s) {frames : List Frame} (hframes : ∀ f ∈ frames, I.Holds f) :
    (∀ f ∈ (Execution.dispatch h s w frames).1, I.Holds f)
      ∧ ∀ fault, (Execution.dispatch h s w frames).2.2 = .fail fault →
        I.Explains (Execution.dispatch h s w frames).1 fault := by
  cases frames with
  | nil => exact ⟨hframes, fun _ hfail => by cases hfail⟩
  | cons f callers =>
    obtain ⟨hf, hcallers⟩ := List.forall_mem_cons.mp hframes
    cases hpending : f.pending with
    | none =>
      obtain ⟨op, hop, hafter⟩ := I.exec h callers w hf hpending
      simp only [Execution.dispatch, hpending, hop]
      exact I.applyEffect hcallers hafter
    | some id =>
      simp only [Execution.dispatch, hpending, Execution.pollFrame]
      split
      · next v _ =>
        exact ⟨List.forall_mem_cons.mpr ⟨I.resume v hf hpending, hcallers⟩,
          fun fault hfail => absurd hfail (Execution.flowAfterCall_ne_fail _ fault)⟩
      · exact ⟨hframes, fun _ hfail => by cases hfail⟩

/-- **What instructions keep is kept by ticks.** -/
theorem tick (I : FrameInvariant s) {e : Execution} (he : I.HoldsOf e) :
    I.HoldsOf (e.tick h s w).1
      ∧ ∀ fault, (e.tick h s w).2.2 = .fail fault → I.Explains (e.tick h s w).1.frames fault := by
  rcases Execution.tick_cases (h := h) (s := s) w e with
    ⟨e', fault, hlimit, hframes, heq⟩ | ⟨e', -, hframes, heq⟩
  · rw [heq]
    refine ⟨fun f hf => he f (hframes ▸ hf), fun fault' hfail => ?_⟩
    cases hfail
    exact Or.inl hlimit
  · have hdispatch := I.dispatch (h := h) (w := w) he
    rw [← hframes] at hdispatch
    rw [heq]
    exact hdispatch

theorem run (I : FrameInvariant s) (bound : Nat) {w w' : World σ} {e e' : Execution}
    {outcome : Outcome} (he : I.HoldsOf e) (hrun : e.run h s bound w = some (outcome, w', e')) :
    I.HoldsOf e' ∧ ∀ err, outcome = .failed err → I.Explains e'.frames err.fault := by
  have hnext : ∀ {w w₁ : World σ} {e e₁ : Execution}, I.HoldsOf e →
      e.tick h s w = (e₁, w₁, .next) → I.HoldsOf e₁ := by
    intro w w₁ e e₁ he htick
    have hkept := (I.tick (h := h) (w := w) he).1
    rwa [htick] at hkept
  obtain ⟨w₁, e₁, e₂, flow, he₁, htick, hend⟩ :=
    Execution.exists_last_tick (R := fun _ e => I.HoldsOf e) hnext bound he hrun
  have hlast := I.tick (h := h) (w := w₁) he₁
  rw [htick] at hlast
  cases flow with
  | next => cases hend
  | suspend | finished =>
    cases hend
    exact ⟨hlast.1, fun _ hfail => by cases hfail⟩
  | stopped =>
    cases hend
    exact ⟨fun _ hf => (List.not_mem_nil hf).elim, fun _ hfail => by cases hfail⟩
  | fail fault =>
    cases hend
    refine ⟨hlast.1, fun err hfail => ?_⟩
    cases hfail
    exact hlast.2 fault rfl

/-- **What instructions keep is kept by steps**, and a step fails only for reasons that are
admitted. -/
theorem step (I : FrameInvariant s) {bound : Nat} {w' : World σ} {e e' : Execution}
    {outcome : Outcome} (he : I.HoldsOf e) (hstep : e.step h s bound w = some (outcome, w', e')) :
    I.HoldsOf e' ∧ ∀ err, outcome = .failed err → I.Explains e'.frames err.fault := by
  unfold Execution.step at hstep
  split at hstep
  · cases hstep
    exact ⟨he, fun _ hfail => by cases hfail⟩
  split at hstep
  · cases hstep
    exact ⟨he, fun _ hfail => by cases hfail⟩
  split at hstep
  · cases hstep
    exact ⟨fun _ hf => (List.not_mem_nil hf).elim, fun _ hfail => by cases hfail⟩
  · exact I.run bound he hstep

/-- **What instructions keep holds of every frame that a thread ever has.** -/
theorem visits (I : FrameInvariant s) {start e : Execution} (hstart : I.HoldsOf start)
    (he : start.Visits s e) : I.HoldsOf e := by
  induction he with
  | start => exact hstart
  | step h bound _ hdone ih => exact (I.step ih hdone).1
  | tick h w _ ih => exact (I.tick ih).1

end FrameInvariant

end BlockScript
