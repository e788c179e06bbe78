import BlockScript.Proofs.Stopping
import Mathlib.Logic.Function.Iterate

/-!
# Threads that go on whatever comes of their steps

A thread is resumed after it has given way, and a step that has failed is followed by another one.
`Execution.history` is what has come of such steps, one after the other.

Steps are made of ticks, and what a tick does to the frames and to the outside is a *move*, in which
the number of ticks so far plays no part (`Execution.move_of_tick`). A thread may be hindered: it is
asked to stop, or it is told that it has had all its ticks.

Main statements: what has come of the steps of a thread that is not hindered has come of moves
(`Execution.exists_moves_history`), and a thread whose ticks are not limited is hindered only if the
host asks it to stop (`Execution.unhindered_history`).
-/

namespace BlockScript

variable {σ : Type}

/-- The outside after a step: if the thread has given way, until it is resumed. -/
def Outside.after (o : Outside σ) : Outcome → σ → σ
  | .yielded kind, w => o.resume kind w
  | .finished, w | .stopped, w | .failed _, w => w

/-- What has come of some steps. -/
structure History (σ : Type) where
  /-- The world now, also if it is in the middle of a step. -/
  world : World σ
  /-- The thread when the last step had ended. -/
  thread : Execution
  /-- The outcomes of the steps that have ended. -/
  outcomes : List Outcome

/-- The thread was neither asked to stop nor told that it has had all its ticks. -/
def History.Unhindered (r : History σ) : Prop :=
  r.world.stop = false ∧ ∀ max names, .failed ⟨.stepLimitExceeded max, names⟩ ∉ r.outcomes

namespace Execution

variable {o : Outside σ} {s : Setting} {f : Frame} {frames callers : List Frame}

/-- Steps, one after the other, each of at most `bound` ticks. After a step the next one follows,
whatever its outcome was. -/
def history (o : Outside σ) (s : Setting) (bound : Nat) :
    (steps : Nat) → World σ → Execution → History σ
  | 0, w, e => ⟨w, e, []⟩
  | steps + 1, w, e =>
    match step o.host s bound w e with
    | none => ⟨worldAfter o.host s bound w e, e, []⟩
    | some (outcome, w, e) =>
      let r := history o s bound steps ⟨o.after outcome w.host, w.stop⟩ e
      { r with outcomes := outcome :: r.outcomes }

/-- The outside after a tick: if the thread has given way, until it is resumed. -/
def afterFlow (o : Outside σ) : Flow → σ → σ
  | .suspend kind, w => o.resume kind w
  | .next, w | .finished, w | .stopped, w | .fail _, w => w

/-- The frames of a thread and its outside after one more tick. A thread with too high a stack stays
as it is; the number of ticks is not limited. -/
def move (o : Outside σ) (s : Setting) (x : List Frame × σ) : List Frame × σ :=
  match ({ frames := x.1 } : Execution).stackFault? s.limits with
  | some _ => x
  | none =>
    let d := dispatch o.host s ⟨x.2, false⟩ x.1
    (d.1, afterFlow o d.2.2 d.2.1.host)

theorem afterFlow_of_ending {flow : Flow} {e e' : Execution} {outcome : Outcome}
    (h : flow.ending e = some (outcome, e')) (w : σ) : afterFlow o flow w = o.after outcome w := by
  cases flow with
  | next => cases h
  | suspend | finished | stopped | fail =>
    cases h
    rfl

/-- The innermost stack is not too high. -/
def Fits (limits : Limits) (frames : List Frame) : Prop :=
  ({ frames := frames } : Execution).stackFault? limits = none

theorem fits_cons_iff {limits : Limits} :
    Fits limits (f :: callers) ↔ f.stack.size ≤ limits.maxStackSize := by
  simp [Fits, stackFault?]

theorem Fits.move (hfits : Fits s.limits frames) (w : σ) :
    move o s (frames, w) = ((dispatch o.host s ⟨w, false⟩ frames).1,
      afterFlow o (dispatch o.host s ⟨w, false⟩ frames).2.2
        (dispatch o.host s ⟨w, false⟩ frames).2.1.host) := by
  unfold Execution.move
  dsimp only
  rw [hfits]

theorem move_of_not_fits (hfits : ¬ Fits s.limits frames) (w : σ) :
    move o s (frames, w) = (frames, w) := by
  obtain ⟨fault, hfault⟩ := Option.ne_none_iff_exists'.mp hfits
  unfold move
  dsimp only
  rw [hfault]

/-- **A tick is a move**, unless the thread has had all its ticks. -/
theorem move_of_tick {w : σ} {w₁ : World σ} {e e₁ : Execution} {flow : Flow}
    (htick : e.tick o.host s ⟨w, false⟩ = (e₁, w₁, flow)) :
    (∃ max, flow = .fail (.stepLimitExceeded max))
      ∨ move o s (e.frames, w) = (e₁.frames, afterFlow o flow w₁.host) := by
  have hfault : ({ e with ticks := e.ticks + 1 } : Execution).stackFault? s.limits
      = ({ frames := e.frames } : Execution).stackFault? s.limits := rfl
  have hlimit : (∃ max, ({ e with ticks := e.ticks + 1 } : Execution).limitFault? s.limits
        = some (.stepLimitExceeded max))
      ∨ ({ e with ticks := e.ticks + 1 } : Execution).limitFault? s.limits
        = ({ frames := e.frames } : Execution).stackFault? s.limits := by
    rw [limitFault?, hfault]
    split
    · split
      · exact Or.inl ⟨_, rfl⟩
      · exact Or.inr rfl
    · exact Or.inr rfl
  unfold tick at htick
  dsimp only at htick
  rcases hlimit with ⟨max, hlimit⟩ | hlimit
  · rw [hlimit] at htick
    cases htick
    exact Or.inl ⟨max, rfl⟩
  · refine Or.inr ?_
    rw [hlimit] at htick
    unfold move
    dsimp only
    cases hstack : ({ frames := e.frames } : Execution).stackFault? s.limits with
    | some fault =>
      rw [hstack] at htick
      cases htick
      rfl
    | none =>
      rw [hstack] at htick
      cases htick
      rfl

/-- The next tick comes to no limit. -/
def Free (limits : Limits) (e : Execution) : Prop :=
  Fits limits e.frames ∧ ∀ max, limits.maxSteps = some max → e.ticks < max

theorem limitFault?_eq_none_iff {limits : Limits} {e : Execution} :
    ({ e with ticks := e.ticks + 1 } : Execution).limitFault? limits = none ↔ Free limits e := by
  have hfits : ({ e with ticks := e.ticks + 1 } : Execution).stackFault? limits = none
      ↔ Fits limits e.frames := Iff.rfl
  unfold limitFault? Free
  rw [← hfits]
  cases limits.maxSteps with
  | none => simp
  | some max =>
    simp only [Option.some.injEq, forall_eq']
    split
    · simp
      omega
    · simp
      omega

theorem Free.tick {e : Execution} (hfree : Free s.limits e) (h : Host σ) (w : World σ) :
    e.tick h s w = ({ e with frames := (dispatch h s w e.frames).1, ticks := e.ticks + 1 },
      (dispatch h s w e.frames).2) := by
  unfold Execution.tick
  dsimp only
  rw [limitFault?_eq_none_iff.mpr hfree]

theorem stop_of_tick_stopped {h : Host σ} {w w₁ : World σ} {e e₁ : Execution}
    (htick : e.tick h s w = (e₁, w₁, .stopped)) : w₁.stop = true := by
  rcases tick_cases (h := h) (s := s) w e with ⟨e', fault, -, -, heq⟩ | ⟨e', -, -, heq⟩
  · rw [htick] at heq
    cases heq
  · rw [htick] at heq
    have hdispatch : (w₁, Flow.stopped) = (dispatch h s w e.frames).2 := (Prod.mk.inj heq).2
    have hstop := stop_of_dispatch_stopped (h := h) (s := s) (w := w) e.frames
    rw [← hdispatch] at hstop
    exact hstop rfl

/-- The ticks of a step that has an outcome are moves. -/
theorem moves_of_run :
    ∀ (bound : Nat) {w : σ} {w' : World σ} {e e' : Execution} {outcome : Outcome},
    e.stopped = false → e.run o.host s bound ⟨w, false⟩ = some (outcome, w', e') → w'.stop = false →
    (∀ max names, outcome ≠ .failed ⟨.stepLimitExceeded max, names⟩) →
    e'.stopped = false
      ∧ ∃ k, 1 ≤ k ∧ (move o s)^[k] (e.frames, w) = (e'.frames, o.after outcome w'.host)
  | 0, _, _, _, _, _, _, hrun, _, _ => by cases hrun
  | bound + 1, w, w', e, e', outcome, hstopped, hrun, hstop, hlimit => by
    rcases htick : e.tick o.host s ⟨w, false⟩ with ⟨e₁, w₁, flow⟩
    have hstopped₁ := tick_stopped (h := o.host) (s := s) (w := ⟨w, false⟩) e
    rw [htick, hstopped] at hstopped₁
    rw [run_succ bound htick] at hrun
    cases hend : flow.ending e₁ with
    | none =>
      rw [hend] at hrun
      dsimp only at hrun
      have hnext : flow = .next := by
        cases flow with
        | next => rfl
        | suspend | finished | stopped | fail => cases hend
      subst hnext
      have hw₁ : w₁ = ⟨w₁.host, false⟩ := by
        refine World.eq_of_stop ?_
        cases hstop₁ : w₁.stop with
        | false => rfl
        | true => cases hstop.symm.trans (run_keeps (keeps_stop o.host) bound hstop₁ hrun)
      rw [hw₁] at hrun
      obtain ⟨hstopped', k, hk, hmoves⟩ := moves_of_run bound hstopped₁ hrun hstop hlimit
      refine ⟨hstopped', k + 1, by omega, ?_⟩
      rcases move_of_tick htick with ⟨max, hmax⟩ | hmove
      · cases hmax
      · rw [Function.iterate_succ_apply, hmove]
        exact hmoves
    | some r =>
      rw [hend] at hrun
      obtain ⟨outcome', e₂⟩ := r
      cases hrun
      refine ⟨?_, 1, Nat.le_refl 1, ?_⟩
      · cases flow with
        | next => cases hend
        | stopped => cases hstop.symm.trans (stop_of_tick_stopped htick)
        | suspend | finished | fail =>
          cases hend
          exact hstopped₁
      · rcases move_of_tick htick with ⟨max, rfl⟩ | hmove
        · cases hend
          exact absurd rfl (hlimit max e'.callStack)
        · have hframes : e'.frames = e₁.frames := by
            cases flow with
            | next => cases hend
            | stopped => cases hstop.symm.trans (stop_of_tick_stopped htick)
            | suspend | finished | fail =>
              cases hend
              rfl
          rw [Function.iterate_one, hmove, afterFlow_of_ending hend, hframes]

/-- The ticks of a step that has had all of them are moves. -/
theorem moves_of_run_eq_none : ∀ (bound : Nat) {w : σ} {e : Execution},
    e.run o.host s bound ⟨w, false⟩ = none → (worldAfter o.host s bound ⟨w, false⟩ e).stop = false →
    ((move o s)^[bound] (e.frames, w)).2 = (worldAfter o.host s bound ⟨w, false⟩ e).host
  | 0, _, _, _, _ => rfl
  | bound + 1, w, e, hrun, hstop => by
    rcases htick : e.tick o.host s ⟨w, false⟩ with ⟨e₁, w₁, flow⟩
    rw [run_succ bound htick] at hrun
    rw [worldAfter, htick] at hstop ⊢
    cases flow with
    | suspend | finished | stopped | fail => cases hrun
    | next =>
      dsimp only at hstop ⊢
      have hw₁ : w₁ = ⟨w₁.host, false⟩ := by
        refine World.eq_of_stop ?_
        cases hstop₁ : w₁.stop with
        | false => rfl
        | true => cases hstop.symm.trans (worldAfter_keeps (keeps_stop o.host) bound hstop₁)
      rcases move_of_tick htick with ⟨max, hmax⟩ | hmove
      · cases hmax
      · rw [Function.iterate_succ_apply, hmove]
        rw [hw₁] at hrun hstop ⊢
        exact moves_of_run_eq_none bound hrun hstop

theorem history_of_stop {bound : Nat} : ∀ (steps : Nat) {w : World σ} (e : Execution),
    w.stop = true → (history o s bound steps w e).world.stop = true
  | 0, _, _, hw => hw
  | steps + 1, w, e, hw => by
    have hstep : ∃ outcome e', step o.host s bound w e = some (outcome, w, e') := by
      unfold step
      split
      · exact ⟨_, _, rfl⟩
      · split
        · exact ⟨_, _, rfl⟩
        · exact ⟨_, _, rfl⟩
    obtain ⟨outcome, e', hstep⟩ := hstep
    rw [history, hstep]
    exact history_of_stop steps e' hw

theorem move_nil (w : σ) : move o s ([], w) = ([], w) := rfl

/-- **What has come of steps has come of moves**, and of the more of them the more steps and ticks
there were. -/
theorem exists_moves_history {bound : Nat} : ∀ (steps : Nat) {w : σ} {e : Execution},
    e.stopped = false → (history o s bound steps ⟨w, false⟩ e).Unhindered →
    ∃ k, min bound steps ≤ k
      ∧ ((move o s)^[k] (e.frames, w)).2 = (history o s bound steps ⟨w, false⟩ e).world.host
  | 0, _, _, _, _ => ⟨0, Nat.min_le_right _ _, rfl⟩
  | steps + 1, w, e, hstopped, hquiet => by
    rw [history] at hquiet ⊢
    by_cases hempty : e.frames = []
    · have hstep : step o.host s bound ⟨w, false⟩ e = some (.finished, ⟨w, false⟩, e) := by
        simp [step, hstopped, hempty]
      rw [hstep] at hquiet ⊢
      obtain ⟨k, hk, hmoves⟩ := exists_moves_history steps hstopped
        ⟨hquiet.1, fun max names h => hquiet.2 max names (List.mem_cons_of_mem _ h)⟩
      refine ⟨k + 1, by omega, ?_⟩
      rw [hempty] at hmoves ⊢
      rw [Function.iterate_succ_apply, move_nil]
      exact hmoves
    have hstep : step o.host s bound ⟨w, false⟩ e = run o.host s bound ⟨w, false⟩ e := by
      simp [step, hstopped, hempty]
    rw [hstep] at hquiet ⊢
    cases hrun : run o.host s bound ⟨w, false⟩ e with
    | none =>
      rw [hrun] at hquiet
      exact ⟨bound, Nat.min_le_left _ _, moves_of_run_eq_none bound hrun hquiet.1⟩
    | some r =>
      obtain ⟨outcome, w', e'⟩ := r
      rw [hrun] at hquiet
      obtain ⟨hworld, houtcomes⟩ := hquiet
      dsimp only at hworld houtcomes
      have hstop : w'.stop = false := by
        cases hstop : w'.stop with
        | false => rfl
        | true => cases hworld.symm.trans (history_of_stop steps e' hstop)
      rw [hstop] at hworld houtcomes
      obtain ⟨hstopped', k₁, hk₁, hmoves₁⟩ := moves_of_run bound hstopped hrun hstop
        fun max names h => houtcomes max names (h ▸ List.mem_cons_self)
      obtain ⟨k₂, hk₂, hmoves₂⟩ := exists_moves_history steps hstopped'
        ⟨hworld, fun max names h => houtcomes max names (List.mem_cons_of_mem _ h)⟩
      refine ⟨k₂ + k₁, by omega, ?_⟩
      rw [Function.iterate_add_apply, hmoves₁, hmoves₂]
      dsimp only
      rw [hstop]

end Execution

/-! ## Threads that nothing hinders -/

/-- The fault is found before an instruction is executed: there were too many ticks, or the
innermost stack is too high. -/
def Fault.IsForeseen : Fault → Prop
  | .stackLimitExceeded _ | .stepLimitExceeded _ => True
  | _ => False

namespace Frame

variable {h : Host σ} {w : World σ}

/-- If the instruction has failed, this could not be foreseen. -/
def Unforeseen (r : Frame × World σ × Effect) : Prop :=
  ∀ fault, r.2.2 = .fail fault → ¬ fault.IsForeseen

/-- **No instruction fails for a reason that is looked for before it.** -/
theorem unforeseen_exec (f : Frame) (s : Setting) (callers : List Frame) (op : Instr) :
    Unforeseen (f.exec h s callers w op) := by
  intro fault hfail hforeseen
  obtain ⟨stack, hfault, -⟩ := exists_faults_of_exec hfail
  cases hfault <;> exact hforeseen

end Frame

namespace Execution

variable {o : Outside σ} {s : Setting} {h : Host σ}

theorem unforeseen_dispatch {w : World σ} (frames : List Frame) {fault : Fault}
    (hfault : (dispatch h s w frames).2.2 = .fail fault) : ¬ fault.IsForeseen := by
  obtain ⟨f, callers, -, -, ⟨-, rfl⟩ | ⟨op, -, hexec⟩⟩ := exists_exec_of_dispatch hfault
  · exact id
  · exact f.unforeseen_exec s callers op fault hexec

/-- A thread is told that it has had all its ticks only if they are limited. -/
theorem maxSteps_of_tick {w w₁ : World σ} {e e₁ : Execution} {max : Nat}
    (htick : e.tick h s w = (e₁, w₁, .fail (.stepLimitExceeded max))) :
    s.limits.maxSteps = some max := by
  unfold tick at htick
  dsimp only at htick
  split at htick
  · next fault hfault =>
    cases htick
    unfold limitFault? stackFault? at hfault
    cases hmax : s.limits.maxSteps with
    | none =>
      rw [hmax] at hfault
      dsimp only at hfault
      split at hfault
      · cases hfault
      · split at hfault <;> cases hfault
    | some max' =>
      rw [hmax] at hfault
      dsimp only at hfault
      split at hfault
      · cases hfault
        rfl
      · split at hfault
        · cases hfault
        · split at hfault <;> cases hfault
  · have hflow : (dispatch h s w e.frames).2.2 = .fail (.stepLimitExceeded max) :=
      congrArg (fun r => r.2.2) htick
    exact absurd trivial (unforeseen_dispatch e.frames hflow)

theorem maxSteps_of_run {bound max : Nat} {names : List String} {w w' : World σ} {e e' : Execution}
    (hrun : e.run h s bound w = some (.failed ⟨.stepLimitExceeded max, names⟩, w', e')) :
    s.limits.maxSteps = some max := by
  obtain ⟨w₁, e₁, e₂, flow, -, htick, hend⟩ :=
    exists_last_tick (R := fun _ _ => True) (fun _ _ => trivial) bound trivial hrun
  cases flow with
  | fail fault =>
    cases hend
    exact maxSteps_of_tick htick
  | next | suspend | finished | stopped => cases hend

/-- **A thread whose ticks are not limited is not hindered**, unless the host asks it to stop. -/
theorem unhindered_history {P : World σ → Prop} (hP : o.host.Keeps P)
    (hresume : ∀ kind w, P w → P ⟨o.resume kind w.host, w.stop⟩) (hstop : ∀ w, P w → w.stop = false)
    (hmax : s.limits.maxSteps = none) (bound : Nat) :
    ∀ (steps : Nat) {w : World σ} (e : Execution), P w → (history o s bound steps w e).Unhindered
  | 0, w, e, hw => ⟨hstop w hw, fun _ _ h => by cases h⟩
  | steps + 1, w, e, hw => by
    rw [history]
    cases hstep : step o.host s bound w e with
    | none => exact ⟨hstop _ (worldAfter_keeps hP bound hw), fun _ _ h => by cases h⟩
    | some r =>
      obtain ⟨outcome, w', e'⟩ := r
      have hkept : P w' ∧ ∀ max names, outcome ≠ .failed ⟨.stepLimitExceeded max, names⟩ := by
        unfold step at hstep
        split_ifs at hstep
        · cases hstep
          exact ⟨hw, by simp⟩
        · cases hstep
          exact ⟨hw, by simp⟩
        · cases hstep
          exact ⟨hw, by simp⟩
        · refine ⟨run_keeps hP bound hw hstep, ?_⟩
          rintro max names rfl
          cases hmax.symm.trans (maxSteps_of_run hstep)
      obtain ⟨hw', houtcome⟩ := hkept
      have hafter : P ⟨o.after outcome w'.host, w'.stop⟩ := by
        cases outcome with
        | yielded kind => exact hresume kind w' hw'
        | finished | stopped | failed => exact hw'
      obtain ⟨hlater, houtcomes⟩ := unhindered_history hP hresume hstop hmax bound steps e' hafter
      refine ⟨hlater, fun max names hmem => ?_⟩
      rcases List.mem_cons.mp hmem with heq | hmem
      · exact houtcome max names heq.symm
      · exact houtcomes max names hmem

end Execution

end BlockScript
