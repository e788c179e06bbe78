import BlockScript.Proofs.Refinement
import Mathlib.Logic.Function.Iterate

/-!
# The course of a thread

All steps of a thread, one after the other, are one row of turns: the beginning of a step, where the
thread looks whether it is to stop, and the ticks in it. Limits are left out, so the row does not
depend on how often one looks at it.

Main statement: what is seen of a thread in some steps of some ticks is what is seen of it at one
place of the row, and the more steps and ticks, the later the place
(`Execution.exists_place_watch`); unless the thread has come to a limit.
-/

namespace BlockScript

variable {σ : Type}

/-- The step has come to a limit. -/
def Outcome.IsLimit : Outcome → Prop
  | .failed err => err.fault.IsLimit
  | _ => False

/-- A place on the course of a thread. -/
inductive Place (σ : Type) where
  /-- A step begins. -/
  | ready (frames : List Frame) (w : World σ)
  | inside (frames : List Frame) (w : World σ)
  | ended (outcome : Outcome) (w : World σ)

namespace Place

variable {o : Outside σ} {s : Setting}

/-- The place after a tick. -/
def settle (o : Outside σ) : List Frame × World σ × Flow → Place σ
  | (frames, w, .next) => .inside frames w
  | (frames, w, .suspend kind) => .ready frames ⟨o.resume kind w.host, w.stop⟩
  | (_, w, .finished) => .ended .finished w
  | (_, w, .stopped) => .ended .stopped w
  | (frames, w, .fail fault) => .ended (.failed ⟨fault, frames.map fun f => f.routine.name⟩) w

/-- The next place. -/
def turn (o : Outside σ) (s : Setting) : Place σ → Place σ
  | .ready frames w =>
    if frames.isEmpty then .ended .finished w
    else if w.stop then .ended .stopped w
    else .inside frames w
  | .inside frames w => settle o (Execution.dispatch o.host s w frames)
  | .ended outcome w => .ended outcome w

/-- What is seen of the thread: its world, and how it has ended if it has. -/
def seen : Place σ → World σ × Option Outcome
  | .ready _ w | .inside _ w => (w, none)
  | .ended outcome w => (w, some outcome)

/-- The thread has come to a limit. -/
def Limited : Place σ → Prop
  | .ready _ _ | .inside _ _ => False
  | .ended outcome _ => outcome.IsLimit

/-- The place after a step. -/
def afterStep (o : Outside σ) (w : World σ) (e : Execution) : Outcome → Place σ
  | .yielded kind => .ready e.frames ⟨o.resume kind w.host, w.stop⟩
  | outcome => .ended outcome w

end Place

namespace Execution

open Place

variable {o : Outside σ} {s : Setting}

/-- Ticks of a step that has an outcome. -/
theorem place_of_run : ∀ (bound : Nat) {w w' : World σ} {e e' : Execution} {outcome : Outcome},
    e.stopped = false → run o.host s bound w e = some (outcome, w', e') → outcome.IsLimit
      ∨ ∃ k, 1 ≤ k ∧ (turn o s)^[k] (.inside e.frames w) = afterStep o w' e' outcome
        ∧ (∀ kind, outcome = .yielded kind → e'.stopped = false)
  | 0, _, _, _, _, _, _, hrun => by cases hrun
  | bound + 1, w, w', e, e', outcome, hstopped, hrun => by
    rw [run] at hrun
    rcases tick_cases (h := o.host) (s := s) w e with
      ⟨e₁, fault, hlimit, -, heq⟩ | ⟨e₁, hstopped₁, hframes, heq⟩
    · rw [heq] at hrun
      cases hrun
      exact Or.inl hlimit
    · rw [heq] at hrun
      have hturn : (Place.inside e.frames w).turn o s = settle o (dispatch o.host s w e.frames) :=
        rfl
      generalize dispatch o.host s w e.frames = d at hrun hframes hturn
      obtain ⟨frames, w₁, flow⟩ := d
      dsimp only at hframes
      subst hframes
      rw [hstopped] at hstopped₁
      cases flow with
      | next =>
        refine (place_of_run bound hstopped₁ hrun).imp_right fun hplace => ?_
        obtain ⟨k, hk, hplace, hyielded⟩ := hplace
        refine ⟨k + 1, by omega, ?_, hyielded⟩
        rw [Function.iterate_succ_apply, hturn]
        exact hplace
      | suspend kind =>
        cases hrun
        exact Or.inr ⟨1, Nat.le_refl 1, hturn, fun _ _ => hstopped₁⟩
      | finished | stopped | fail =>
        cases hrun
        exact Or.inr ⟨1, Nat.le_refl 1, hturn, fun _ h => by cases h⟩

/-- Ticks of a step that has had all of them. -/
theorem place_of_run_eq_none : ∀ (bound : Nat) {w : World σ} {e : Execution},
    run o.host s bound w e = none → ∃ frames,
      (turn o s)^[bound] (.inside e.frames w) = .inside frames (worldAfter o.host s bound w e)
  | 0, w, e, _ => ⟨e.frames, rfl⟩
  | bound + 1, w, e, hrun => by
    rw [run] at hrun
    rw [worldAfter]
    rcases tick_cases (h := o.host) (s := s) w e with
      ⟨e₁, fault, hlimit, -, heq⟩ | ⟨e₁, -, hframes, heq⟩
    · rw [heq] at hrun
      cases hrun
    · rw [heq] at hrun ⊢
      have hturn : (Place.inside e.frames w).turn o s = settle o (dispatch o.host s w e.frames) :=
        rfl
      generalize dispatch o.host s w e.frames = d at hrun hframes hturn
      obtain ⟨frames, w₁, flow⟩ := d
      dsimp only at hframes
      subst hframes
      cases flow with
      | next =>
        rw [Function.iterate_succ_apply, hturn]
        exact place_of_run_eq_none bound hrun
      | suspend | finished | stopped | fail => cases hrun

/-- **What is seen of a thread is what is seen at one place of its course**, and the later the more
steps and ticks it was given; unless it has come to a limit. -/
theorem exists_place_watch (bound : Nat) : ∀ (steps : Nat) {w : World σ} {e : Execution},
    e.stopped = false →
    (∃ outcome, (watch o s bound steps w e).2 = some outcome ∧ outcome.IsLimit)
      ∨ ∃ k, watch o s bound steps w e = ((turn o s)^[k] (.ready e.frames w)).seen
        ∧ ((watch o s bound steps w e).2 = none → min bound steps ≤ k)
  | 0, w, e, _ => Or.inr ⟨0, rfl, fun _ => Nat.min_le_right _ _⟩
  | steps + 1, w, e, hstopped => by
    rw [watch]
    have hturn : (Place.ready e.frames w).turn o s = if e.frames.isEmpty then .ended .finished w
        else if w.stop then .ended .stopped w else .inside e.frames w := rfl
    unfold step
    rw [hstopped, if_neg Bool.false_ne_true]
    by_cases hempty : e.frames.isEmpty = true
    · rw [if_pos hempty] at hturn ⊢
      exact Or.inr ⟨1, congrArg seen hturn.symm, fun h => by cases h⟩
    rw [if_neg hempty] at hturn ⊢
    by_cases hstop : w.stop = true
    · rw [if_pos hstop] at hturn ⊢
      exact Or.inr ⟨1, congrArg seen hturn.symm, fun h => by cases h⟩
    rw [if_neg hstop] at hturn ⊢
    cases hrun : run o.host s bound w e with
    | none =>
      obtain ⟨frames, hplace⟩ := place_of_run_eq_none bound hrun
      refine Or.inr ⟨bound + 1, ?_, fun _ => Nat.le_succ_of_le (Nat.min_le_left _ _)⟩
      rw [Function.iterate_succ_apply, hturn, hplace]
      rfl
    | some r =>
      obtain ⟨outcome, w', e'⟩ := r
      rcases place_of_run bound hstopped hrun with hlimit | ⟨k, hk, hplace, hyielded⟩
      · cases outcome with
        | failed err => exact Or.inl ⟨_, rfl, hlimit⟩
        | yielded | finished | stopped => exact hlimit.elim
      · have hplace : (turn o s)^[k + 1] (.ready e.frames w) = afterStep o w' e' outcome := by
          rw [Function.iterate_succ_apply, hturn, hplace]
        cases outcome with
        | yielded kind =>
          refine (exists_place_watch bound steps (hyielded kind rfl)).imp_right fun hlater => ?_
          obtain ⟨k', hseen, hle⟩ := hlater
          refine ⟨k' + (k + 1), ?_, fun hnone => ?_⟩
          · rw [Function.iterate_add_apply, hplace]
            exact hseen
          · have hle := hle hnone
            omega
        | finished | stopped | failed =>
          exact Or.inr ⟨k + 1, congrArg seen hplace.symm, fun h => by cases h⟩

/-- **A thread ends in one way**, in whatever portions its steps are watched. -/
theorem outcome_unique {bound bound' : Nat} : ∀ {steps steps' : Nat} {w : World σ} {e : Execution}
    {outcome outcome' : Outcome}, (watch o s bound steps w e).2 = some outcome →
    (watch o s bound' steps' w e).2 = some outcome' → outcome = outcome'
  | 0, _, _, _, _, _, h, _ => by cases h
  | _ + 1, 0, _, _, _, _, _, h' => by cases h'
  | steps + 1, steps' + 1, w, e, outcome, outcome', h, h' => by
    rw [watch] at h h'
    cases hstep : step o.host s bound w e with
    | none =>
      rw [hstep] at h
      cases h
    | some r =>
      rcases step_cases hstep bound' with hsame | ⟨hnone, -⟩
      · rw [hstep] at h
        rw [hsame] at h'
        obtain ⟨outcome₁, w₁, e₁⟩ := r
        cases outcome₁ with
        | yielded kind => exact outcome_unique h h'
        | finished | stopped | failed =>
          cases h
          cases h'
          rfl
      · rw [hnone] at h'
        cases h'

end Execution

/-! ## Reports along a course -/

namespace Place

variable {o : Outside σ} {s : Setting}

/-- What has been seen of a thread at a place. -/
def report (p : Place (σ × List Observation)) : Report := ⟨p.seen.1.host.2, p.seen.2⟩

theorem report_within_turn (p : Place (σ × List Observation)) :
    p.report.Within (p.turn o.recorded s).report := by
  cases p with
  | ended outcome w => exact .refl _
  | ready frames w =>
    refine ⟨?_, fun h => by cases h⟩
    rw [turn]
    split_ifs <;> exact List.prefix_refl _
  | inside frames w =>
    refine ⟨?_, fun h => by cases h⟩
    have hkeeps : w.host.2 <+: (Execution.dispatch o.recorded.host s w frames).2.1.host.2 :=
      Execution.dispatch_keeps (o.host.recorded_keeps w.host.2) (List.prefix_refl _) frames
    rw [turn]
    generalize Execution.dispatch o.recorded.host s w frames = d at hkeeps
    obtain ⟨frames', w', flow⟩ := d
    cases flow with
    | suspend kind => exact hkeeps.trans (List.prefix_append _ _)
    | next | finished | stopped | fail => exact hkeeps

end Place

namespace Linked

variable {o : Outside σ} {s : Setting} {l : Linked} {w : σ}

/-- The beginning of a thread. -/
def outset (l : Linked) (w : σ) : Place σ := .ready [Frame.start l []] ⟨w, false⟩

/-- What has been seen at each place of the course of a thread. -/
def course (l : Linked) (o : Outside σ) (s : Setting) (w : σ) (k : Nat) : Report :=
  ((Place.turn o.recorded s)^[k] (l.outset (w, []))).report

theorem course_within_succ (k : Nat) : (l.course o s w k).Within (l.course o s w (k + 1)) := by
  rw [course, course, Function.iterate_succ_apply']
  exact Place.report_within_turn _

/-- Whatever is seen of the thread, it comes to no limit. -/
def Unlimited (l : Linked) (o : Outside σ) (s : Setting) (w : σ) : Prop :=
  ∀ bound steps outcome, (l.report o s w bound steps).outcome = some outcome → ¬ outcome.IsLimit

/-- A thread that has ended, and not at a limit, comes to no limit. -/
theorem unlimited_of_report {bound steps : Nat} {outcome : Outcome}
    (h : (l.report o s w bound steps).outcome = some outcome) (hlimit : ¬ outcome.IsLimit) :
    l.Unlimited o s w := by
  intro bound' steps' outcome' h'
  rwa [← Execution.outcome_unique h h']

namespace Unlimited

theorem reachedIn_course (h : l.Unlimited o s w) (bound steps : Nat) :
    Report.ReachedIn (l.course o s w) (min bound steps) (l.report o s w bound steps) := by
  rcases Execution.exists_place_watch (o := o.recorded) (s := s) bound steps (w := ⟨(w, []), false⟩)
    (e := Execution.start l) rfl with ⟨outcome, hwatch, hlimit⟩ | ⟨k, hseen, hle⟩
  · exact absurd hlimit (h bound steps outcome hwatch)
  · refine ⟨k, ?_, hle⟩
    rw [report, hseen]
    rfl

/-- No place on the course is one of a thread that has come to a limit. -/
theorem not_limited (h : l.Unlimited o s w) (k : Nat) :
    ¬ ((Place.turn o.recorded s)^[k] (l.outset (w, []))).Limited := by
  intro hlimited
  cases hk : (Place.turn o.recorded s)^[k] (l.outset (w, [])) with
  | ready | inside =>
    rw [hk] at hlimited
    exact hlimited
  | ended outcome w' =>
    rw [hk] at hlimited
    -- so many steps that the thread is seen to have ended
    have hwithin := Report.within_of_reachedIn course_within_succ (h.reachedIn_course k k)
    rw [Nat.min_self, course, hk] at hwithin
    have hreport := hwithin.2 rfl
    exact h k k outcome (by rw [← hreport]; rfl) hlimited

end Unlimited

end Linked

end BlockScript
