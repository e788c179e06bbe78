import BlockScript.Proofs.Origins
import BlockScript.Proofs.Simulation
import BlockScript.Proofs.Ticks

/-!
# Compiled programs do what they mean

Steps of a run, one after the other, are watched from the outside (`Execution.watch`). What is seen
of the machine is what is seen of an evaluation: each report of the one is the beginning of a report
of the other, and both end in the same way or not at all.

Steps are made of ticks, and ticks are turns as long as the thread is neither asked to stop nor
comes to a limit. So a report of the machine is what has happened up to some turn, and the more
steps and ticks it is given, the later the turn. By `Program.follows_perform` the same holds of
evaluations and their fuel. Both are about the same row of turns.
-/

namespace BlockScript

variable {σ : Type}

theorem World.eq_of_stop {w : World σ} (h : w.stop = false) : w = ⟨w.host, false⟩ := by
  obtain ⟨host, stop⟩ := w
  cases h
  rfl

namespace Execution

variable {P : World σ → Prop} {h : Host σ} {s : Setting}

/-- The world when a step has ended or has had its `bound` ticks. -/
def worldAfter (h : Host σ) (s : Setting) : (bound : Nat) → World σ → Execution → World σ
  | 0, w, _ => w
  | bound + 1, w, e =>
    match tick h s w e with
    | (e, w, .next) => worldAfter h s bound w e
    | (_, w, _) => w

theorem worldAfter_keeps (hP : h.Keeps P) : ∀ (bound : Nat) {w : World σ} {e : Execution}, P w →
    P (worldAfter h s bound w e)
  | 0, _, _, hw => hw
  | bound + 1, w, e, hw => by
    have htick := tick_keeps (s := s) hP hw e
    rw [worldAfter]
    generalize tick h s w e = r at htick
    obtain ⟨e₁, w₁, flow⟩ := r
    cases flow with
    | next => exact worldAfter_keeps hP bound htick
    | suspend | finished | stopped | fail => exact htick

/-- What is seen of steps, one after the other: the world after them, and the outcome of the last
one if that ends the thread. -/
def watch (o : Outside σ) (s : Setting) (bound : Nat) :
    (steps : Nat) → World σ → Execution → World σ × Option Outcome
  | 0, w, _ => (w, none)
  | steps + 1, w, e =>
    match step o.host s bound w e with
    | none => (worldAfter o.host s bound w e, none)
    | some (.yielded kind, w, e) => watch o s bound steps ⟨o.resume kind w.host, w.stop⟩ e
    | some (outcome, w, _) => (w, some outcome)

/-! ## Ticks are turns -/

/-- A thread stops only when it has been asked to. -/
theorem stop_of_dispatch_stopped {w : World σ} (frames : List Frame)
    (hflow : (dispatch h s w frames).2.2 = .stopped) : (dispatch h s w frames).2.1.stop = true := by
  have hcall : ∀ w : World σ, flowAfterCall w = .stopped → w.stop = true := by
    intro w hw
    unfold flowAfterCall at hw
    split at hw
    · assumption
    · cases hw
  unfold dispatch at hflow ⊢
  split at hflow
  · cases hflow
  · next f callers =>
    dsimp only at hflow ⊢
    split at hflow
    · next id _ =>
      unfold pollFrame at hflow ⊢
      dsimp only at hflow ⊢
      split at hflow
      · exact hcall _ hflow
      · cases hflow
    · split at hflow
      · cases hflow
      · next op _ =>
        generalize f.exec h s callers w op = r at hflow ⊢
        obtain ⟨f', w', effect⟩ := r
        cases effect with
        | nextUnlessStopped => exact hcall w' hflow
        | leave =>
          simp only [applyEffect] at hflow
          split at hflow <;> cases hflow
        | next | suspend | enter | fail => cases hflow

/-- Where a thread stands after a step with an outcome that is its own doing. -/
def Ends (o : Outside σ) (w : World σ) (e : Execution) : Outcome → Standing σ → Prop
  | .yielded kind, t => t = .on e.frames (o.resume kind w.host)
  | .finished, t => t = .finished w.host
  | .failed err, t => t = .failed err.fault w.host
  | .stopped, _ => False

variable {o : Outside σ}

/-- The ticks of a step that has an outcome are turns, unless it was asked to stop or has come to a
limit. -/
theorem ends_of_run : ∀ (bound : Nat) {w : σ} {w' : World σ} {e e' : Execution} {outcome : Outcome},
    e.stopped = false → run o.host s bound ⟨w, false⟩ e = some (outcome, w', e') →
    w'.stop = true ∨ (∃ err, outcome = .failed err ∧ err.fault.IsLimit)
      ∨ e'.stopped = false ∧ ∃ k, 1 ≤ k
        ∧ Ends o w' e' outcome ((Standing.on e.frames w).turns o s k)
  | 0, _, _, _, _, _, _, hrun => by cases hrun
  | bound + 1, w, w', e, e', outcome, hstopped, hrun => by
    rw [run] at hrun
    rcases tick_cases (h := o.host) (s := s) ⟨w, false⟩ e with
      ⟨e₁, fault, hlimit, -, heq⟩ | ⟨e₁, hstopped₁, hframes, heq⟩
    · rw [heq] at hrun
      cases hrun
      exact Or.inr (Or.inl ⟨_, rfl, hlimit⟩)
    · rw [heq] at hrun
      have hturn : (Standing.on e.frames w).turn o s
          = Standing.settle o (dispatch o.host s ⟨w, false⟩ e.frames) := rfl
      have hstop := stop_of_dispatch_stopped (h := o.host) (s := s) (w := ⟨w, false⟩) e.frames
      generalize dispatch o.host s ⟨w, false⟩ e.frames = d at hrun hframes hturn hstop
      obtain ⟨frames, ⟨host, stop⟩, flow⟩ := d
      dsimp only at hframes hstop
      rw [hstopped] at hstopped₁
      cases stop with
      | true =>
        refine Or.inl ?_
        cases flow with
        | next => exact run_keeps (keeps_stop o.host) bound rfl hrun
        | suspend | finished | stopped | fail =>
          cases hrun
          rfl
      | false =>
        cases flow with
        | next =>
          have ih := ends_of_run bound hstopped₁ hrun
          rw [hframes] at ih
          refine ih.imp_right fun h => h.imp_right fun hafter => ?_
          obtain ⟨hs, k, hk, hends⟩ := hafter
          refine ⟨hs, k + 1, by omega, ?_⟩
          rw [Standing.turns, hturn]
          exact hends
        | suspend kind =>
          cases hrun
          refine Or.inr (Or.inr ⟨hstopped₁, 1, Nat.le_refl 1, ?_⟩)
          rw [Ends, hframes, Standing.turns, hturn]
          rfl
        | finished | fail =>
          cases hrun
          exact Or.inr (Or.inr ⟨hstopped₁, 1, Nat.le_refl 1, hturn⟩)
        | stopped => cases hstop rfl

/-- The ticks of a step that has had all of them are turns, unless it was asked to stop. -/
theorem turns_of_run_eq_none : ∀ (bound : Nat) {w : σ} {e : Execution},
    run o.host s bound ⟨w, false⟩ e = none →
    (worldAfter o.host s bound ⟨w, false⟩ e).stop = true
      ∨ ∃ frames, (Standing.on e.frames w).turns o s bound
          = .on frames (worldAfter o.host s bound ⟨w, false⟩ e).host
  | 0, w, e, _ => Or.inr ⟨e.frames, rfl⟩
  | bound + 1, w, e, hrun => by
    rw [run] at hrun
    rw [worldAfter]
    rcases tick_cases (h := o.host) (s := s) ⟨w, false⟩ e with
      ⟨e₁, fault, hlimit, -, heq⟩ | ⟨e₁, -, hframes, heq⟩
    · rw [heq] at hrun
      cases hrun
    · rw [heq] at hrun ⊢
      have hturn : (Standing.on e.frames w).turn o s
          = Standing.settle o (dispatch o.host s ⟨w, false⟩ e.frames) := rfl
      generalize dispatch o.host s ⟨w, false⟩ e.frames = d at hrun hframes hturn
      obtain ⟨frames, ⟨host, stop⟩, flow⟩ := d
      dsimp only at hframes
      cases flow with
      | next =>
        cases stop with
        | true => exact Or.inl (worldAfter_keeps (keeps_stop o.host) bound rfl)
        | false =>
          have ih := turns_of_run_eq_none bound hrun
          rw [hframes] at ih
          rw [Standing.turns, hturn]
          exact ih
      | suspend | finished | stopped | fail => cases hrun

/-- A thread that has been asked to stop is seen to be so. -/
theorem watch_of_stop {bound : Nat} {w : World σ} (hw : w.stop = true) (steps : Nat)
    (e : Execution) : (watch o s bound steps w e).1.stop = true := by
  cases steps with
  | zero => exact hw
  | succ steps =>
    have hstep : ∃ outcome e', (outcome = .stopped ∨ outcome = .finished)
        ∧ step o.host s bound w e = some (outcome, w, e') := by
      unfold step
      split
      · exact ⟨_, _, Or.inl rfl, rfl⟩
      · split
        · exact ⟨_, _, Or.inr rfl, rfl⟩
        · exact ⟨_, _, Or.inl rfl, rfl⟩
    obtain ⟨outcome, e', houtcome, hstep⟩ := hstep
    rw [watch, hstep]
    rcases houtcome with rfl | rfl <;> exact hw

/-- What is seen of where a thread stands after `k` turns. -/
def Shows (bound steps k : Nat) (r : World σ × Option Outcome) : Standing σ → Prop
  | .on _ w => r = (⟨w, false⟩, none) ∧ min bound steps ≤ k
  | .finished w => r = (⟨w, false⟩, some .finished)
  | .failed fault w => ∃ names, r = (⟨w, false⟩, some (.failed ⟨fault, names⟩))
  | .stopped _ => False

/-- More steps may be counted if more turns are. -/
theorem Shows.later {bound steps k k' : Nat} {r : World σ × Option Outcome} {t : Standing σ}
    (h : Shows bound steps k r t) (hk : min bound steps ≤ k → min bound (steps + 1) ≤ k') :
    Shows bound (steps + 1) k' r t := by
  cases t with
  | on frames w => exact ⟨h.1, hk h.2⟩
  | finished | stopped | failed => exact h

/-- The thread was seen neither to be asked to stop nor to come to a limit. -/
def Undisturbed (r : World σ × Option Outcome) : Prop :=
  r.1.stop = false ∧ ∀ err, r.2 = some (.failed err) → ¬ err.fault.IsLimit

/-- **What is seen of an undisturbed thread is where it stands after some turns**, and the later the
more steps and ticks it was given. -/
theorem exists_shows_watch {bound : Nat} :
    ∀ (steps : Nat) {w : σ} {e : Execution}, e.stopped = false →
    Undisturbed (watch o s bound steps ⟨w, false⟩ e) →
    ∃ k, Shows bound steps k (watch o s bound steps ⟨w, false⟩ e)
      ((Standing.on e.frames w).turns o s k)
  | 0, w, e, _, _ => ⟨0, rfl, Nat.min_le_right _ _⟩
  | steps + 1, w, e, hstopped, hquiet => by
    rw [watch] at hquiet ⊢
    by_cases hempty : e.frames = []
    · have hstep : step o.host s bound ⟨w, false⟩ e = some (.finished, ⟨w, false⟩, e) := by
        simp [step, hstopped, hempty]
      rw [hstep, hempty]
      exact ⟨1, rfl⟩
    have hstep : step o.host s bound ⟨w, false⟩ e = run o.host s bound ⟨w, false⟩ e := by
      simp [step, hstopped, hempty]
    rw [hstep] at hquiet ⊢
    cases hrun : run o.host s bound ⟨w, false⟩ e with
    | none =>
      rw [hrun] at hquiet
      rcases turns_of_run_eq_none bound hrun with hstop | ⟨frames, hturns⟩
      · cases hquiet.1.symm.trans hstop
      · refine ⟨bound, ?_⟩
        rw [hturns]
        exact ⟨congrArg (·, none) (World.eq_of_stop hquiet.1), Nat.min_le_left _ _⟩
    | some r =>
      obtain ⟨outcome, w', e'⟩ := r
      rw [hrun] at hquiet
      have hends := ends_of_run bound hstopped hrun
      cases outcome with
      | yielded kind =>
        obtain ⟨host, stop⟩ := w'
        cases stop with
        | true => cases hquiet.1.symm.trans (watch_of_stop rfl steps e')
        | false =>
        rcases hends with hstop | ⟨err, herr, -⟩ | ⟨hstopped', k, hk, hturns⟩
        · cases hstop
        · cases herr
        · dsimp only at hquiet ⊢
          obtain ⟨k', hshows⟩ := exists_shows_watch steps hstopped' hquiet
          refine ⟨k + k', ?_⟩
          rw [Standing.turns_add, hturns]
          exact hshows.later (by omega)
      | finished =>
        rcases hends with hstop | ⟨err, herr, -⟩ | ⟨-, k, -, hturns⟩
        · cases hquiet.1.symm.trans hstop
        · cases herr
        · refine ⟨k, ?_⟩
          rw [hturns]
          exact congrArg (·, _) (World.eq_of_stop hquiet.1)
      | stopped =>
        rcases hends with hstop | ⟨err, herr, -⟩ | ⟨-, k, -, hturns⟩
        · cases hquiet.1.symm.trans hstop
        · cases herr
        · exact hturns.elim
      | failed err =>
        rcases hends with hstop | ⟨err', herr, hlimit⟩ | ⟨-, k, -, hturns⟩
        · cases hquiet.1.symm.trans hstop
        · cases herr
          exact absurd hlimit (hquiet.2 _ rfl)
        · refine ⟨k, ?_⟩
          rw [hturns]
          exact ⟨err.callStack, congrArg (·, _) (World.eq_of_stop hquiet.1)⟩

/-! ## Threads that have been seen to end -/

/-- With another number of ticks a step has the same outcome, or it is only on its way there. -/
theorem run_cases :
    ∀ {bound : Nat} {w : World σ} {e : Execution} {r : Outcome × World σ × Execution},
    run h s bound w e = some r → ∀ bound', run h s bound' w e = some r
      ∨ run h s bound' w e = none ∧ ((worldAfter h s bound' w e).stop = true → r.2.1.stop = true)
  | 0, _, _, _, hrun, _ => by cases hrun
  | bound + 1, w, e, r, hrun, 0 => Or.inr ⟨rfl, fun hstop => run_keeps (keeps_stop h) _ hstop hrun⟩
  | bound + 1, w, e, r, hrun, bound' + 1 => by
    rw [run] at hrun ⊢
    rw [worldAfter]
    generalize tick h s w e = t at hrun ⊢
    obtain ⟨e₁, w₁, flow⟩ := t
    cases flow with
    | next => exact run_cases hrun bound'
    | suspend | finished | stopped | fail => exact Or.inl hrun

theorem step_cases {bound : Nat} {w : World σ} {e : Execution} {r : Outcome × World σ × Execution}
    (hstep : step h s bound w e = some r) (bound' : Nat) : step h s bound' w e = some r
      ∨ step h s bound' w e = none
        ∧ ((worldAfter h s bound' w e).stop = true → r.2.1.stop = true) := by
  unfold step at hstep ⊢
  split_ifs at hstep ⊢
  · exact Or.inl hstep
  · exact Or.inl hstep
  · exact Or.inl hstep
  · exact run_cases hstep bound'

/-- **A thread that has ended undisturbed was undisturbed all the time**, in whatever portions its
steps are watched. -/
theorem undisturbed_of_isSome {bound : Nat} : ∀ {steps : Nat} {w : World σ} {e : Execution},
    (watch o s bound steps w e).2.isSome → Undisturbed (watch o s bound steps w e) →
    ∀ bound' steps', Undisturbed (watch o s bound' steps' w e)
  | 0, _, _, hend, _, _, _ => by cases hend
  | steps + 1, w, e, hend, hquiet, bound', 0 => by
    refine ⟨?_, fun _ h => by cases h⟩
    cases hstop : w.stop with
    | false => exact hstop
    | true => cases hquiet.1.symm.trans (watch_of_stop hstop (steps + 1) e)
  | steps + 1, w, e, hend, hquiet, bound', steps' + 1 => by
    rw [watch] at hend hquiet ⊢
    cases hstep : step o.host s bound w e with
    | none =>
      rw [hstep] at hend
      cases hend
    | some r =>
      rw [hstep] at hend hquiet
      obtain ⟨outcome, w', e'⟩ := r
      have hcases := step_cases hstep bound'
      -- the outcome is not disturbed, so the way there is not either
      have hstop : w'.stop = false := by
        cases outcome with
        | yielded kind =>
          cases hstop : w'.stop with
          | false => rfl
          | true =>
            dsimp only at hquiet
            rw [hstop] at hquiet
            cases hquiet.1.symm.trans (watch_of_stop rfl steps e')
        | finished | stopped | failed => exact hquiet.1
      rcases hcases with hsame | ⟨hnone, hworld⟩
      · rw [hsame]
        cases outcome with
        | yielded kind => exact undisturbed_of_isSome hend hquiet bound' steps'
        | finished | stopped | failed => exact hquiet
      · rw [hnone]
        refine ⟨?_, fun _ h => by cases h⟩
        cases hstop' : (worldAfter o.host s bound' w e).stop with
        | false => rfl
        | true => cases hstop.symm.trans (hworld hstop')

end Execution

/-! ## What has been seen is never taken back -/

theorem Host.recorded_keeps (h : Host σ) (seen : List Observation) :
    h.recorded.Keeps fun w => seen <+: w.host.2 := by
  constructor
  all_goals
    intros
    exact List.IsPrefix.trans ‹_› (List.prefix_append _ _)

/-- The first report is a part of the second: if it says how the run has ended, the two are the
same. -/
def Report.Within (a b : Report) : Prop := a.seen <+: b.seen ∧ (a.outcome.isSome → a = b)

namespace Standing

variable {o : Outside σ} {s : Setting}

/-- What has been seen of a thread that stands somewhere. -/
def report : Standing (σ × List Observation) → Report
  | .on _ w => ⟨w.2, none⟩
  | .finished w => ⟨w.2, some .finished⟩
  | .stopped w => ⟨w.2, some .stopped⟩
  | .failed fault w => ⟨w.2, some (.failed ⟨fault, []⟩)⟩

/-- What has been seen of a thread after some turns. -/
def reportAfter (o : Outside σ) (s : Setting) (t : Standing (σ × List Observation)) (k : Nat) :
    Report :=
  (t.turns o.recorded s k).report

theorem report_within_turn (t : Standing (σ × List Observation)) :
    t.report.Within (t.turn o.recorded s).report := by
  cases t with
  | finished w | stopped w | failed fault w => exact ⟨List.prefix_refl _, fun _ => rfl⟩
  | on frames w =>
    refine ⟨?_, fun h => by cases h⟩
    have hkeeps : w.2 <+: (Execution.dispatch o.recorded.host s ⟨w, false⟩ frames).2.1.host.2 :=
      Execution.dispatch_keeps (o.host.recorded_keeps w.2) (List.prefix_refl _) frames
    rw [turn]
    generalize Execution.dispatch o.recorded.host s ⟨w, false⟩ frames = d at hkeeps
    obtain ⟨frames', w', flow⟩ := d
    simp only [settle]
    split
    · exact hkeeps
    · cases flow with
      | suspend kind => exact hkeeps.trans (List.prefix_append _ _)
      | next | finished | stopped | fail => exact hkeeps

theorem reportAfter_within_succ (t : Standing (σ × List Observation)) (k : Nat) :
    (t.reportAfter o s k).Within (t.reportAfter o s (k + 1)) := by
  rw [reportAfter, reportAfter, turns_add]
  exact report_within_turn _

end Standing

namespace Report

theorem Within.refl (a : Report) : a.Within a := ⟨List.prefix_refl _, fun _ => rfl⟩

theorem Within.trans {a b c : Report} (hab : a.Within b) (hbc : b.Within c) : a.Within c := by
  refine ⟨hab.1.trans hbc.1, fun h => ?_⟩
  cases hab.2 h
  exact hbc.2 h

/-- The report is one of a row, not before the `n`-th if it does not say how the run has ended. -/
def ReachedIn (row : Nat → Report) (n : Nat) (r : Report) : Prop :=
  ∃ k, r = row k ∧ (r.outcome = none → n ≤ k)

/-- In a row in which each report is within the next, what is reached late enough has all of what
comes earlier. -/
theorem within_of_reachedIn {row : Nat → Report} (hrow : ∀ k, (row k).Within (row (k + 1)))
    {j : Nat} {r : Report} (hr : ReachedIn row j r) : (row j).Within r := by
  have hmono : ∀ {i k}, i ≤ k → (row i).Within (row k) := by
    intro i k hik
    induction hik with
    | refl => exact .refl _
    | step _ ih => exact ih.trans (hrow _)
  obtain ⟨k, rfl, hk⟩ := hr
  rcases Nat.le_total j k with hjk | hkj
  · exact hmono hjk
  · cases hout : (row k).outcome with
    | none => exact hmono (hk hout)
    | some outcome =>
      rw [(hmono hkj).2 (by rw [hout]; rfl)]
      exact .refl _

end Report

/-! ## Both do the same -/

/-- What is seen of a run of a linked routine from its beginning, from a state of the outside. -/
def Linked.report (l : Linked) (o : Outside σ) (s : Setting) (w : σ) (bound steps : Nat) : Report :=
  let r := Execution.watch o.recorded s bound steps ⟨(w, []), false⟩ (Execution.start l)
  ⟨r.1.host.2, r.2⟩

namespace Standing

/-- The thread is no longer on. -/
def Ended : Standing σ → Prop
  | .on _ _ => False
  | .finished _ | .stopped _ | .failed _ _ => True

variable {o : Outside σ} {s : Setting} {t : Standing σ} {j k : Nat}

/-- A thread that has ended stands where it stood when it ended. -/
theorem turns_eq_of_le (hjk : j ≤ k) (hj : (t.turns o s j).Ended) :
    t.turns o s k = t.turns o s j := by
  obtain ⟨i, rfl⟩ := Nat.exists_eq_add_of_le hjk
  rw [turns_add]
  refine turns_eq_self ?_ i
  generalize t.turns o s j = u at hj
  cases u with
  | on => exact hj.elim
  | finished | stopped | failed => rfl

theorem turns_eq_of_ended (hj : (t.turns o s j).Ended) (hk : (t.turns o s k).Ended) :
    t.turns o s j = t.turns o s k := by
  rcases Nat.le_total j k with hjk | hkj
  · exact (turns_eq_of_le hjk hj).symm
  · exact turns_eq_of_le hkj hk

theorem Hindered.ended (h : t.Hindered) : t.Ended := by
  cases t with
  | on => exact h.elim
  | finished | stopped | failed => trivial

end Standing

/-- A thread that is undisturbed for any number of steps is not hindered. -/
theorem Execution.not_hindered_turns {o : Outside σ} {s : Setting} {w : σ} {e : Execution}
    (he : e.stopped = false)
    (hquiet : ∀ bound steps, Undisturbed (watch o s bound steps ⟨w, false⟩ e)) (k : Nat) :
    ¬ ((Standing.on e.frames w).turns o s k).Hindered := by
  intro hk
  -- so many steps that the thread is seen not to be on any more
  have hquiet := hquiet (k + 1) (k + 1)
  obtain ⟨k', hshows⟩ := exists_shows_watch (k + 1) he hquiet
  cases ht : (Standing.on e.frames w).turns o s k' with
  | on frames w' =>
    rw [ht] at hshows
    have hle : k ≤ k' := by
      have := hshows.2
      omega
    rw [← Standing.turns_eq_of_le hle hk.ended, ht] at hk
    exact hk
  | finished w' =>
    rw [Standing.turns_eq_of_ended hk.ended (k := k') (by rw [ht]; trivial), ht] at hk
    exact hk
  | stopped w' =>
    rw [ht] at hshows
    exact hshows
  | failed fault w' =>
    rw [Standing.turns_eq_of_ended hk.ended (k := k') (by rw [ht]; trivial), ht] at hk
    rw [ht] at hshows
    obtain ⟨names, hwatch⟩ := hshows
    refine hquiet.2 ⟨fault, names⟩ (by rw [hwatch]) ?_
    cases fault with
    | callDepthExceeded => trivial
    | _ => exact hk.elim

/-- A thread that begins with a linked routine. -/
def Standing.outset (l : Linked) (w : σ) : Standing σ := .on [Frame.start l []] w

section Runs

variable {t : Target} {config config' : CompilerConfig} {script : Script} {p : Program}
  {s : Setting} {entry : Linked}

/-- An evaluation of a program, as turns of the machine. -/
theorem Program.exists_turns_perform (hp : p.GeneratedBy t config script) (hfit : p.EscapesFit)
    (hentry : p.entry.compile p config' = .ok entry.image) (hlinked : p.LinkedIn config' s)
    (o : Outside σ) (w : σ) (hfree : ∀ k, ¬ ((Standing.outset entry w).turns o s k).Hindered)
    (n : Nat) :
    ∃ k, match p.perform o config' n p.entry [] w with
      | .ok _ w' => (Standing.outset entry w).turns o s k = .finished w'
      | .error .exhausted w' =>
        n ≤ k ∧ ∃ frames, (Standing.outset entry w).turns o s k = .on frames w'
      | .error _ _ => False := by
  have hargs : List.Forall₂ (fun shape v => Value.Honours v shape) p.entry.arguments [] := by
    rw [(Target.entryRoutine_eq_ok hp.entry).2.1]
    exact .nil
  have hfollows : Standing.Follows o s n (.outset entry w)
      (p.perform o config' n p.entry [] w) (fun _ w' t => t = Standing.back [] w')
      (fun _ _ => False) :=
    Program.follows_perform hp hfit hlinked n List.mem_cons_self hentry hargs
  obtain ⟨k, hk⟩ := hfollows
  refine ⟨k, ?_⟩
  rcases hk with hk | hk
  · exact absurd hk (hfree k)
  generalize p.perform o config' n p.entry [] w = r at hk
  match r, hk with
  | .ok _ _, hk => exact hk
  | .error .exhausted _, hk => exact hk

/-- What is seen of an evaluation is what is seen of the machine after some turns. -/
theorem Program.report_reachedIn (hp : p.GeneratedBy t config script) (hfit : p.EscapesFit)
    (hentry : p.entry.compile p config' = .ok entry.image) (hlinked : p.LinkedIn config' s)
    (o : Outside σ) (w : σ)
    (hfree : ∀ k, ¬ ((Standing.outset entry (w, [])).turns o.recorded s k).Hindered)
    (n : Nat) :
    Report.ReachedIn ((Standing.outset entry (w, [])).reportAfter o s) n
      (p.report o config' w n) := by
  obtain ⟨k, hk⟩ := exists_turns_perform hp hfit hentry hlinked o.recorded (w, []) hfree n
  refine ⟨k, ?_⟩
  unfold report Standing.reportAfter
  generalize p.perform o.recorded config' n p.entry [] (w, []) = r at hk
  match r, hk with
  | .ok _ w', hk =>
    rw [hk]
    exact ⟨rfl, fun h => by cases h⟩
  | .error .exhausted w', ⟨hn, frames, hk⟩ =>
    rw [hk]
    exact ⟨rfl, fun _ => hn⟩

/-- What is seen of steps is what is seen of the machine after some turns, if it does not fail. -/
theorem Linked.report_reachedIn (l : Linked) {o : Outside σ} {w : σ} {bound steps : Nat}
    (hquiet : Execution.Undisturbed
      (Execution.watch o.recorded s bound steps ⟨(w, []), false⟩ (Execution.start l)))
    (hsound : ∀ k fault w',
      (Standing.outset l (w, [])).turns o.recorded s k ≠ .failed fault w') :
    Report.ReachedIn ((Standing.outset l (w, [])).reportAfter o s) (min bound steps)
      (l.report o s w bound steps) := by
  obtain ⟨k, hk⟩ := Execution.exists_shows_watch steps rfl hquiet
  change Execution.Shows _ _ _ _ ((Standing.outset l (w, [])).turns o.recorded s k) at hk
  refine ⟨k, ?_⟩
  unfold report Standing.reportAfter
  cases ht : (Standing.outset l (w, [])).turns o.recorded s k with
  | on frames w' =>
    rw [ht] at hk
    rw [hk.1]
    exact ⟨rfl, fun _ => hk.2⟩
  | finished w' =>
    rw [ht] at hk
    rw [hk]
    exact ⟨rfl, fun h => by cases h⟩
  | stopped w' =>
    rw [ht] at hk
    exact hk.elim
  | failed fault w' => exact absurd ht (hsound k fault w')

/-- **A compiled program does what it means.** Take a program that a target generates, with its
routines compiled and linked. Let it run step by step on any host, such that it is never asked to
stop and comes to no limit. Then what is seen of the steps, all calls to the host with their
arguments, all the times it gives way and how it ends, is a part of what is seen of an evaluation
with enough fuel; and what is seen of an evaluation is a part of what is seen of enough steps. -/
theorem Target.reports_agree_of_generate (hp : (t.generate config script).outcome = .ok p)
    (hfit : p.EscapesFit) (hentry : p.entry.compile p config' = .ok entry.image)
    (hlinked : p.LinkedIn config' s) (o : Outside σ) (w : σ)
    (hquiet : ∀ bound steps, Execution.Undisturbed
      (Execution.watch o.recorded s bound steps ⟨(w, []), false⟩ (Execution.start entry))) :
    (∀ bound steps, ∃ n, (entry.report o s w bound steps).Within (p.report o config' w n))
      ∧ ∀ n, ∃ bound steps, (p.report o config' w n).Within (entry.report o s w bound steps) := by
  have hp := generatedBy_of_generate hp
  have hfree : ∀ k, ¬ ((Standing.outset entry (w, [])).turns o.recorded s k).Hindered :=
    Execution.not_hindered_turns (e := Execution.start entry) rfl hquiet
  -- an evaluation with so much fuel that it would be seen to fail
  have hsound : ∀ k fault w',
      (Standing.outset entry (w, [])).turns o.recorded s k ≠ .failed fault w' := by
    intro k fault w' ht
    obtain ⟨k', hk'⟩ :=
      Program.exists_turns_perform hp hfit hentry hlinked o.recorded (w, []) hfree k
    have hended : ((Standing.outset entry (w, [])).turns o.recorded s k).Ended := by
      rw [ht]
      trivial
    generalize p.perform o.recorded config' k p.entry [] (w, []) = r at hk'
    match r, hk' with
    | .ok _ w'', hk' =>
      have heq := Standing.turns_eq_of_ended hended (k := k') (by rw [hk']; trivial)
      rw [ht, hk'] at heq
      cases heq
    | .error .exhausted w'', ⟨hle, frames, hk'⟩ =>
      have heq := Standing.turns_eq_of_le hle hended
      rw [ht, hk'] at heq
      cases heq
  have hrow := (Standing.outset entry (w, [])).reportAfter_within_succ (o := o) (s := s)
  constructor
  · intro bound steps
    obtain ⟨k, hk, -⟩ := Linked.report_reachedIn entry (hquiet bound steps) hsound
    refine ⟨k, ?_⟩
    rw [hk]
    exact Report.within_of_reachedIn hrow
      (Program.report_reachedIn hp hfit hentry hlinked o w hfree k)
  · intro n
    obtain ⟨k, hk, -⟩ := Program.report_reachedIn hp hfit hentry hlinked o w hfree n
    have hreached := Linked.report_reachedIn entry (hquiet k k) hsound
    rw [Nat.min_self] at hreached
    refine ⟨k, k, ?_⟩
    rw [hk]
    exact Report.within_of_reachedIn hrow hreached

end Runs

/-- A compiler that keeps nothing yet links the routines of the program at hand. -/
theorem Compiler.linkedIn_of_compileProgram {c : Compiler} {number : Nat} {p : Program}
    {thread : CompiledThread} (h : (c.compileProgram {} number p).outcome = .ok thread) :
    p.entry.compile p c.config = .ok thread.entry.image ∧ p.LinkedIn c.config thread.setting := by
  unfold compileProgram at h
  split at h
  · cases h
  · next entry _ hentry =>
    split at h
    · cases h
    · next variants _ hvariants =>
      cases h
      have hbuild : ∀ e ∈ p.procedures.entries, ∀ l stats stats',
          c.obtain {} p (.variant e.1) e.2 stats = (.ok l, stats') →
          e.2.compile p c.config = .ok l.image := fun _ _ _ _ _ h => compile_of_build h
      let R := fun (_ : VariantKey) (r : Routine) (l : Linked) => r.compile p c.config = .ok l.image
      have hall := forall₂_of_obtainAll (R := R) hbuild hvariants
      exact ⟨compile_of_build hentry,
        fun k r hr => VariantTable.exists_find?_right (R := R) hall hr⟩

/-- Scripted hosts as the outside: each time the thread gives way, the clock moves on. -/
def Outside.scripted : Outside ScriptedHost := ⟨ScriptedHost.host, fun _ s => s.advance s.frameTime⟩

/-- A host that takes its time to speak. -/
def ScriptedHost.slowSpeaker : ScriptedHost := { slow := [("looks_say", 2)] }

theorem Target.reports_agree_chorus :
    ∃ p thread, (chorus.generate {} chorusScript).outcome = .ok p
      ∧ (Compiler.compileProgram {} {} 0 p).outcome = .ok thread
      ∧ (thread.entry.report .scripted thread.setting .slowSpeaker 1000 10).outcome = some .finished
      ∧ ∃ n, thread.entry.report .scripted thread.setting .slowSpeaker 1000 10
        = p.report .scripted {} .slowSpeaker n := by
  have hrun : ((chorus.generate {} chorusScript).outcome.toOption.bind fun p =>
      (Compiler.compileProgram {} {} 0 p).outcome.toOption.map fun thread =>
        let r := Execution.watch Outside.scripted.recorded thread.setting 1000 10
          ⟨(.slowSpeaker, []), false⟩ (Execution.start thread.entry)
        (decide p.EscapesFit, r.1.stop, decide (r.2 = some .finished)))
      = some (true, false, true) := by
    decide +kernel
  obtain ⟨p, hp, hrun⟩ := Option.bind_eq_some_iff.mp hrun
  obtain ⟨thread, hthread, hrun⟩ := Option.map_eq_some_iff.mp hrun
  have hp := eq_ok_of_toOption hp
  have hthread := eq_ok_of_toOption hthread
  simp only [Prod.mk.injEq, decide_eq_true_eq] at hrun
  obtain ⟨hfit, hstop, hmatch⟩ := hrun
  have hfinished : (thread.entry.report .scripted thread.setting .slowSpeaker 1000 10).outcome
      = some .finished := by
    unfold Linked.report
    exact hmatch
  have hquiet := Execution.undisturbed_of_isSome (Option.isSome_of_eq_some hfinished)
    ⟨hstop, fun err herr => by cases hfinished.symm.trans herr⟩
  obtain ⟨hentry, hlinked⟩ := Compiler.linkedIn_of_compileProgram hthread
  obtain ⟨n, hn⟩ := (reports_agree_of_generate hp hfit hentry hlinked .scripted .slowSpeaker
    hquiet).1 1000 10
  exact ⟨p, thread, hp, hthread, hfinished, n, hn.2 (Option.isSome_of_eq_some hfinished)⟩

end BlockScript
