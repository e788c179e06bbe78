import BlockScript.Proofs.Agreement
import BlockScript.Proofs.Histories

/-!
# Results that come later

A host may answer the call of a primitive by saying that the result comes later. The thread then
gives way, looks for the result each time it is resumed, and goes on when it has come. It does so
with the very frames that it would have had if the result had come at once, so for the rest of the
run there is no difference.

Hosts that differ in delay (`Outside.DiffersInDelay`) bring the same values, each in its own time.
Two threads on such hosts go through the same frames, only that each of them stays with a call for a
number of moves of its own (`Execution.Calls.moves_callPrimitive`). The induction is on the moves of
one thread: between two calls of primitives both threads make one move at a time, and at a call both
make as many moves as it takes them (`Execution.exists_calls_prefix`).

Main statement: calls whose results come later are transparent (`Execution.transparent_of_delay`).
-/

namespace BlockScript

variable {σ τ : Type}

/-! ## Calls that take their time -/

/-- The call that was seen, unless it was a look for a result. -/
def Observation.call? : Observation → Option HostEvent
  | .called (.poll _) => none
  | .called e => some e
  | .gaveWay _ => none

/-- The calls in what was seen, without the looks for results. -/
def Observation.calls (seen : List Observation) : List HostEvent := seen.filterMap Observation.call?

/-- The observation is the call of a primitive. -/
def Observation.isPrimitive : Observation → Bool
  | .called (.primitive _ _) => true
  | _ => false

open Observation (calls)

namespace Outside

variable {o : Outside σ} {p : Outside τ} {R : σ → τ → Prop}

/-- The host answers `k` times that the result of a call has not come yet, and then brings it; it
does not ask the thread to stop meanwhile. -/
def Delivers (o : Outside σ) (id : PendingId) (v : Value) (w' : σ) : (k : Nat) → σ → Prop
  | 0, w => o.host.poll w id = ⟨some v, w', false⟩
  | k + 1, w =>
    ∃ u, o.host.poll w id = ⟨none, u, false⟩ ∧ o.Delivers id v w' k (o.resume .blocking u)

/-- The result of the call never comes. -/
def Hangs (o : Outside σ) (name : String) (args : List Value) (w : σ) : Prop :=
  ∀ n, ∃ w', o.callPrimitive n name args w = .error .exhausted w'

/-- In related states the outsides are alike but for the time that primitives take: a call brings
the same value in both of them, in each at once or later, or the result never comes in either. -/
structure DiffersInDelay (o : Outside σ) (p : Outside τ) (R : σ → τ → Prop) : Prop
    extends o.host.Agrees p.host R where
  callPrimitive : ∀ {x y}, R x y → ∀ name args,
    (∃ m n v x' y', o.callPrimitive m name args x = .ok v x'
      ∧ p.callPrimitive n name args y = .ok v y'
      ∧ R x' y') ∨ o.Hangs name args x ∧ p.Hangs name args y
  resume : ∀ {x y}, R x y → ∀ kind, R (o.resume kind x) (p.resume kind y)

theorem DiffersInDelay.symm (h : o.DiffersInDelay p R) : p.DiffersInDelay o fun y x => R x y where
  evaluate hR block opcode inputs :=
    (h.evaluate hR block opcode inputs).imp_left Eq.symm
  getVariable hR name := (h.getVariable hR name).imp_left Eq.symm
  setVariable hR name v := (h.setVariable hR name v).imp_left Eq.symm
  now hR := (h.now hR).imp_left Eq.symm
  deadlineElapsed hR := (h.deadlineElapsed hR).imp_left Eq.symm
  callPrimitive hR name args := by
    rcases h.callPrimitive hR name args with ⟨m, n, v, x, y, hx, hy, hxy⟩ | ⟨hx, hy⟩
    · exact Or.inl ⟨n, m, v, y, x, hy, hx, hxy⟩
    · exact Or.inr ⟨hy, hx⟩
  resume hR kind := h.resume hR kind

theorem await_of_some {id : PendingId} {w : σ} {v : Value} (h : (o.host.poll w id).answer = some v)
    (n : Nat) : o.await id (n + 1) w = .ok v (o.host.poll w id).host := by
  rw [await]
  change EStateM.bind _ _ w = _
  simp only [EStateM.bind, ask, h]
  rfl

theorem await_of_none {id : PendingId} {w : σ} (h : (o.host.poll w id).answer = none) (n : Nat) :
    o.await id (n + 1) w = o.await id n (o.resume .blocking (o.host.poll w id).host) := by
  rw [await]
  change EStateM.bind _ _ w = _
  simp only [EStateM.bind, ask, h]
  rfl

theorem callPrimitive_of_ready {name : String} {args : List Value} {w : σ} {v : Value}
    (h : (o.host.callPrimitive w name args).answer = .ready v) (n : Nat) :
    o.callPrimitive n name args w = .ok v (o.host.callPrimitive w name args).host := by
  rw [callPrimitive]
  change EStateM.bind _ _ w = _
  simp only [EStateM.bind, ask, h]
  rfl

theorem callPrimitive_of_pending {name : String} {args : List Value} {w : σ} {id : PendingId}
    (h : (o.host.callPrimitive w name args).answer = .pending id) (n : Nat) :
    o.callPrimitive n name args w
      = o.await id n (o.resume .blocking (o.host.callPrimitive w name args).host) := by
  rw [callPrimitive]
  change EStateM.bind _ _ w = _
  simp only [EStateM.bind, ask, h]
  rfl

end Outside

theorem Observation.calls_append (seen seen' : List Observation) :
    calls (seen ++ seen') = calls seen ++ calls seen' :=
  List.filterMap_append

/-- The states of two recording hosts are related, and the same calls were recorded but for looks
for results. -/
def Recorded (R : σ → τ → Prop) (x : σ × List Observation) (y : τ × List Observation) : Prop :=
  R x.1 y.1 ∧ calls x.2 = calls y.2

theorem Reply.Agrees.noting {α : Type} {R : σ → τ → Prop} {a : Reply σ α} {b : Reply τ α}
    {seen seen' : List Observation} (hab : a.Agrees R b) (hcalls : calls seen = calls seen')
    (e : HostEvent) : (a.noting seen e).Agrees (Recorded R) (b.noting seen' e) := by
  refine ⟨hab.1, hab.2, ?_⟩
  change calls (seen ++ [.called e]) = calls (seen' ++ [.called e])
  rw [Observation.calls_append, Observation.calls_append, hcalls]

theorem Host.Agrees.recorded {h : Host σ} {k : Host τ} {R : σ → τ → Prop} (hagree : h.Agrees k R) :
    h.recorded.Agrees k.recorded (Recorded R) where
  evaluate hR block opcode inputs := (hagree.evaluate hR.1 block opcode inputs).noting hR.2 _
  getVariable hR name := (hagree.getVariable hR.1 name).noting hR.2 _
  setVariable hR name v := (hagree.setVariable hR.1 name v).noting hR.2 _
  now hR := (hagree.now hR.1).noting hR.2 _
  deadlineElapsed {x y} hR := by
    have hdeadline := hagree.deadlineElapsed hR.1
    change Reply.Agrees _
      ((h.deadlineElapsed x.1).noting x.2 (.deadline (h.deadlineElapsed x.1).answer)) _
    rw [hdeadline.1]
    exact hdeadline.noting hR.2 _

/-- A recording host agrees with itself, and no call that hosts agree on is one of a primitive. -/
theorem Host.recorded_agrees (h : Host σ) (n : Nat) : h.recorded.Agrees h.recorded
    fun x y => x = y ∧ x.2.countP Observation.isPrimitive = n := by
  constructor
  all_goals
    rintro x _ ⟨rfl, rfl⟩
    intros
    exact ⟨rfl, rfl, List.countP_append.trans (Nat.add_zero _)⟩

theorem Outside.DiffersInDelay.recorded_resume {o : Outside σ} {p : Outside τ} {R : σ → τ → Prop}
    (hR : o.DiffersInDelay p R) {x : σ × List Observation} {y : τ × List Observation}
    (hxy : Recorded R x y) (kind : YieldKind) :
    Recorded R (o.recorded.resume kind x) (p.recorded.resume kind y) := by
  refine ⟨hR.resume hxy.1 kind, ?_⟩
  change calls (x.2 ++ [.gaveWay kind]) = calls (y.2 ++ [.gaveWay kind])
  rw [Observation.calls_append, Observation.calls_append, hxy.2]

namespace Execution

variable {o : Outside σ} {s : Setting} {f : Frame} {frames callers : List Frame} {id : PendingId}
  {name : String} {args : List Value} {v : Value}

theorem fits_awaiting {limits : Limits} (hsize : f.stack.size ≤ limits.maxStackSize) :
    Fits limits (f.awaiting id :: callers) :=
  fits_cons_iff.mpr hsize

theorem afterFlow_flowAfterCall (w : World σ) (x : σ) : afterFlow o (flowAfterCall w) x = x := by
  unfold flowAfterCall
  split <;> rfl

/-- The result has come: the frame goes on. -/
theorem move_of_some (hf : f.pending = none) (hsize : f.stack.size ≤ s.limits.maxStackSize) {w : σ}
    (h : (o.host.poll w id).answer = some v) :
    move o s (f.awaiting id :: callers, w)
      = ((f.push v).advance :: callers, (o.host.poll w id).host) := by
  have hframe : { f with pending := none } = f := by rw [← hf]
  rw [(fits_awaiting hsize).move]
  simp only [dispatch, Frame.awaiting, pollFrame, h, hframe, afterFlow_flowAfterCall]
  rfl

/-- The result has not come: the frame stays as it is. -/
theorem move_of_none (hsize : f.stack.size ≤ s.limits.maxStackSize) {w : σ}
    (h : (o.host.poll w id).answer = none) :
    move o s (f.awaiting id :: callers, w)
      = (f.awaiting id :: callers, o.resume .blocking (o.host.poll w id).host) := by
  rw [(fits_awaiting hsize).move]
  simp only [dispatch, Frame.awaiting, pollFrame, h]
  rfl

namespace Calls

variable (hcall : Calls s frames name args f callers) (hfits : Fits s.limits frames)
include hcall hfits

theorem size_le : f.stack.size ≤ s.limits.maxStackSize := by
  obtain ⟨g, rfl, hsize⟩ := hcall.caller
  exact hsize.trans (fits_cons_iff.mp hfits)

theorem move_of_ready {w : σ} (h : (o.host.callPrimitive w name args).answer = .ready v) :
    move o s (frames, w)
      = ((f.push v).advance :: callers, (o.host.callPrimitive w name args).host) := by
  rw [hfits.move, hcall.dispatch]
  simp only [Frame.callHost, h, applyEffect, afterFlow_flowAfterCall]
  rfl

theorem move_of_pending {w : σ} (h : (o.host.callPrimitive w name args).answer = .pending id) :
    move o s (frames, w)
      = (f.awaiting id :: callers, o.resume .blocking (o.host.callPrimitive w name args).host) := by
  rw [hfits.move, hcall.dispatch]
  simp only [Frame.callHost, h, applyEffect]
  rfl

end Calls

/-! ## The same calls -/

/-- A frame that waits gets its result, and meanwhile there are only looks for it. -/
theorem moves_await (hf : f.pending = none) (hsize : f.stack.size ≤ s.limits.maxStackSize)
    (callers : List Frame) : ∀ (n : Nat) {w w' : σ} (seen : List Observation),
      o.await id n w = .ok v w' →
        ∃ k seen', (move o.recorded s)^[k] (f.awaiting id :: callers, w, seen)
          = ((f.push v).advance :: callers, w', seen') ∧ calls seen' = calls seen
  | 0, _, _, _, h => by cases h
  | n + 1, w, w', seen, h => by
    cases hanswer : (o.host.poll w id).answer with
    | some v' =>
      rw [Outside.await_of_some hanswer] at h
      cases h
      refine ⟨1, seen ++ [.called (.poll id)], ?_, ?_⟩
      · exact move_of_some (o := o.recorded) (w := (w, seen)) hf hsize hanswer
      · rw [Observation.calls_append]
        exact List.append_nil _
    | none =>
      rw [Outside.await_of_none hanswer] at h
      obtain ⟨k, seen', hmoves, hcalls⟩ :=
        moves_await hf hsize callers n (seen ++ [.called (.poll id)] ++ [.gaveWay .blocking]) h
      refine ⟨k + 1, seen', ?_, ?_⟩
      · rw [Function.iterate_succ_apply,
          move_of_none (o := o.recorded) (w := (w, seen)) hsize hanswer]
        exact hmoves
      · rw [hcalls, Observation.calls_append, Observation.calls_append]
        exact (List.append_nil _).trans (List.append_nil _)

/-- A frame whose result never comes only looks for it. -/
theorem calls_moves_await (hsize : f.stack.size ≤ s.limits.maxStackSize) :
    ∀ (k : Nat) {w : σ} (seen : List Observation),
      (∀ n, ∃ w', o.await id n w = .error .exhausted w') →
      calls ((move o.recorded s)^[k] (f.awaiting id :: callers, w, seen)).2.2
        = calls seen
  | 0, _, _, _ => rfl
  | k + 1, w, seen, h => by
    cases hanswer : (o.host.poll w id).answer with
    | some v' =>
      obtain ⟨w', hw'⟩ := h 1
      rw [Outside.await_of_some hanswer] at hw'
      cases hw'
    | none =>
      rw [Function.iterate_succ_apply,
        move_of_none (o := o.recorded) (w := (w, seen)) hsize hanswer]
      have hlater := calls_moves_await hsize k
        (seen ++ [.called (.poll id)] ++ [.gaveWay .blocking])
        fun n => by
          have hn := h (n + 1)
          rwa [Outside.await_of_none hanswer] at hn
      refine hlater.trans ?_
      rw [Observation.calls_append, Observation.calls_append]
      exact (List.append_nil _).trans (List.append_nil _)

namespace Calls

variable (hcall : Calls s frames name args f callers) (hfits : Fits s.limits frames)
include hcall hfits

/-- A call that brings a value leaves it on the stack, at once or later. -/
theorem moves_callPrimitive {n : Nat} {w w' : σ} (seen : List Observation)
    (h : o.callPrimitive n name args w = .ok v w') :
    ∃ k seen', 1 ≤ k ∧ (move o.recorded s)^[k] (frames, w, seen)
        = ((f.push v).advance :: callers, w', seen')
      ∧ calls seen' = calls seen ++ [.primitive name args] := by
  cases hanswer : (o.host.callPrimitive w name args).answer with
  | ready v' =>
    rw [Outside.callPrimitive_of_ready hanswer] at h
    cases h
    refine ⟨1, seen ++ [.called (.primitive name args)], Nat.le_refl 1, ?_, ?_⟩
    · exact hcall.move_of_ready hfits (o := o.recorded) (w := (w, seen)) hanswer
    · rw [Observation.calls_append]
      rfl
  | pending id =>
    rw [Outside.callPrimitive_of_pending hanswer] at h
    obtain ⟨k, seen', hmoves, hcalls⟩ := moves_await (s := s) hcall.pending
      (hcall.size_le hfits) callers n
      (seen ++ [.called (.primitive name args)] ++ [.gaveWay .blocking]) h
    refine ⟨k + 1, seen', by omega, ?_, ?_⟩
    · rw [Function.iterate_succ_apply,
        hcall.move_of_pending hfits (o := o.recorded) (w := (w, seen)) hanswer]
      exact hmoves
    · rw [hcalls, Observation.calls_append, Observation.calls_append]
      exact List.append_nil _

/-- The first move makes the call. -/
theorem calls_move (w : σ) (seen : List Observation) :
    calls (move o.recorded s (frames, w, seen)).2.2 = calls seen ++ [.primitive name args] := by
  cases hanswer : (o.host.callPrimitive w name args).answer with
  | ready v =>
    rw [hcall.move_of_ready hfits (o := o.recorded) (w := (w, seen)) hanswer]
    exact Observation.calls_append seen [.called (.primitive name args)]
  | pending id =>
    rw [hcall.move_of_pending hfits (o := o.recorded) (w := (w, seen)) hanswer]
    refine (Observation.calls_append (seen ++ [.called (.primitive name args)]) _).trans ?_
    rw [Observation.calls_append]
    exact List.append_nil _

/-- A call whose result never comes is the last one. -/
theorem calls_moves_of_hangs {w : σ} (seen : List Observation) (h : o.Hangs name args w) (k : Nat) :
    calls ((move o.recorded s)^[k + 1] (frames, w, seen)).2.2
      = calls seen ++ [.primitive name args] := by
  rw [← hcall.calls_move hfits (o := o) w seen]
  cases hanswer : (o.host.callPrimitive w name args).answer with
  | ready v =>
    obtain ⟨w', hw'⟩ := h 0
    rw [Outside.callPrimitive_of_ready hanswer] at hw'
    cases hw'
  | pending id =>
    rw [Function.iterate_succ_apply,
      hcall.move_of_pending hfits (o := o.recorded) (w := (w, seen)) hanswer]
    refine calls_moves_await (hcall.size_le hfits) k _ fun n => ?_
    have hn := h n
    rwa [Outside.callPrimitive_of_pending hanswer] at hn

end Calls

/-- Calls that were made are never taken back. -/
theorem calls_prefix_move (x : List Frame × σ × List Observation) :
    calls x.2.2 <+: calls (move o.recorded s x).2.2 := by
  obtain ⟨frames, w, seen⟩ := x
  by_cases hfits : Fits s.limits frames
  · rw [hfits.move]
    have hkept : seen <+: (dispatch o.recorded.host s ⟨(w, seen), false⟩ frames).2.1.host.2 :=
      dispatch_keeps (o.host.recorded_keeps seen) (List.prefix_refl _) frames
    generalize dispatch o.recorded.host s ⟨(w, seen), false⟩ frames = d at hkept
    obtain ⟨frames', w', flow⟩ := d
    refine List.IsPrefix.filterMap _ ?_
    cases flow with
    | suspend kind => exact hkept.trans (List.prefix_append _ _)
    | next | finished | stopped | fail => exact hkept
  · rewrite [move_of_not_fits hfits]
    exact List.prefix_refl _

theorem calls_prefix_moves {j k : Nat} (hjk : j ≤ k) (x : List Frame × σ × List Observation) :
    calls ((move o.recorded s)^[j] x).2.2 <+: calls ((move o.recorded s)^[k] x).2.2 := by
  induction hjk with
  | refl => exact List.prefix_refl _
  | step _ ih =>
    rw [Function.iterate_succ_apply']
    exact ih.trans (calls_prefix_move _)

/-- Ticks that agree are moves that agree. -/
theorem Agrees.move {p : Outside τ} {R : σ → τ → Prop} {x : σ} {y : τ}
    (hagree : Agrees R (dispatch o.host s ⟨x, false⟩ frames) (dispatch p.host s ⟨y, false⟩ frames))
    (hresume : ∀ {x y}, R x y → ∀ kind, R (o.resume kind x) (p.resume kind y))
    (hfits : Fits s.limits frames) :
    ∃ frames' x' y', Execution.move o s (frames, x) = (frames', x')
      ∧ Execution.move p s (frames, y) = (frames', y') ∧ R x' y'
        ∧ ∀ f ∈ frames', f.pending = none := by
  rw [hfits.move, hfits.move]
  generalize dispatch o.host s ⟨x, false⟩ frames = a at hagree
  generalize dispatch p.host s ⟨y, false⟩ frames = b at hagree
  obtain ⟨frames₁, w, flow⟩ := a
  obtain ⟨frames₂, u, flow'⟩ := b
  obtain ⟨rfl, hpending, hR, hsuspend⟩ := hagree
  dsimp only at hpending hR hsuspend
  refine ⟨_, _, _, rfl, rfl, ?_, hpending⟩
  cases flow with
  | suspend kind =>
    cases (hsuspend kind).mp rfl
    exact hresume hR kind
  | next | finished | stopped | fail =>
    cases flow' with
    | suspend kind => cases (hsuspend kind).mpr rfl
    | next | finished | stopped | fail => exact hR

/-- **Threads whose outsides differ in delay make the same calls**: whatever the first one has
called, the second one calls too. -/
theorem exists_calls_prefix {p : Outside τ} {R : σ → τ → Prop} (hR : o.DiffersInDelay p R) (k : Nat)
    {frames : List Frame} {x : σ} {y : τ} {seen seen' : List Observation} (hxy : R x y)
    (hseen : calls seen = calls seen') (hframes : ∀ f ∈ frames, f.pending = none) :
    ∃ k', calls ((move o.recorded s)^[k] (frames, x, seen)).2.2
      <+: calls ((move p.recorded s)^[k'] (frames, y, seen')).2.2 := by
  induction k using Nat.strong_induction_on generalizing frames x y seen seen' with
  | _ k ih =>
  cases k with
  | zero =>
    refine ⟨0, ?_⟩
    rw [Function.iterate_zero, Function.iterate_zero]
    exact hseen ▸ List.prefix_refl _
  | succ k =>
  by_cases hfits : Fits s.limits frames
  · rcases calls_or_agrees (s := s) hframes with ⟨name, args, f, callers, hcall⟩ | hagree
    · rcases hR.callPrimitive hxy name args with ⟨m, n, v, x', y', hx, hy, hxy'⟩ | ⟨hx, hy⟩
      · -- both have the value after some moves, and then go on with the same frames
        obtain ⟨i, seen₁, hi, hmoves₁, hcalls₁⟩ := hcall.moves_callPrimitive hfits seen hx
        obtain ⟨j, seen₂, hj, hmoves₂, hcalls₂⟩ := hcall.moves_callPrimitive hfits seen' hy
        have hseen' : calls seen₁ = calls seen₂ := by rw [hcalls₁, hcalls₂, hseen]
        by_cases hik : i ≤ k + 1
        · have hframes' : ∀ g ∈ (f.push v).advance :: callers, g.pending = none := by
            obtain ⟨g, rfl, -⟩ := hcall.caller
            exact List.forall_mem_cons.mpr ⟨hcall.pending, (List.forall_mem_cons.mp hframes).2⟩
          obtain ⟨k', hprefix⟩ := ih (k + 1 - i) (by omega) hxy' hseen' hframes'
          refine ⟨k' + j, ?_⟩
          rw [← Nat.sub_add_cancel hik, Function.iterate_add_apply, Function.iterate_add_apply,
            hmoves₁, hmoves₂]
          exact hprefix
        · refine ⟨j, (calls_prefix_moves (j := k + 1) (k := i) (by omega) _).trans ?_⟩
          rw [hmoves₁, hmoves₂]
          exact hseen' ▸ List.prefix_refl _
      · refine ⟨1, ?_⟩
        rewrite [hcall.calls_moves_of_hangs hfits seen hx, Function.iterate_one,
        hcall.calls_move hfits, hseen]
        exact List.prefix_refl _
    · have hrecorded :=
        hagree hR.toAgrees.recorded (w := ⟨(x, seen), false⟩) (u := ⟨(y, seen'), false⟩)
        ⟨hxy, hseen⟩
      obtain ⟨frames', ⟨x', seen₁⟩, ⟨y', seen₂⟩, hx, hy, ⟨hxy', hseen'⟩, hpending⟩ :=
        hrecorded.move (o := o.recorded) (p := p.recorded) (fun hxy => hR.recorded_resume hxy) hfits
      obtain ⟨k', hprefix⟩ := ih k (by omega) hxy' hseen' hpending
      refine ⟨k' + 1, ?_⟩
      rw [Function.iterate_succ_apply, Function.iterate_succ_apply, hx, hy]
      exact hprefix
  · refine ⟨0, ?_⟩
    rw [Function.iterate_fixed (move_of_not_fits hfits _)]
    exact hseen ▸ List.prefix_refl _

/-! ## One call -/

/-- An instruction makes the call of a primitive that is recorded of it. -/
theorem exists_calls_of_exec {h : Host σ} {w : σ} {seen : List Observation} {op : Instr}
    (hseen : (f.exec h.recorded s callers ⟨(w, seen), false⟩ op).2.1.host.2
      = seen ++ [.called (.primitive name args)]) :
    ∃ f', f.Calls s callers op name args f' := by
  rcases f.calls_or_agrees s callers op with ⟨name', args', f', hcall⟩ | hagree
  · have hrecord : (f.exec h.recorded s callers ⟨(w, seen), false⟩ op).2.1.host.2
        = seen ++ [.called (.primitive name' args')] := by
      rw [hcall.exec]
      unfold Frame.callHost
      dsimp only
      split <;> rfl
    rw [hrecord] at hseen
    simp only [List.append_cancel_left_eq, List.cons.injEq, Observation.called.injEq,
      HostEvent.primitive.injEq, and_true] at hseen
    obtain ⟨rfl, rfl⟩ := hseen
    exact ⟨f', hcall⟩
  · -- the calls that hosts agree on are no calls of primitives
    have hkept := (hagree (h.recorded_agrees (seen.countP Observation.isPrimitive))
      (w := ⟨(w, seen), false⟩) (u := ⟨(w, seen), false⟩) ⟨rfl, rfl⟩).2.2.1.2
    rw [hseen, List.countP_append] at hkept
    simp [Observation.isPrimitive] at hkept

/-- **A tick makes the call of a primitive that is recorded of it**, and comes to no limit then. -/
theorem calls_of_tick {h : Host σ} {w : σ} {seen : List Observation} {e : Execution}
    (hseen : (e.tick h.recorded s ⟨(w, seen), false⟩).2.1.host.2
      = seen ++ [.called (.primitive name args)]) :
    Free s.limits e ∧ ∃ f callers, Calls s e.frames name args f callers := by
  have hsilent : seen ≠ seen ++ [.called (.primitive name args)] := by simp
  have hfree : Free s.limits e := by
    rw [← limitFault?_eq_none_iff]
    unfold tick at hseen
    dsimp only at hseen
    split at hseen
    · exact absurd hseen hsilent
    · assumption
  refine ⟨hfree, ?_⟩
  rw [hfree.tick] at hseen
  dsimp only at hseen
  cases hframes : e.frames with
  | nil =>
    rw [hframes] at hseen
    exact absurd hseen hsilent
  | cons g callers =>
    rw [hframes] at hseen
    cases hpending : g.pending with
    | some id =>
      have hpoll : (dispatch h.recorded s ⟨(w, seen), false⟩ (g :: callers)).2.1.host.2
          = seen ++ [.called (.poll id)] := by
        simp only [dispatch, hpending, pollFrame]
        split <;> rfl
      rw [hpoll] at hseen
      simp at hseen
    | none =>
      cases hop : g.routine.code[g.pc]? with
      | none =>
        simp only [dispatch, hpending, hop] at hseen
        exact absurd hseen hsilent
      | some op =>
        simp only [dispatch, hpending, hop, applyEffect_world] at hseen
        obtain ⟨f, hcall⟩ := exists_calls_of_exec hseen
        exact ⟨f, callers, calls_of_frame hpending hop hcall⟩

theorem Calls.tick_of_ready {e : Execution} (hcall : Calls s e.frames name args f callers)
    (hfree : Free s.limits e) {h : Host σ} {w w' : σ}
    (hready : h.callPrimitive w name args = ⟨.ready v, w', false⟩) :
    e.tick h s ⟨w, false⟩
      = ({ e with frames := (f.push v).advance :: callers, ticks := e.ticks + 1 }, ⟨w', false⟩,
        .next) := by
  rw [hfree.tick, hcall.dispatch]
  simp only [Frame.callHost, hready]
  rfl

theorem Calls.tick_of_pending {e : Execution} (hcall : Calls s e.frames name args f callers)
    (hfree : Free s.limits e) {h : Host σ} {w w' : σ}
    (hpending : h.callPrimitive w name args = ⟨.pending id, w', false⟩) :
    e.tick h s ⟨w, false⟩
      = ({ e with frames := f.awaiting id :: callers, ticks := e.ticks + 1 }, ⟨w', false⟩,
        .suspend .blocking) := by
  rw [hfree.tick, hcall.dispatch]
  simp only [Frame.callHost, hpending]
  rfl

theorem tick_of_some {e : Execution} (he : e.frames = f.awaiting id :: callers)
    (hf : f.pending = none) (hfree : Free s.limits e) {h : Host σ} {w w' : σ}
    (hpoll : h.poll w id = ⟨some v, w', false⟩) :
    e.tick h s ⟨w, false⟩
      = ({ e with frames := (f.push v).advance :: callers, ticks := e.ticks + 1 }, ⟨w', false⟩,
        .next) := by
  have hframe : { f with pending := none } = f := by rw [← hf]
  rw [hfree.tick, he]
  simp only [dispatch, Frame.awaiting, pollFrame, hpoll, hframe]
  rfl

theorem tick_of_none {e : Execution} (he : e.frames = f.awaiting id :: callers)
    (hfree : Free s.limits e) {h : Host σ} {w w' : σ} (hpoll : h.poll w id = ⟨none, w', false⟩) :
    e.tick h s ⟨w, false⟩ = ({ e with ticks := e.ticks + 1 }, ⟨w', false⟩, .suspend .blocking) := by
  rw [hfree.tick, he]
  simp only [dispatch, Frame.awaiting, pollFrame, hpoll]
  rfl

/-- A step of a thread that gives way with its first tick. -/
theorem step_of_tick {h : Host σ} {w : σ} {w' : World σ} {e e' : Execution} {kind : YieldKind}
    (he : e.IsOn) (htick : e.tick h s ⟨w, false⟩ = (e', w', .suspend kind)) (bound : Nat) :
    e.step h s (bound + 1) ⟨w, false⟩ = some (.yielded kind, w', e') := by
  have hstep : e.step h s (bound + 1) ⟨w, false⟩ = e.run h s (bound + 1) ⟨w, false⟩ := by
    simp [step, he.1, he.2]
  rw [hstep, run_succ bound htick]
  rfl

/-- What is seen while a result is looked for, each time in vain. -/
def lookouts (id : PendingId) (k : Nat) : List Observation :=
  (List.replicate k [.called (.poll id), .gaveWay .blocking]).flatten

/-- **A thread that waits for a result gives way until it comes**, and does nothing but look for
it. -/
theorem history_of_delivers {w' : σ} (hsize : f.stack.size ≤ s.limits.maxStackSize) :
    ∀ (k : Nat) {w : σ} {e : Execution} (seen : List Observation),
      e.frames = f.awaiting id :: callers → e.stopped = false →
      (∀ max, s.limits.maxSteps = some max → e.ticks + k ≤ max) → o.Delivers id v w' k w →
      ∃ x, (∀ bound, history o.recorded s (bound + 1) k ⟨(w, seen), false⟩ e
            = ⟨⟨(x, seen ++ lookouts id k), false⟩, { e with ticks := e.ticks + k },
              List.replicate k (.yielded .blocking)⟩)
        ∧ o.host.poll x id = ⟨some v, w', false⟩
  | 0, w, e, seen, _, _, _, hdeliver => by
    refine ⟨w, fun bound => ?_, hdeliver⟩
    rw [history]
    simp [lookouts]
  | k + 1, w, e, seen, he, hstopped, hticks, hdeliver => by
    obtain ⟨u, hnone, hdeliver⟩ := hdeliver
    have hfree : Free s.limits e := by
      refine ⟨by rw [he]; exact fits_awaiting hsize, fun max hmax => ?_⟩
      have := hticks max hmax
      omega
    have hticks' : ∀ max, s.limits.maxSteps = some max → e.ticks + 1 + k ≤ max := by
      intro max hmax
      have := hticks max hmax
      omega
    have hpoll : o.recorded.host.poll (w, seen) id
        = ⟨none, (u, seen ++ [.called (.poll id)]), false⟩ := by
      change (o.host.poll w id).noting seen _ = _
      rw [hnone]
      rfl
    obtain ⟨x, hhistory, hx⟩ := history_of_delivers hsize k (e := { e with ticks := e.ticks + 1 })
      (seen ++ [.called (.poll id)] ++ [.gaveWay .blocking]) he hstopped
      hticks' hdeliver
    refine ⟨x, fun bound => ?_, hx⟩
    have hstep := step_of_tick ⟨by simp [he], hstopped⟩ (tick_of_none he hfree hpoll) bound
    rw [history, hstep]
    dsimp only [Outside.after, Outside.recorded] at hhistory ⊢
    rw [hhistory bound]
    simp [lookouts, List.replicate_succ, Nat.add_assoc, Nat.add_comm 1 k]

/-- The steps of a thread whose next tick makes a call with a result that comes later, until that
has come. -/
theorem Calls.history_of_pending {e : Execution} {w u w' : σ} {k : Nat} (seen : List Observation)
    (hcall : Calls s e.frames name args f callers) (hfree : Free s.limits e) (he : e.IsOn)
    (hpending : o.host.callPrimitive w name args = ⟨.pending id, u, false⟩)
    (hdeliver : o.Delivers id v w' k (o.resume .blocking u))
    (hticks : ∀ max, s.limits.maxSteps = some max → e.ticks + k + 2 ≤ max) :
    ∃ x, (∀ bound, history o.recorded s (bound + 1) (k + 1) ⟨(w, seen), false⟩ e
          = ⟨⟨(x, seen ++ [.called (.primitive name args), .gaveWay .blocking] ++ lookouts id k),
            false⟩, { e with frames := f.awaiting id :: callers, ticks := e.ticks + 1 + k },
            List.replicate (k + 1) (.yielded .blocking)⟩)
      ∧ o.host.poll x id = ⟨some v, w', false⟩ := by
  have hpending' : o.recorded.host.callPrimitive (w, seen) name args
      = ⟨.pending id, (u, seen ++ [.called (.primitive name args)]), false⟩ := by
    change (o.host.callPrimitive w name args).noting seen _ = _
    rw [hpending]
    rfl
  have hstep := step_of_tick he (hcall.tick_of_pending hfree hpending')
  have hticks' : ∀ max, s.limits.maxSteps = some max → e.ticks + 1 + k ≤ max := by
    intro max hmax
    have := hticks max hmax
    omega
  obtain ⟨x, hhistory, hx⟩ := history_of_delivers (hcall.size_le hfree.1) k
    (e := { e with frames := f.awaiting id :: callers, ticks := e.ticks + 1 })
    (seen ++ [.called (.primitive name args)] ++ [.gaveWay .blocking]) rfl he.2 hticks' hdeliver
  refine ⟨x, fun bound => ?_, hx⟩
  rw [history, hstep bound]
  dsimp only [Outside.after, Outside.recorded] at hhistory ⊢
  rw [hhistory bound]
  simp [List.replicate_succ]

end Execution

/-! ## Whole runs -/

namespace Linked

variable {l : Linked} {s : Setting} {o : Outside σ} {p : Outside τ} {R : σ → τ → Prop}
  {x : σ} {y : τ}

/-- What has come of a linked routine after some steps, from a state of the outside. -/
def history (l : Linked) (o : Outside σ) (s : Setting) (w : σ) (bound steps : Nat) :
    History (σ × List Observation) :=
  Execution.history o.recorded s bound steps ⟨(w, []), false⟩ (Execution.start l)

/-- The calls that were made meanwhile, without the looks for results. -/
def calls (l : Linked) (o : Outside σ) (s : Setting) (w : σ) (bound steps : Nat) : List HostEvent :=
  Observation.calls (l.history o s w bound steps).world.host.2

theorem exists_calls_prefix (hR : o.DiffersInDelay p R) (hxy : R x y)
    (hx : ∀ bound steps, (l.history o s x bound steps).Unhindered)
    (hy : ∀ bound steps, (l.history p s y bound steps).Unhindered) (bound steps : Nat) :
    ∃ bound' steps', l.calls o s x bound steps <+: l.calls p s y bound' steps' := by
  obtain ⟨k, -, hk⟩ := Execution.exists_moves_history steps rfl (hx bound steps)
  have hpending : ∀ f ∈ (Execution.start l).frames,
      f.pending = none := by simp [Execution.start, Frame.start]
  obtain ⟨k', hprefix⟩ := Execution.exists_calls_prefix (s := s) hR k hxy rfl hpending
  -- so many steps that the second thread has made these moves
  obtain ⟨k'', hle, hk''⟩ := Execution.exists_moves_history k' rfl (hy k' k')
  refine ⟨k', k', ?_⟩
  unfold calls history
  rw [← hk, ← hk'']
  exact hprefix.trans (Execution.calls_prefix_moves (by omega) _)

end Linked

namespace Execution

/--
**Calls whose results come later are transparent.** Take any linked routines and any setting.

Let a thread be in any state in which its next tick calls a primitive, and let the host answer that
the result comes later, answer `k` times that it has not come yet, and then bring `v`. Then the
thread gives way `k + 1` times, for the reason that something has to happen first, and what is seen
meanwhile is the call and the looks for its result, nothing else. With the next tick it has the
result, and its frames are those that it has if the call is answered by `v` at once.

Now let a thread run on two hosts that differ in delay, neither of which asks it to stop, and come
to the limit of its ticks on neither. Then it makes the same calls on both, apart from the looks for
results: what it has called on one of them after some steps is the beginning of what it has called
on the other one after enough steps.
-/
theorem transparent_of_delay (entry : Linked) (s : Setting) :
    (∀ (σ : Type) (o : Outside σ) (e : Execution) (w u w' : σ) (seen : List Observation)
      (name : String) (args : List Value) (id : PendingId) (v : Value) (k : Nat), e.IsOn →
      (e.tick o.recorded.host s ⟨(w, seen), false⟩).2.1.host.2
        = seen ++ [.called (.primitive name args)] →
      o.host.callPrimitive w name args = ⟨.pending id, u, false⟩ →
      o.Delivers id v w' k (o.resume .blocking u) →
      (∀ max, s.limits.maxSteps = some max → e.ticks + k + 2 ≤ max) →
      ∃ x e₁ e₂ seen', seen' = seen ++ [.called (.primitive name args), .gaveWay .blocking]
            ++ lookouts id k
        ∧ (∀ bound, history o.recorded s (bound + 1) (k + 1) ⟨(w, seen), false⟩ e
          = ⟨⟨(x, seen'), false⟩, e₁, List.replicate (k + 1) (.yielded .blocking)⟩)
        ∧ e₁.tick o.recorded.host s ⟨(x, seen'), false⟩
          = (e₂, ⟨(w', seen' ++ [.called (.poll id)]), false⟩, .next)
        ∧ ∀ (τ : Type) (h : Host τ) (y z : τ), h.callPrimitive y name args = ⟨.ready v, z, false⟩ →
          ∃ e₃, e.tick h s ⟨y, false⟩ = (e₃, ⟨z, false⟩, .next) ∧ e₃.frames = e₂.frames)
      ∧ ∀ (σ τ : Type) (o : Outside σ) (p : Outside τ) (R : σ → τ → Prop) (x : σ) (y : τ),
        o.DiffersInDelay p R → R x y →
        (∀ bound steps, (entry.history o s x bound steps).Unhindered) →
        (∀ bound steps, (entry.history p s y bound steps).Unhindered) →
        (∀ bound steps, ∃ bound' steps',
          entry.calls o s x bound steps <+: entry.calls p s y bound' steps')
          ∧ ∀ bound steps, ∃ bound' steps',
            entry.calls p s y bound steps <+: entry.calls o s x bound' steps' := by
  constructor
  · intro σ o e w u w' seen name args id v k he hseen hpending hdeliver hticks
    obtain ⟨hfree, f, callers, hcall⟩ := calls_of_tick hseen
    obtain ⟨x, hhistory, hx⟩ := hcall.history_of_pending seen hfree he hpending hdeliver hticks
    have hpoll : ∀ seen, o.recorded.host.poll (x, seen) id
        = ⟨some v, (w', seen ++ [.called (.poll id)]), false⟩ := by
      intro seen
      change (o.host.poll x id).noting seen _ = _
      rw [hx]
      rfl
    have hfree' : Free s.limits
        { e with frames := f.awaiting id :: callers, ticks := e.ticks + 1 + k } := by
      refine ⟨fits_awaiting (hcall.size_le hfree.1), fun max hmax => ?_⟩
      have := hticks max hmax
      dsimp only
      omega
    exact ⟨x, _, _, _, rfl, hhistory, tick_of_some rfl hcall.pending hfree' (hpoll _),
      fun τ h y z hready => ⟨_, hcall.tick_of_ready hfree hready, rfl⟩⟩
  · intro σ τ o p R x y hR hxy hx hy
    constructor
    · exact Linked.exists_calls_prefix hR hxy hx hy
    · exact Linked.exists_calls_prefix hR.symm hxy hy hx

end Execution

/-! ## Scripted hosts -/

/-- Scripted hosts as an outside where no time passes. -/
def Outside.still : Outside ScriptedHost := ⟨ScriptedHost.host, fun _ s => s⟩

namespace ScriptedHost

/-- The hosts have the same answers and have brought all results, but may be slow in different
ways. -/
structure SameAnswers (x y : ScriptedHost) : Prop where
  clock : x.clock = y.clock
  deadlines : x.deadlines = y.deadlines
  vars : x.vars = y.vars
  results : x.results = y.results
  pending : x.pending = [] ∧ y.pending = []

/-- An answer for a name depends on the answers that are left. -/
theorem exists_takeResult (results : List (String × List Value)) (name : String) :
    ∃ v results', ∀ x : ScriptedHost, x.results = results →
      x.takeResult name = (v, { x with results := results' }) := by
  cases hnext : (results.lookup name).bind takeNext with
  | none =>
    refine ⟨.empty, results, fun x hx => ?_⟩
    subst hx
    simp [takeResult, hnext]
  | some r =>
    obtain ⟨v, rest⟩ := r
    refine ⟨v, put name rest results, fun x hx => ?_⟩
    subst hx
    simp [takeResult, hnext]

/-- A result comes after some looks for it, and they change nothing else. -/
theorem exists_await (id : PendingId) (v : Value) : ∀ (polls : Nat) (x : ScriptedHost),
    x.pending = [⟨id, polls, v⟩] →
    ∃ n events, Outside.still.await id n x = .ok v { x with pending := [], events := events }
  | 0, x, hx | 1, x, hx => by
    have hpoll : x.poll id = ⟨some v, { x with pending := [], events := .poll id :: x.events },
        x.stopOn.contains "poll"⟩ := by
      simp [poll, hx, record]
    refine ⟨1, .poll id :: x.events, ?_⟩
    rw [Outside.await_of_some (v := v) (by rw [Outside.still, host]; dsimp only; rw [hpoll])]
    rw [Outside.still, host]
    dsimp only
    rw [hpoll]
  | polls + 2, x, hx => by
    have hpoll : x.poll id = ⟨none, { x with
        pending := [⟨id, polls + 1, v⟩], events := .poll id :: x.events },
        x.stopOn.contains "poll"⟩ := by
      simp [poll, hx, record]
    obtain ⟨n, events, hawait⟩ := exists_await id v (polls + 1)
      { x with pending := [⟨id, polls + 1, v⟩], events := .poll id :: x.events } rfl
    refine ⟨n + 1, events, ?_⟩
    rw [Outside.await_of_none (by rw [Outside.still, host]; dsimp only; rw [hpoll])]
    rw [Outside.still, host] at hawait ⊢
    dsimp only at hawait ⊢
    rw [hpoll]
    exact hawait

/-- The result of a call is the next answer for its name, whether it comes at once or later. -/
theorem exists_callPrimitive (results : List (String × List Value)) (name : String)
    (args : List Value) :
    ∃ v results', ∀ x : ScriptedHost, x.results = results → x.pending = [] →
      ∃ n x', Outside.still.callPrimitive n name args x = .ok v x' ∧ x'.clock = x.clock
        ∧ x'.deadlines = x.deadlines ∧ x'.vars = x.vars ∧ x'.results = results'
        ∧ x'.pending = [] := by
  obtain ⟨v, results', htake⟩ := exists_takeResult results name
  refine ⟨v, results', fun x hx hpending => ?_⟩
  have htake := htake (x.record (.primitive name args)) hx
  cases hslow : x.slow.lookup name with
  | none =>
    have hcall : Outside.still.host.callPrimitive x name args = ⟨.ready v,
        { x.record (.primitive name args) with results := results' }, x.stopOn.contains name⟩ := by
      change x.callPrimitive name args = _
      simp [callPrimitive, htake, hslow]
    refine ⟨0, _, Outside.callPrimitive_of_ready (by rw [hcall]) 0, ?_⟩
    rw [hcall]
    exact ⟨rfl, rfl, rfl, rfl, hpending⟩
  | some polls =>
    have hcall : Outside.still.host.callPrimitive x name args = ⟨.pending x.nextId,
        { x.record (.primitive name args) with
          results := results', nextId := x.nextId + 1, pending := [⟨x.nextId, polls, v⟩] },
        x.stopOn.contains name⟩ := by
      change x.callPrimitive name args = _
      simp [callPrimitive, htake, hslow, hpending]
    obtain ⟨n, events, hawait⟩ :=
      exists_await x.nextId v polls _ (congrArg (fun r => r.host.pending) hcall)
    refine ⟨n, _, (Outside.callPrimitive_of_pending (by rw [hcall]) n).trans hawait, ?_⟩
    rw [hcall]
    exact ⟨rfl, rfl, rfl, rfl, rfl⟩

/-- **Scripted hosts that are slow in different ways differ in delay only.** -/
theorem differsInDelay_still : Outside.still.DiffersInDelay Outside.still SameAnswers where
  evaluate {x y} hR block opcode inputs := by
    obtain ⟨v, results', htake⟩ := exists_takeResult x.results opcode
    have hx := htake (x.record (.escape block opcode inputs)) rfl
    have hy := htake (y.record (.escape block opcode inputs)) hR.results.symm
    change (x.evaluate block opcode inputs).Agrees _ (y.evaluate block opcode inputs)
    simp only [evaluate, hx, hy]
    exact ⟨rfl, hR.clock, hR.deadlines, hR.vars, rfl, hR.pending⟩
  getVariable {x y} hR name := by
    refine ⟨?_, hR.clock, hR.deadlines, hR.vars, hR.results, hR.pending⟩
    change (x.vars.lookup name).getD _ = (y.vars.lookup name).getD _
    rw [hR.vars]
  setVariable {x y} hR name v := by
    refine ⟨rfl, hR.clock, hR.deadlines, ?_, hR.results, hR.pending⟩
    change put name v x.vars = put name v y.vars
    rw [hR.vars]
  now hR := ⟨hR.clock, hR.clock, hR.deadlines, hR.vars, hR.results, hR.pending⟩
  deadlineElapsed {x y} hR := by
    change x.deadlineElapsed.Agrees _ y.deadlineElapsed
    simp only [deadlineElapsed, takeDeadline, hR.deadlines]
    cases takeNext y.deadlines with
    | none => exact ⟨rfl, hR.clock, hR.deadlines, hR.vars, hR.results, hR.pending⟩
    | some r => exact ⟨rfl, hR.clock, rfl, hR.vars, hR.results, hR.pending⟩
  callPrimitive {x y} hR name args := by
    obtain ⟨v, results', hcall⟩ := exists_callPrimitive x.results name args
    obtain ⟨m, x', hx, hxclock, hxdeadlines, hxvars, hxresults, hxpending⟩ :=
      hcall x rfl hR.pending.1
    obtain ⟨n, y', hy, hyclock, hydeadlines, hyvars, hyresults, hypending⟩ :=
      hcall y hR.results.symm hR.pending.2
    refine Or.inl ⟨m, n, v, x', y', hx, hy, ?_, ?_, ?_, ?_, hxpending, hypending⟩
    · rw [hxclock, hyclock, hR.clock]
    · rw [hxdeadlines, hydeadlines, hR.deadlines]
    · rw [hxvars, hyvars, hR.vars]
    · rw [hxresults, hyresults]
  resume hR _ := hR

/-- A scripted host that has no name to stop at never asks a thread to stop. -/
theorem keeps_stopOn : host.recorded.Keeps fun w => w.stop = false ∧ w.host.1.stopOn = [] := by
  have htake : ∀ (x : ScriptedHost) (name : String), (x.takeResult name).2.stopOn = x.stopOn := by
    intro x name
    unfold takeResult
    split <;> rfl
  constructor
  case callPrimitive =>
    rintro w name args ⟨hstop, hstopOn⟩
    simp only [World.after, Host.recorded, Reply.noting, host, callPrimitive, hstop, hstopOn]
    split <;> exact ⟨rfl, (htake _ name).trans hstopOn⟩
  case poll =>
    rintro w id ⟨hstop, hstopOn⟩
    simp only [World.after, Host.recorded, Reply.noting, host, poll, hstop, hstopOn]
    split
    · split <;> exact ⟨rfl, hstopOn⟩
    · exact ⟨rfl, hstopOn⟩
  case evaluate =>
    rintro w block opcode inputs ⟨hstop, hstopOn⟩
    simp only [World.after, Host.recorded, Reply.noting, host, evaluate, hstop, hstopOn]
    exact ⟨rfl, (htake _ opcode).trans hstopOn⟩
  case deadlineElapsed =>
    rintro w ⟨hstop, hstopOn⟩
    simp only [World.after, Host.recorded, Reply.noting, host, deadlineElapsed, takeDeadline, hstop]
    split <;> exact ⟨rfl, hstopOn⟩
  all_goals
    intro w
    intros
    rename_i hw
    exact ⟨(Bool.or_false _).trans hw.1, hw.2⟩

theorem unhindered_still {x : ScriptedHost} (hx : x.stopOn = []) (l : Linked) {s : Setting}
    (hmax : s.limits.maxSteps = none) (bound steps : Nat) :
    (l.history .still s x bound steps).Unhindered :=
  Execution.unhindered_history (o := Outside.still.recorded) keeps_stopOn (fun _ _ h => h)
    (fun _ h => h.1) hmax bound steps (Execution.start l) ⟨rfl, hx⟩

end ScriptedHost

namespace Execution

/-- The speaker speaks and then reads a variable, whether the host takes its time to speak or
not. -/
theorem transparent_of_delay_speaker :
    ∃ (l : Linked) (x : ScriptedHost) (e : Execution), speakerImage.link .standard = .ok l
      ∧ (e.tick Outside.still.recorded.host {} ⟨(.slowSpeaker, []), false⟩).2.1.host.2
        = [.called (.primitive "looks_say" [.text "hi"])]
      ∧ (e.history Outside.still.recorded {} 1 2 ⟨(.slowSpeaker, []), false⟩).world
        = ⟨(x, [.called (.primitive "looks_say" [.text "hi"]), .gaveWay .blocking,
          .called (.poll 0), .gaveWay .blocking]), false⟩
      ∧ Outside.still.DiffersInDelay .still ScriptedHost.SameAnswers
      ∧ ScriptedHost.SameAnswers {} .slowSpeaker
      ∧ ∀ bound steps, ∃ bound' steps',
        l.calls .still {} {} bound steps <+: l.calls .still {} .slowSpeaker bound' steps' := by
  have hrun : ((speakerImage.link .standard).toOption.map fun l =>
      let e := ((Execution.start l).tick ScriptedHost.host {} ⟨.slowSpeaker, false⟩).1
      (decide (e.frames.length = 1 ∧ e.stopped = false),
        decide ((e.tick Outside.still.recorded.host {} ⟨(.slowSpeaker, []), false⟩).2.1.host.2
          = [.called (.primitive "looks_say" [.text "hi"])]))) = some (true, true) := by
    decide +kernel
  obtain ⟨l, hl, hrun⟩ := Option.map_eq_some_iff.mp hrun
  simp only [Prod.mk.injEq, decide_eq_true_eq] at hrun
  obtain ⟨⟨hlength, hstopped⟩, hseen⟩ := hrun
  have htheorem := transparent_of_delay l {}
  have hon : ((Execution.start l).tick ScriptedHost.host {} ⟨.slowSpeaker, false⟩).1.IsOn := by
    refine ⟨fun hnil => ?_, hstopped⟩
    rw [hnil] at hlength
    cases hlength
  obtain ⟨x, e₁, e₂, seen, rfl, hhistory, -⟩ := htheorem.1 ScriptedHost .still _ .slowSpeaker
    _ _ [] "looks_say" [.text "hi"] 0 .empty 1 hon hseen rfl ⟨_, rfl, rfl⟩ (fun _ h => by cases h)
  have hsame : ScriptedHost.SameAnswers {} .slowSpeaker := ⟨rfl, rfl, rfl, rfl, rfl, rfl⟩
  have hcalls :=
    htheorem.2 _ _ .still .still _ {} .slowSpeaker ScriptedHost.differsInDelay_still hsame
    (ScriptedHost.unhindered_still rfl l rfl) (ScriptedHost.unhindered_still rfl l rfl)
  exact ⟨l, x, _, eq_ok_of_toOption hl, hseen, congrArg History.world (hhistory 0),
    ScriptedHost.differsInDelay_still, hsame, hcalls.1⟩

end Execution

end BlockScript
