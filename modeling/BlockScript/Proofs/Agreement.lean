import BlockScript.Proofs.Ticks

/-!
# Hosts that answer alike

Two threads with the same frames may run on different hosts. What an instruction does depends on its
frame and on the answer to the one call that it may make, so as long as the hosts give the same
answers the threads do the same. Calls of primitives stand apart: a host may answer that the result
comes later.

Main statement: a tick of a thread that waits for nothing calls a primitive, or does the same on all
hosts that agree (`Execution.calls_or_agrees`).
-/

namespace BlockScript

variable {σ τ : Type}

/-- The replies have the same answer, and leave their hosts in related states. -/
def Reply.Agrees {α : Type} (R : σ → τ → Prop) (a : Reply σ α) (b : Reply τ α) : Prop :=
  a.answer = b.answer ∧ R a.host b.host

/-- In related states the hosts answer alike to all calls but those of primitives and those that
look for the results of such. -/
structure Host.Agrees (h : Host σ) (k : Host τ) (R : σ → τ → Prop) : Prop where
  evaluate : ∀ {x y}, R x y → ∀ block opcode inputs,
    (h.evaluate x block opcode inputs).Agrees R (k.evaluate y block opcode inputs)
  getVariable : ∀ {x y}, R x y → ∀ name, (h.getVariable x name).Agrees R (k.getVariable y name)
  setVariable : ∀ {x y}, R x y → ∀ name v,
    (h.setVariable x name v).Agrees R (k.setVariable y name v)
  now : ∀ {x y}, R x y → (h.now x).Agrees R (k.now y)
  deadlineElapsed : ∀ {x y}, R x y → (h.deadlineElapsed x).Agrees R (k.deadlineElapsed y)

namespace Frame

/-- The frame when it waits for the result of a call. -/
def awaiting (f : Frame) (id : PendingId) : Frame := { f with pending := some id }

/-- An instruction of the frame has done the same in two worlds, and has left them related. -/
def Agrees (R : σ → τ → Prop) (f : Frame) (a : Frame × World σ × Effect)
    (b : Frame × World τ × Effect) : Prop :=
  a.1 = b.1 ∧ a.1.pending = f.pending ∧ R a.2.1.host b.2.1.host ∧ a.2.2 = b.2.2

namespace Agrees

variable {R : σ → τ → Prop} {f : Frame} {w : World σ} {u : World τ}

/-- The instruction makes no call. -/
theorem silent {f' : Frame} {effect : Effect} (hR : R w.host u.host) (hf : f'.pending = f.pending) :
    f.Agrees R (f', w, effect) (f', u, effect) :=
  ⟨rfl, hf, hR, rfl⟩

/-- The frame and the effect after a call depend on the answer only. -/
theorem reply {α : Type} {a : Reply σ α} {b : Reply τ α} (f' : α → Frame) (effect : α → Effect)
    (hR : a.Agrees R b) (hf : ∀ v, (f' v).pending = f.pending) :
    f.Agrees R (f' a.answer, w.after a, effect a.answer)
      (f' b.answer, u.after b, effect b.answer) := by
  obtain ⟨hanswer, hhost⟩ := hR
  rw [hanswer]
  exact ⟨rfl, hf _, hhost, rfl⟩

end Agrees

/-- The instruction of the frame calls a primitive, and `f'` is the frame without the arguments. -/
structure Calls (s : Setting) (callers : List Frame) (f : Frame) (op : Instr) (name : String)
    (args : List Value) (f' : Frame) : Prop where
  exec : ∀ {σ : Type} (h : Host σ) (w : World σ),
    f.exec h s callers w op = f'.callHost h w name args
  pending : f'.pending = f.pending
  size : f'.stack.size ≤ f.stack.size

/-- **An instruction calls a primitive, or does the same on all hosts that agree.** -/
theorem calls_or_agrees (s : Setting) (callers : List Frame) (f : Frame) (op : Instr) :
    (∃ name args f', f.Calls s callers op name args f')
      ∨ ∀ {σ τ : Type} {R : σ → τ → Prop} {h : Host σ} {k : Host τ}, h.Agrees k R →
        ∀ {w : World σ} {u : World τ}, R w.host u.host →
          f.Agrees R (f.exec h s callers w op) (f.exec k s callers u op) := by
  obtain ⟨action, hacts, hexec⟩ := f.exists_acts s callers op
  have hpending := hacts.pending
  cases action with
  | call name args f' =>
    refine Or.inl ⟨name, args, f', hexec, hpending, ?_⟩
    cases hacts with
    | calls _ hstack => exact size_le_of_append hstack
  | done f' effect =>
    refine Or.inr fun _ w u hR => ?_
    rw [hexec, hexec]
    exact .silent hR hpending
  | evaluate block opcode inputs f' =>
    refine Or.inr fun hagree w u hR => ?_
    rw [hexec, hexec]
    exact .reply (fun v => (f'.push v).advance) (fun _ => .nextUnlessStopped)
      (hagree.evaluate hR block opcode inputs) fun _ => hpending
  | get name f' =>
    refine Or.inr fun hagree w u hR => ?_
    rw [hexec, hexec]
    exact .reply (fun v => (f'.push v).advance) (fun _ => .next) (hagree.getVariable hR name)
      fun _ => hpending
  | set name v f' =>
    refine Or.inr fun hagree w u hR => ?_
    rw [hexec, hexec]
    exact .reply (fun _ => f'.advance) (fun _ => .next) (hagree.setVariable hR name v)
      fun _ => hpending
  | now k =>
    refine Or.inr fun hagree w u hR => ?_
    rw [hexec, hexec]
    exact .reply (fun time => (k time).1) (fun time => (k time).2) (hagree.now hR) hpending
  | deadline f' =>
    refine Or.inr fun hagree w u hR => ?_
    rw [hexec, hexec]
    exact .reply (fun _ => f'.advance) (fun elapsed => if elapsed then .suspend .soft else .next)
      (hagree.deadlineElapsed hR) fun _ => hpending

end Frame

namespace Execution

/-- The next instruction calls a primitive. Without its arguments the innermost frame is `f`, and
below that are the `callers`. -/
structure Calls (s : Setting) (frames : List Frame) (name : String) (args : List Value) (f : Frame)
    (callers : List Frame) : Prop where
  dispatch : ∀ {σ : Type} (h : Host σ) (w : World σ), dispatch h s w frames =
    applyEffect (f.callHost h w name args).2.1 (f.callHost h w name args).1 callers
      (f.callHost h w name args).2.2
  pending : f.pending = none
  caller : ∃ g, frames = g :: callers ∧ f.stack.size ≤ g.stack.size

/-- Two ticks have left the same frames, none of which waits for anything, and related worlds; and
the thread gives way in both or in neither. -/
structure Agrees (R : σ → τ → Prop) (a : List Frame × World σ × Flow)
    (b : List Frame × World τ × Flow) : Prop where
  frames : a.1 = b.1
  pending : ∀ f ∈ a.1, f.pending = none
  host : R a.2.1.host b.2.1.host
  suspend : ∀ kind, a.2.2 = .suspend kind ↔ b.2.2 = .suspend kind

/-- The call that an instruction makes is made by the tick. -/
theorem calls_of_frame {s : Setting} {f f' : Frame} {callers : List Frame} {op : Instr}
    {name : String} {args : List Value} (hf : f.pending = none)
    (hop : f.routine.code[f.pc]? = some op) (hcall : f.Calls s callers op name args f') :
    Calls s (f :: callers) name args f' callers := by
  refine ⟨?_, hcall.pending.trans hf, f, rfl, hcall.size⟩
  intro σ h w
  simp only [Execution.dispatch, hf, hop, hcall.exec]

theorem flowAfterCall_ne_suspend (w : World σ) (kind : YieldKind) :
    flowAfterCall w ≠ .suspend kind := by
  unfold flowAfterCall
  split <;> simp

theorem agrees_applyEffect {R : σ → τ → Prop} {f : Frame} {callers : List Frame}
    {a : Frame × World σ × Effect} {b : Frame × World τ × Effect} (hf : f.pending = none)
    (hcallers : ∀ f ∈ callers, f.pending = none) (hab : f.Agrees R a b) :
    Agrees R (applyEffect a.2.1 a.1 callers a.2.2) (applyEffect b.2.1 b.1 callers b.2.2) := by
  obtain ⟨f₁, w, effect⟩ := a
  obtain ⟨f₂, u, effect'⟩ := b
  obtain ⟨rfl, hpending, hR, heffect⟩ := hab
  dsimp only at hpending hR heffect
  subst heffect
  rw [hf] at hpending
  have hcons : ∀ g ∈ f₁ :: callers, g.pending = none :=
    List.forall_mem_cons.mpr ⟨hpending, hcallers⟩
  cases effect with
  | next | suspend | fail => exact ⟨rfl, hcons, hR, fun _ => Iff.rfl⟩
  | nextUnlessStopped =>
    exact ⟨rfl, hcons, hR, fun kind =>
      iff_of_false (flowAfterCall_ne_suspend _ kind) (flowAfterCall_ne_suspend _ kind)⟩
  | enter callee args =>
    exact ⟨rfl, List.forall_mem_cons.mpr ⟨rfl, hcons⟩, hR, fun _ => Iff.rfl⟩
  | leave => exact ⟨rfl, hcallers, hR, fun _ => Iff.rfl⟩

/-- **A tick of a thread that waits for nothing calls a primitive, or does the same on all hosts
that agree.** -/
theorem calls_or_agrees {s : Setting} {frames : List Frame}
    (hframes : ∀ f ∈ frames, f.pending = none) :
    (∃ name args f callers, Calls s frames name args f callers)
      ∨ ∀ {σ τ : Type} {R : σ → τ → Prop} {h : Host σ} {k : Host τ}, h.Agrees k R →
        ∀ {w : World σ} {u : World τ}, R w.host u.host →
          Agrees R (dispatch h s w frames) (dispatch k s u frames) := by
  cases frames with
  | nil => exact Or.inr fun _ _ _ hR => ⟨rfl, hframes, hR, fun _ => Iff.rfl⟩
  | cons f callers =>
    obtain ⟨hf, hcallers⟩ := List.forall_mem_cons.mp hframes
    cases hop : f.routine.code[f.pc]? with
    | none =>
      refine Or.inr fun _ _ _ hR => ?_
      simp only [dispatch, hf, hop]
      exact ⟨rfl, hframes, hR, fun _ => Iff.rfl⟩
    | some op =>
      rcases f.calls_or_agrees s callers op with ⟨name, args, f', hcall⟩ | hagree
      · exact Or.inl ⟨name, args, f', callers, calls_of_frame hf hop hcall⟩
      · refine Or.inr fun hhost w u hR => ?_
        simp only [dispatch, hf, hop]
        exact agrees_applyEffect hf hcallers (hagree hhost hR)

end Execution

end BlockScript
