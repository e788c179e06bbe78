import BlockScript.Proofs.Actions
import BlockScript.Proofs.Evaluation

/-!
# Turns of the machine

A *turn* is the execution of one instruction, and if that makes the thread give way, what happens
until the thread goes on. Here is what a turn does for each instruction, and what it means that the
machine follows an evaluation.

`Follows n t r Q L` speaks of one evaluation with result `r` and of the machine standing at `t`:
after some turns the machine stands where `Q` says if the evaluation came to its end, or where `L`
says if the routine was left; and if the fuel was used up, it has taken `n` turns at least and has
done to the outside just what the evaluation did. All of this is void once the thread has been
hindered: stopped from the outside, or refused a call because too many frames are active.
-/

namespace BlockScript

/-! ## Turns -/

/-- Where a thread stands. -/
inductive Standing (σ : Type) where
  | on (frames : List Frame) (w : σ)
  | finished (w : σ)
  /-- The thread has been asked to stop. -/
  | stopped (w : σ)
  | failed (fault : Fault) (w : σ)

namespace Standing

variable {σ : Type}

/-- Where a thread stands after an instruction. -/
def settle (o : Outside σ) : List Frame × World σ × Flow → Standing σ
  | (frames, w, flow) =>
    if w.stop then .stopped w.host
    else
      match flow with
      | .next => .on frames w.host
      | .suspend kind => .on frames (o.resume kind w.host)
      | .finished => .finished w.host
      | .stopped => .stopped w.host
      | .fail fault => .failed fault w.host

/-- Where a thread stands after the effect of an instruction of its innermost frame. -/
def settleEffect (o : Outside σ) (callers : List Frame) : Frame × World σ × Effect → Standing σ
  | (f, w, effect) => settle o (Execution.applyEffect w f callers effect)

/-- One turn. -/
def turn (o : Outside σ) (s : Setting) : Standing σ → Standing σ
  | .on frames w => settle o (Execution.dispatch o.host s ⟨w, false⟩ frames)
  | t => t

/-- Turns, one after the other. -/
def turns (o : Outside σ) (s : Setting) : Nat → Standing σ → Standing σ
  | 0, t => t
  | n + 1, t => turns o s n (t.turn o s)

/-- The thread was stopped from the outside, or has made too many calls. -/
def Hindered : Standing σ → Prop
  | .stopped _ | .failed (.callDepthExceeded _) _ => True
  | _ => False

variable {o : Outside σ} {s : Setting}

theorem turns_add (m n : Nat) (t : Standing σ) :
    t.turns o s (m + n) = (t.turns o s m).turns o s n := by
  induction m generalizing t with
  | zero => rw [Nat.zero_add, turns]
  | succ m ih => rw [Nat.succ_add, turns, ih, turns]

/-- A thread that is no longer on stays as it is. -/
theorem turns_eq_self {t : Standing σ} (ht : t.turn o s = t) (n : Nat) : t.turns o s n = t := by
  induction n with
  | zero => rfl
  | succ n ih => rw [turns, ht, ih]

/-! ## Following an evaluation -/

/-- From `t` the machine does what the evaluation with the result `r` does. -/
def Follows (o : Outside σ) (s : Setting) {α : Type} (n : Nat) (t : Standing σ)
    (r : EStateM.Result Exit σ α) (Q : α → σ → Standing σ → Prop)
    (L : σ → Standing σ → Prop) : Prop :=
  ∃ k, (t.turns o s k).Hindered ∨
    match r with
    | .ok a w => Q a w (t.turns o s k)
    | .error .left w => L w (t.turns o s k)
    | .error .exhausted w => n ≤ k ∧ ∃ frames, t.turns o s k = .on frames w
    | .error (.missing _) _ => False

namespace Follows

variable {α β : Type} {n : Nat} {t t' : Standing σ} {Q : α → σ → Standing σ → Prop}
  {L : σ → Standing σ → Prop}

/-- Nothing is left to do. -/
theorem pure {a : α} {w : σ} (h : Q a w t) : Follows o s n t (.ok a w) Q L :=
  ⟨0, Or.inr h⟩

/-- Turns before which nothing has been evaluated. -/
theorem after {r : EStateM.Result Exit σ α} {k : Nat} (ht : t.turns o s k = t')
    (h : Follows o s n t' r Q L) : Follows o s (n + k) t r Q L := by
  obtain ⟨k', hk'⟩ := h
  refine ⟨k + k', ?_⟩
  rw [turns_add, ht]
  rcases hk' with hk' | hk'
  · exact Or.inl hk'
  refine Or.inr ?_
  match r, hk' with
  | .ok a w, hk' => exact hk'
  | .error .left w, hk' => exact hk'
  | .error .exhausted w, hk' => exact ⟨by omega, hk'.2⟩

/-- Less is asked of an evaluation with less fuel. -/
theorem mono {r : EStateM.Result Exit σ α} {m : Nat} (hm : m ≤ n) (h : Follows o s n t r Q L) :
    Follows o s m t r Q L := by
  obtain ⟨k, hk⟩ := h
  refine ⟨k, hk.imp_right fun hk => ?_⟩
  match r, hk with
  | .ok a w, hk => exact hk
  | .error .left w, hk => exact hk
  | .error .exhausted w, hk => exact ⟨by omega, hk.2⟩

/-- One evaluation after another. -/
theorem bind {x : Evaluation σ α} {f : α → Evaluation σ β} {w : σ}
    {Q' : β → σ → Standing σ → Prop} (hx : Follows o s n t (x w) Q L)
    (hf : ∀ a w' t', Q a w' t' → Follows o s n t' (f a w') Q' L) :
    Follows o s n t ((x >>= f) w) Q' L := by
  obtain ⟨k, hk⟩ := hx
  rcases hk with hk | hk
  · exact ⟨k, Or.inl hk⟩
  cases hr : x w with
  | ok a w' =>
    have hbind : (x >>= f) w = f a w' := by
      change EStateM.bind x f w = _
      rw [EStateM.bind, hr]
    rw [hr] at hk
    rw [hbind]
    exact mono (Nat.le_add_right n k) (after rfl (hf a w' _ hk))
  | error e w' =>
    have hbind : (x >>= f) w = .error e w' := by
      change EStateM.bind x f w = _
      rw [EStateM.bind, hr]
    rw [hr] at hk
    rw [hbind]
    cases e with
    | left | exhausted => exact ⟨k, Or.inr hk⟩
    | missing key => exact hk.elim

/-- One turn before which nothing has been evaluated. It counts when the fuel is used up later. -/
theorem step_succ {r : EStateM.Result Exit σ α} (ht : t.turn o s = t')
    (h : Follows o s n t' r Q L) : Follows o s (n + 1) t r Q L :=
  after (k := 1) ht h

/-- One turn before which nothing has been evaluated. -/
theorem step {r : EStateM.Result Exit σ α} (ht : t.turn o s = t') (h : Follows o s n t' r Q L) :
    Follows o s n t r Q L :=
  mono (Nat.le_succ n) (step_succ ht h)

/-- One turn in which a call is made to the host. It counts when the fuel is used up later. -/
theorem ask_succ {call : σ → Reply σ β} {f : β → Evaluation σ α} {w : σ} {u : β → σ → Standing σ}
    (ht : t.turn o s = if (call w).stop then .stopped (call w).host
      else u (call w).answer (call w).host)
    (h : ∀ b w', Follows o s n (u b w') (f b w') Q L) :
    Follows o s (n + 1) t ((Outside.ask call >>= f) w) Q L := by
  have hbind : (Outside.ask call >>= f) w = f (call w).answer (call w).host := rfl
  rw [hbind]
  split at ht
  · exact ⟨1, Or.inl (by rw [turns, turns, ht]; trivial)⟩
  · exact step_succ ht (h _ _)

/-- One turn in which a call is made to the host. -/
theorem ask {call : σ → Reply σ β} {f : β → Evaluation σ α} {w : σ} {u : β → σ → Standing σ}
    (ht : t.turn o s = if (call w).stop then .stopped (call w).host
      else u (call w).answer (call w).host)
    (h : ∀ b w', Follows o s n (u b w') (f b w') Q L) :
    Follows o s n t ((Outside.ask call >>= f) w) Q L :=
  mono (Nat.le_succ n) (ask_succ ht h)

/-- One turn in which the last call is made to the host. -/
theorem ask_end {call : σ → Reply σ α} {w : σ} {u : α → σ → Standing σ}
    (ht : t.turn o s = if (call w).stop then .stopped (call w).host
      else u (call w).answer (call w).host)
    (h : ∀ a w', Q a w' (u a w')) : Follows o s n t (Outside.ask call w) Q L := by
  change Follows o s n t (.ok (call w).answer (call w).host) Q L
  split at ht
  · exact ⟨1, Or.inl (by rw [turns, turns, ht]; trivial)⟩
  · exact step ht (pure (h _ _))

/-- More may be said of an end. -/
theorem imp {r : EStateM.Result Exit σ α} {Q' : α → σ → Standing σ → Prop}
    (h : Follows o s n t r Q L) (hQ : ∀ a w t', Q a w t' → Q' a w t') :
    Follows o s n t r Q' L := by
  obtain ⟨k, hk⟩ := h
  refine ⟨k, hk.imp_right fun hk => ?_⟩
  match r, hk with
  | .ok a w, hk => exact hQ a w _ hk
  | .error .left w, hk => exact hk
  | .error .exhausted w, hk => exact hk

/-- One turn after all has been evaluated. -/
theorem extend {r : EStateM.Result Exit σ α} {Q' : α → σ → Standing σ → Prop}
    (h : Follows o s n t r Q L) (hQ : ∀ a w t', Q a w t' → Q' a w (t'.turn o s)) :
    Follows o s n t r Q' L := by
  obtain ⟨k, hk⟩ := h
  rcases hk with hk | hk
  · exact ⟨k, Or.inl hk⟩
  match r, hk with
  | .ok a w, hk => exact ⟨k + 1, Or.inr (by rw [turns_add]; exact hQ a w _ hk)⟩
  | .error .left w, hk => exact ⟨k, Or.inr hk⟩
  | .error .exhausted w, hk => exact ⟨k, Or.inr hk⟩

/-- A routine that was left or has come to its end, and one turn that takes the thread out of it. -/
theorem leaving {e : Evaluation σ Unit} {w : σ} {Q : Unit → σ → Standing σ → Prop}
    {L' : σ → Standing σ → Prop} {u : σ → Standing σ} (h : Follows o s n t (e w) Q L)
    (hQ : ∀ w' t', Q () w' t' → t'.turn o s = u w') (hL : ∀ w' t', L w' t' → t'.turn o s = u w') :
    Follows o s n t (e.leaving w) (fun _ w' t' => t' = u w') L' := by
  obtain ⟨k, hk⟩ := h
  rcases hk with hk | hk
  · exact ⟨k, Or.inl hk⟩
  unfold Evaluation.leaving
  match e w, hk with
  | .ok () w', hk => exact ⟨k + 1, Or.inr (by rw [turns_add]; exact hQ w' _ hk)⟩
  | .error .left w', hk => exact ⟨k + 1, Or.inr (by rw [turns_add]; exact hL w' _ hk)⟩
  | .error .exhausted w', hk => exact ⟨k, Or.inr hk⟩

end Follows

end Standing

/-! ## Instructions -/

/-- A frame that waits for nothing. -/
def Linked.frame (l : Linked) (args : List Value) (pc : Nat) (st locals : List Value) : Frame where
  routine := l
  pc := pc
  stack := st.toArray
  locals := locals.toArray
  args := args

namespace Linked

variable {σ : Type} {l : Linked} {args : List Value} {pc : Nat} {st locals : List Value}
  {w : World σ}

theorem push_frame (v : Value) :
    (l.frame args pc st locals).push v = l.frame args pc (st ++ [v]) locals := by
  simp [frame, Frame.push]

theorem advance_frame : (l.frame args pc st locals).advance = l.frame args (pc + 1) st locals := rfl

theorem setLocal_frame (i : UInt16) (v : Value) :
    (l.frame args pc st locals).setLocal i v = l.frame args pc st (locals.set i.toNat v) := by
  simp [frame, Frame.setLocal]

theorem withValue_frame (v : Value) (k : Value → Frame → Frame × World σ × Effect) :
    (l.frame args pc (st ++ [v]) locals).withValue w k = k v (l.frame args pc st locals) := by
  simp [frame, Frame.withValue]

theorem withValues_frame (vs : List Value) {n : Nat} (hn : vs.length = n)
    (k : List Value → Frame → Frame × World σ × Effect) :
    (l.frame args pc (st ++ vs) locals).withValues w n k = k vs (l.frame args pc st locals) :=
  Frame.withValues_of_append rfl hn k

theorem withLocal_frame {i : UInt16} {v : Value} (hv : locals[i.toNat]? = some v)
    (k : Value → Frame → Frame × World σ × Effect) :
    (l.frame args pc st locals).withLocal w i k = k v (l.frame args pc st locals) := by
  simp [frame, Frame.withLocal, hv]

/-- A jump to a place in the routine. -/
theorem jumpBy_frame {offset : Int32} {target : Nat} (htarget : (pc : Int) + offset.toInt = target)
    (hlt : target < l.image.ops.length) :
    (l.frame args pc st locals).jumpBy w offset = (l.frame args target st locals, w, .next) := by
  have hsize : l.code.size = l.image.ops.length := by simp [l.code_eq]
  simp [frame, Frame.jumpBy, htarget, hsize, hlt]

end Linked

namespace Standing

section Instructions

variable {σ : Type} {o : Outside σ} {s : Setting} {l : Linked} {args : List Value} {pc : Nat}
  {st locals : List Value} {callers : List Frame} {w : σ}

/-- A turn of a frame that waits for no result executes the instruction at its position. -/
theorem turn_frame {f : Frame} {op : Instr} (hop : f.routine.image.ops[f.pc]? = some op)
    (hpending : f.pending = none) :
    (Standing.on (f :: callers) w).turn o s
      = settleEffect o callers (f.exec o.host s callers ⟨w, false⟩ op) := by
  have hcode : f.routine.code[f.pc]? = some op := by simpa [f.routine.code_eq] using hop
  simp only [turn, Execution.dispatch, hpending, hcode]
  rfl

/-- An instruction that neither asks the host nor gives way. -/
theorem turn_next {op : Instr} {f' : Frame} (hop : l.image.ops[pc]? = some op)
    (hexec : (l.frame args pc st locals).exec o.host s callers ⟨w, false⟩ op
      = (f', ⟨w, false⟩, .next)) :
    (Standing.on (l.frame args pc st locals :: callers) w).turn o s = .on (f' :: callers) w := by
  rw [turn_frame hop rfl, hexec]
  rfl

theorem turn_push {v : Value} (hop : l.image.ops[pc]? = some (.push v)) :
    (Standing.on (l.frame args pc st locals :: callers) w).turn o s
      = .on (l.frame args (pc + 1) (st ++ [v]) locals :: callers) w :=
  turn_next hop (by rw [Frame.exec, Linked.push_frame, Linked.advance_frame])

theorem turn_loadArg {i : UInt16} {v : Value} (hop : l.image.ops[pc]? = some (.loadArg i))
    (hv : args[i.toNat]? = some v) :
    (Standing.on (l.frame args pc st locals :: callers) w).turn o s
      = .on (l.frame args (pc + 1) (st ++ [v]) locals :: callers) w := by
  refine turn_next hop ?_
  have hargs : (l.frame args pc st locals).args[i.toNat]? = some v := hv
  rw [Frame.exec, hargs]
  simp only [Linked.push_frame, Linked.advance_frame]

theorem turn_drop {v : Value} (hop : l.image.ops[pc]? = some .drop) :
    (Standing.on (l.frame args pc (st ++ [v]) locals :: callers) w).turn o s
      = .on (l.frame args (pc + 1) st locals :: callers) w :=
  turn_next hop (by rw [Frame.exec, Linked.withValue_frame, Linked.advance_frame])

theorem turn_storeLocal {i : UInt16} {v : Value} (hop : l.image.ops[pc]? = some (.storeLocal i))
    (hi : i.toNat < locals.length) :
    (Standing.on (l.frame args pc (st ++ [v]) locals :: callers) w).turn o s
      = .on (l.frame args (pc + 1) st (locals.set i.toNat v) :: callers) w := by
  refine turn_next hop ?_
  have hsize : i.toNat < (l.frame args pc st locals).locals.size := by simpa [Linked.frame] using hi
  rw [Frame.exec, Linked.withValue_frame, if_pos hsize, Linked.setLocal_frame, Linked.advance_frame]

theorem turn_callSupport {i argc : UInt16} {f : Support} {vs : List Value}
    (hop : l.image.ops[pc]? = some (.callSupport i argc)) (hf : l.support[i.toNat]? = some f)
    (hvs : vs.length = argc.toNat) :
    (Standing.on (l.frame args pc (st ++ vs) locals :: callers) w).turn o s
      = .on (l.frame args (pc + 1) (st ++ [f.apply vs]) locals :: callers) w := by
  refine turn_next hop ?_
  have hsupport : (l.frame args pc (st ++ vs) locals).routine.support[i.toNat]? = some f := hf
  rw [Frame.exec, hsupport]
  simp only [Linked.withValues_frame vs hvs, Linked.push_frame, Linked.advance_frame]

theorem turn_jump {offset : Int32} {target : Nat} (hop : l.image.ops[pc]? = some (.jump offset))
    (htarget : (pc : Int) + offset.toInt = target) (hlt : target < l.image.ops.length) :
    (Standing.on (l.frame args pc st locals :: callers) w).turn o s
      = .on (l.frame args target st locals :: callers) w :=
  turn_next hop (by rw [Frame.exec, Linked.jumpBy_frame htarget hlt])

/-- A jump on a truth value. -/
theorem turn_jumpIf {op : Instr} {taken b : Bool} {offset : Int32} {target : Nat}
    (hop : l.image.ops[pc]? = some op)
    (hkind : op = if taken then .jumpIfTrue offset else .jumpIfFalse offset)
    (htarget : (pc : Int) + offset.toInt = target) (hlt : target < l.image.ops.length) :
    (Standing.on (l.frame args pc (st ++ [.bool b]) locals :: callers) w).turn o s
      = .on (l.frame args (if b = taken then target else pc + 1) st locals :: callers) w := by
  refine turn_next hop ?_
  have hexec : (l.frame args pc (st ++ [.bool b]) locals).exec o.host s callers ⟨w, false⟩ op
      = (l.frame args pc (st ++ [.bool b]) locals).jumpIf ⟨w, false⟩ taken offset := by
    subst hkind
    cases taken <;> rfl
  rw [hexec, Frame.jumpIf, Linked.withValue_frame]
  by_cases hb : b = taken
  · simp only [hb, if_true]
    rw [Linked.jumpBy_frame htarget hlt]
  · simp only [hb, if_false]
    rw [Linked.advance_frame]

theorem turn_countdown {i : UInt16} {exit : Int32} {n : Number} {target : Nat}
    (hop : l.image.ops[pc]? = some (.countdown i exit)) (hn : locals[i.toNat]? = some (.number n))
    (htarget : (pc : Int) + exit.toInt = target) (hlt : target < l.image.ops.length) :
    (Standing.on (l.frame args pc st locals :: callers) w).turn o s
      = if Number.half.le n then
          .on (l.frame args (pc + 1) st (locals.set i.toNat (.number (n.sub 1))) :: callers) w
        else .on (l.frame args target st locals :: callers) w := by
  by_cases hhalf : Number.half.le n
  · rw [if_pos hhalf]
    refine turn_next hop ?_
    rw [Frame.exec, Frame.countdown, Linked.withLocal_frame hn]
    simp only [hhalf, if_true, Linked.setLocal_frame, Linked.advance_frame]
  · rw [if_neg hhalf]
    refine turn_next hop ?_
    rw [Frame.exec, Frame.countdown, Linked.withLocal_frame hn]
    simp only [hhalf]
    rw [if_neg (by simp), Linked.jumpBy_frame htarget hlt]

theorem turn_yield {kind : YieldKind} (hop : l.image.ops[pc]? = some (.yield kind)) :
    (Standing.on (l.frame args pc st locals :: callers) w).turn o s
      = .on (l.frame args (pc + 1) st locals :: callers) (o.resume kind w) := by
  rw [turn_frame hop rfl, Frame.exec]
  rfl

theorem turn_getVariable {name : String} (hop : l.image.ops[pc]? = some (.getVariable name)) :
    (Standing.on (l.frame args pc st locals :: callers) w).turn o s
      = if (o.host.getVariable w name).stop then .stopped (o.host.getVariable w name).host
        else
          .on (l.frame args (pc + 1) (st ++ [(o.host.getVariable w name).answer]) locals :: callers)
            (o.host.getVariable w name).host := by
  rw [turn_frame hop rfl, Frame.exec]
  simp only [Linked.push_frame, Linked.advance_frame]
  rfl

theorem turn_setVariable {name : String} {v : Value}
    (hop : l.image.ops[pc]? = some (.setVariable name)) :
    (Standing.on (l.frame args pc (st ++ [v]) locals :: callers) w).turn o s
      = if (o.host.setVariable w name v).stop then .stopped (o.host.setVariable w name v).host
        else .on (l.frame args (pc + 1) st locals :: callers)
          (o.host.setVariable w name v).host := by
  rw [turn_frame hop rfl, Frame.exec, Linked.withValue_frame, Linked.advance_frame]
  rfl

/-- After a call that may stop the thread at once, it has been stopped or goes on. -/
theorem settle_flowAfterCall {frames : List Frame} {w : World σ} :
    settle o (frames, w, Execution.flowAfterCall w)
      = if w.stop then .stopped w.host else .on frames w.host := by
  obtain ⟨host, stop⟩ := w
  cases stop <;> rfl

theorem turn_escape {block : BlockId} {opcode : String} {names : List String} {vs : List Value}
    (hop : l.image.ops[pc]? = some (.escape block opcode names)) (hvs : vs.length = names.length)
    (hlt : names.length < 65536) {reply : Reply σ Value}
    (hreply : o.host.evaluate w block opcode (names.zip vs) = reply) :
    (Standing.on (l.frame args pc (st ++ vs) locals :: callers) w).turn o s
      = if reply.stop then .stopped reply.host
        else .on (l.frame args (pc + 1) (st ++ [reply.answer]) locals :: callers) reply.host := by
  have hlen : vs.length = names.length % 65536 := by rw [hvs, Nat.mod_eq_of_lt hlt]
  rw [turn_frame hop rfl, Frame.exec, Linked.withValues_frame vs hlen, hreply]
  simp only [Linked.push_frame, Linked.advance_frame]
  rw [settleEffect, Execution.applyEffect, settle_flowAfterCall]
  rfl

theorem turn_startTimer {v : Value} (hop : l.image.ops[pc]? = some .startTimer) :
    (Standing.on (l.frame args pc (st ++ [v]) locals :: callers) w).turn o s
      = if (o.host.now w).stop then .stopped (o.host.now w).host
        else .on ({ l.frame args (pc + 1) st locals with
          timer := some ⟨(o.host.now w).answer, v.toNumber⟩ } :: callers) (o.host.now w).host := by
  rw [turn_frame hop rfl, Frame.exec, Linked.withValue_frame]
  rfl

theorem turn_yield_timer {kind : YieldKind} {timer : Timer}
    (hop : l.image.ops[pc]? = some (.yield kind)) :
    (Standing.on ({ l.frame args pc st locals with timer := some timer } :: callers) w).turn o s
      = .on ({ l.frame args (pc + 1) st locals with timer := some timer } :: callers)
          (o.resume kind w) := by
  rw [turn_frame hop rfl, Frame.exec]
  rfl

theorem turn_waitTimer {timer : Timer} (hop : l.image.ops[pc]? = some .waitTimer) :
    (Standing.on ({ l.frame args pc st locals with timer := some timer } :: callers) w).turn o s
      = if (o.host.now w).stop then .stopped (o.host.now w).host
        else if ((o.host.now w).answer.sub timer.start).lt timer.duration then
          .on ({ l.frame args pc st locals with timer := some timer } :: callers)
            (o.resume .blocking (o.host.now w).host)
        else .on (l.frame args (pc + 1) st locals :: callers) (o.host.now w).host := by
  rw [turn_frame hop rfl, Frame.exec, Frame.waitTimer]
  by_cases hlt : ((o.host.now w).answer.sub timer.start).lt timer.duration
  · simp only [hlt, if_true]
    rfl
  · simp only [hlt]
    rfl

/-- A round after which the deadline is looked at. -/
theorem turn_checkDeadline {i : UInt16} {interval : UInt32} {n : Number}
    (hop : l.image.ops[pc]? = some (.checkDeadline i interval))
    (hn : locals[i.toNat]? = some (.number n)) (hnan : n.isNaN = false)
    (hle : (Number.ofNat interval.toNat).le (n.add 1) = true) :
    (Standing.on (l.frame args pc st locals :: callers) w).turn o s
      = if (o.host.deadlineElapsed w).stop then .stopped (o.host.deadlineElapsed w).host
        else .on (l.frame args (pc + 1) st (locals.set i.toNat (.number Number.zero)) :: callers)
          (if (o.host.deadlineElapsed w).answer then o.resume .soft (o.host.deadlineElapsed w).host
            else (o.host.deadlineElapsed w).host) := by
  have hnumber : (Value.number n).toNumber = n := by simp [Value.toNumber, Value.reading, hnan]
  rw [turn_frame hop rfl, Frame.exec, Frame.checkDeadline, Linked.withLocal_frame hn]
  simp only [hnumber, hle, if_true, Linked.setLocal_frame, Linked.advance_frame]
  cases (o.host.deadlineElapsed w).answer <;> rfl

/-- A round after which the deadline is not looked at yet. -/
theorem turn_checkDeadline_early {i : UInt16} {interval : UInt32} {n : Number}
    (hop : l.image.ops[pc]? = some (.checkDeadline i interval))
    (hn : locals[i.toNat]? = some (.number n)) (hnan : n.isNaN = false)
    (hle : ¬ (Number.ofNat interval.toNat).le (n.add 1) = true) :
    (Standing.on (l.frame args pc st locals :: callers) w).turn o s
      = .on (l.frame args (pc + 1) st (locals.set i.toNat (.number (n.add 1))) :: callers) w := by
  have hnumber : (Value.number n).toNumber = n := by simp [Value.toNumber, Value.reading, hnan]
  refine turn_next hop ?_
  rw [Frame.exec, Frame.checkDeadline, Linked.withLocal_frame hn]
  simp only [hnumber, hle, Linked.setLocal_frame, Linked.advance_frame]
  rfl

/-- Where a thread stands after the call of a primitive: its result is on the stack, or the frame
waits for it. -/
def afterCall (o : Outside σ) (l : Linked) (args : List Value) (pc : Nat) (st locals : List Value)
    (callers : List Frame) : CallAnswer → σ → Standing σ
  | .ready v, w => .on (l.frame args (pc + 1) (st ++ [v]) locals :: callers) w
  | .pending id, w =>
    .on ({ l.frame args pc st locals with pending := some id } :: callers) (o.resume .blocking w)

/-- Where a thread stands after a look for the result of a call. -/
def afterPoll (o : Outside σ) (l : Linked) (args : List Value) (pc : Nat) (st locals : List Value)
    (callers : List Frame) (id : PendingId) : Option Value → σ → Standing σ
  | some v, w => .on (l.frame args (pc + 1) (st ++ [v]) locals :: callers) w
  | none, w =>
    .on ({ l.frame args pc st locals with pending := some id } :: callers) (o.resume .blocking w)

theorem turn_callHost {i argc : UInt16} {name : String} {vs : List Value}
    (hop : l.image.ops[pc]? = some (.callHost i argc)) (hname : l.image.host[i.toNat]? = some name)
    (hvs : vs.length = argc.toNat) {reply : Reply σ CallAnswer}
    (hreply : o.host.callPrimitive w name vs = reply) :
    (Standing.on (l.frame args pc (st ++ vs) locals :: callers) w).turn o s
      = if reply.stop then .stopped reply.host
        else afterCall o l args pc st locals callers reply.answer reply.host := by
  have hhost : (l.frame args pc (st ++ vs) locals).routine.image.host[i.toNat]? = some name := hname
  rw [turn_frame hop rfl, Frame.exec, hhost]
  simp only [Linked.withValues_frame vs hvs]
  rw [Frame.callHost, hreply]
  cases reply.answer with
  | ready v =>
    simp only [Linked.push_frame, Linked.advance_frame]
    rw [settleEffect, Execution.applyEffect, settle_flowAfterCall]
    rfl
  | pending id => rfl

/-- A look for a result that comes later. -/
theorem turn_poll {id : PendingId} :
    (Standing.on ({ l.frame args pc st locals with pending := some id } :: callers) w).turn o s
      = if (o.host.poll w id).stop then .stopped (o.host.poll w id).host
        else afterPoll o l args pc st locals callers id (o.host.poll w id).answer
          (o.host.poll w id).host := by
  simp only [turn, Execution.dispatch, Execution.pollFrame]
  cases (o.host.poll w id).answer with
  | some v =>
    rw [settle_flowAfterCall]
    have hframe : ({ l.frame args pc st locals with pending := none }.push v).advance
        = l.frame args (pc + 1) (st ++ [v]) locals := Linked.push_frame v ▸ rfl
    simp only [hframe]
    rfl
  | none => rfl

/-- The call of a variant enters it, unless too many frames are active. -/
theorem turn_callProcedure {i argc : UInt16} {key : VariantKey} {callee : Linked} {vs : List Value}
    (hop : l.image.ops[pc]? = some (.callProcedure i argc))
    (hkey : l.image.procedures[i.toNat]? = some key) (hcallee : s.variants.find? key = some callee)
    (hvs : vs.length = argc.toNat) :
    (Standing.on (l.frame args pc (st ++ vs) locals :: callers) w).turn o s
      = if s.limits.maxCallDepth ≤ callers.length + 1 then
          .failed (.callDepthExceeded s.limits.maxCallDepth) w
        else .on (Frame.start callee vs :: l.frame args (pc + 1) st locals :: callers) w := by
  have hproc : (l.frame args pc (st ++ vs) locals).routine.image.procedures[i.toNat]? = some key :=
    hkey
  rw [turn_frame hop rfl, Frame.exec, hproc]
  simp only [Frame.callProcedure, hcallee]
  by_cases hdepth : s.limits.maxCallDepth ≤ callers.length + 1
  · simp only [hdepth, if_true]
    rfl
  · simp only [hdepth, if_false]
    rw [Linked.withValues_frame vs hvs, Linked.advance_frame]
    rfl

/-- Where a thread stands after its innermost routine was left. -/
def back (callers : List Frame) (w : σ) : Standing σ :=
  if callers.isEmpty then .finished w else .on callers w

theorem turn_ret (hop : l.image.ops[pc]? = some .ret) :
    (Standing.on (l.frame args pc st locals :: callers) w).turn o s = back callers w := by
  rw [turn_frame hop rfl, Frame.exec]
  cases callers <;> rfl

end Instructions

end Standing

end BlockScript
