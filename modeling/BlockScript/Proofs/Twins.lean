import BlockScript.Proofs.Agreement
import BlockScript.Proofs.Evaluation
import BlockScript.Proofs.Marks

/-!
# Frames that do the same

Two frames are twins if they may differ in their code, their positions and their local slots only.
An instruction that neither jumps nor uses a local slot does the same to both of them, if what
surrounds them answers alike.

Here the surroundings do not care about looks at the deadline (`Outside.Overlooks`): their states
may differ by some such looks, and the answers are the same.

Main statement: such an instruction moves twins together (`Frame.Twins.exec`).
-/

namespace BlockScript

variable {σ : Type} {R : σ → σ → Prop}

/-! ## Hosts that do not care about looks at the deadline -/

/-- The replies are the same, and leave related states. -/
def Reply.Same {α : Type} (R : σ → σ → Prop) (a b : Reply σ α) : Prop :=
  a.Agrees R b ∧ a.stop = b.stop

/-- The time is never used up, and neither other answers nor what happens while the thread gives way
depend on how often one has looked. States that differ in this only are related. -/
structure Outside.Overlooks (o : Outside σ) (R : σ → σ → Prop) : Prop where
  symm : ∀ {x y}, R x y → R y x
  deadlineElapsed : ∀ {x y}, R x y → (o.host.deadlineElapsed x).answer = false
    ∧ (o.host.deadlineElapsed x).stop = false ∧ R (o.host.deadlineElapsed x).host y
  evaluate : ∀ {x y}, R x y → ∀ block opcode inputs,
    (o.host.evaluate x block opcode inputs).Same R (o.host.evaluate y block opcode inputs)
  callPrimitive : ∀ {x y}, R x y → ∀ name args,
    (o.host.callPrimitive x name args).Same R (o.host.callPrimitive y name args)
  poll : ∀ {x y}, R x y → ∀ id, (o.host.poll x id).Same R (o.host.poll y id)
  getVariable : ∀ {x y}, R x y → ∀ name,
    (o.host.getVariable x name).Same R (o.host.getVariable y name)
  setVariable : ∀ {x y}, R x y → ∀ name v,
    (o.host.setVariable x name v).Same R (o.host.setVariable y name v)
  now : ∀ {x y}, R x y → (o.host.now x).Same R (o.host.now y)
  resume : ∀ {x y}, R x y → ∀ kind, R (o.resume kind x) (o.resume kind y)

/-- The worlds differ in looks at the deadline only. -/
def World.Alike (R : σ → σ → Prop) (w u : World σ) : Prop := R w.host u.host ∧ w.stop = u.stop

theorem World.Alike.after {w u : World σ} (h : w.Alike R u) {α : Type} {a b : Reply σ α}
    (hab : a.Same R b) : (w.after a).Alike R (u.after b) :=
  ⟨hab.1.2, by rw [World.after, World.after, h.2, hab.2]⟩

/-! ## Instructions side by side -/

namespace Frame

/-- What an instruction has made of two frames: related frames and worlds and the same effect, or
the same fault, unless one of them has come to a limit. -/
inductive Together (R : σ → σ → Prop) (A : Frame → Frame → Prop) (L : Linked → Linked → Prop)
    (f g : Frame) : Frame × World σ × Effect → Frame × World σ × Effect → Prop
  | next {f' g' : Frame} {w u : World σ} (hA : A f' g') (hw : w.Alike R u) :
    Together R A L f g (f', w, .next) (g', u, .next)
  | nextUnlessStopped {f' g' : Frame} {w u : World σ} (hA : A f' g') (hw : w.Alike R u) :
    Together R A L f g (f', w, .nextUnlessStopped) (g', u, .nextUnlessStopped)
  | suspend {f' g' : Frame} {w u : World σ} (kind : YieldKind) (hA : A f' g') (hw : w.Alike R u) :
    Together R A L f g (f', w, .suspend kind) (g', u, .suspend kind)
  | enter {f' g' : Frame} {w u : World σ} {l l' : Linked} (args : List Value) (hA : A f' g')
    (hw : w.Alike R u) (hL : L l l') :
    Together R A L f g (f', w, .enter l args) (g', u, .enter l' args)
  | leave {f' g' : Frame} {w u : World σ} (hw : w.Alike R u) :
    Together R A L f g (f', w, .leave) (g', u, .leave)
  | fail {f' g' : Frame} {w u : World σ} (fault : Fault) (hf : f'.routine = f.routine)
    (hg : g'.routine = g.routine) (hw : w.Alike R u) :
    Together R A L f g (f', w, .fail fault) (g', u, .fail fault)
  | limitLeft {f' : Frame} {w : World σ} {b : Frame × World σ × Effect} {fault : Fault}
    (h : fault.IsLimit) : Together R A L f g (f', w, .fail fault) b
  | limitRight {g' : Frame} {u : World σ} {a : Frame × World σ × Effect} {fault : Fault}
    (h : fault.IsLimit) : Together R A L f g a (g', u, .fail fault)

theorem Together.mono {A B : Frame → Frame → Prop} {L : Linked → Linked → Prop} {f g : Frame}
    {a b : Frame × World σ × Effect} (h : Together R A L f g a b)
    (hAB : ∀ f' g', A f' g' → B f' g') :
    Together R B L f g a b := by
  cases h with
  | next hA hw => exact .next (hAB _ _ hA) hw
  | nextUnlessStopped hA hw => exact .nextUnlessStopped (hAB _ _ hA) hw
  | suspend kind hA hw => exact .suspend kind (hAB _ _ hA) hw
  | enter args hA hw hL => exact .enter args (hAB _ _ hA) hw hL
  | leave hw => exact .leave hw
  | fail fault hf hg hw => exact .fail fault hf hg hw
  | limitLeft h => exact .limitLeft h
  | limitRight h => exact .limitRight h

/-- How an instruction that neither jumps nor uses a local slot moves two frames. -/
inductive MovesTo (op : Instr) (f g : Frame) : Frame → Frame → Prop
  | on (stack : Array Value) (timer : Option Timer)
    (height : f.stack.size + op.effect.2 ≤ stack.size + op.effect.1) :
    MovesTo op f g { f with stack := stack, timer := timer, pc := f.pc + 1 }
      { g with stack := stack, timer := timer, pc := g.pc + 1 }
  | stays : MovesTo op f g f g
  /-- The frames wait for a result. -/
  | waits (stack : Array Value) (id : PendingId) (hop : ∃ i argc, op = .callHost i argc)
    (height : f.stack.size ≤ stack.size + op.effect.1) :
    MovesTo op f g { f with stack := stack, pending := some id }
      { g with stack := stack, pending := some id }

/-- The frames differ in their code, their positions and their local slots only. -/
structure Twins (f g : Frame) : Prop where
  name : f.routine.name = g.routine.name
  support : f.routine.support = g.routine.support
  host : f.routine.image.host = g.routine.image.host
  procedures : f.routine.image.procedures = g.routine.image.procedures
  stack : f.stack = g.stack
  args : f.args = g.args
  timer : f.timer = g.timer

namespace Twins

variable {f g : Frame} {w u : World σ} {op : Instr} {A : Frame → Frame → Prop}
  {L : Linked → Linked → Prop}

theorem withValue (h : f.Twins g) (hsize : 1 ≤ f.stack.size)
    {k l : Value → Frame → Frame × World σ × Effect}
    (hk : ∀ v stack, f.stack.size = stack.size + 1 →
      Together R A L f g (k v { f with stack := stack }) (l v { g with stack := stack })) :
    Together R A L f g (f.withValue w k) (g.withValue u l) := by
  have hback : f.stack.back? = some f.stack[f.stack.size - 1] := by
    rw [Array.back?_eq_getElem?, Array.getElem?_eq_getElem (by omega)]
  rw [Frame.withValue, Frame.withValue, ← h.stack, hback]
  exact hk _ _ (by rw [Array.size_pop]; omega)

theorem withValues (h : f.Twins g) {n : Nat} (hsize : n ≤ f.stack.size)
    {k l : List Value → Frame → Frame × World σ × Effect}
    (hk : ∀ vs stack, f.stack.size = stack.size + n →
      Together R A L f g (k vs { f with stack := stack }) (l vs { g with stack := stack })) :
    Together R A L f g (f.withValues w n k) (g.withValues u n l) := by
  rw [Frame.withValues, Frame.withValues, ← h.stack, if_neg (by omega), if_neg (by omega)]
  exact hk _ _ (by rw [Array.size_shrink]; omega)

/-- Twins go on with another stack. -/
theorem movesOn (h : f.Twins g) {stack : Array Value}
    (height : f.stack.size + op.effect.2 ≤ stack.size + op.effect.1) :
    MovesTo op f g ({ f with stack := stack } : Frame).advance
      ({ g with stack := stack } : Frame).advance := by
  have hmoves : MovesTo op f g _ _ := .on stack f.timer height
  rw [h.timer] at hmoves
  have hf : { f with stack := stack, timer := g.timer, pc := f.pc + 1 }
      = ({ f with stack := stack } : Frame).advance := by rw [← h.timer]; rfl
  rw [hf] at hmoves
  exact hmoves

/-- Twins go on with the stack that they have. -/
theorem movesOn_same (h : f.Twins g) (heffect : op.effect = (0, 0)) :
    MovesTo op f g f.advance g.advance := by
  have hmoves : MovesTo op f g ({ f with stack := f.stack } : Frame).advance
      ({ g with stack := f.stack } : Frame).advance :=
    h.movesOn (Nat.le_of_eq (by rw [heffect]))
  have hg : ({ g with stack := f.stack } : Frame) = g := by rw [h.stack]
  rwa [hg] at hmoves

/-- Twins go on with one value more. -/
theorem movesOn_push (h : f.Twins g) (heffect : op.effect = (0, 1)) (v : Value) :
    MovesTo op f g (f.push v).advance (g.push v).advance := by
  rw [Frame.push, Frame.push, ← h.stack]
  refine h.movesOn ?_
  rw [heffect, Array.size_push]
  exact Nat.le_refl _

/-- **An instruction that neither jumps nor uses a local slot moves twins together.** -/
theorem exec {o : Outside σ} (ho : o.Overlooks R) (h : f.Twins g) (hw : w.Alike R u)
    (hop : op.isFixed = true) (hsize : op.effect.1 ≤ f.stack.size) {s s' : Setting}
    (hs : ∀ k, Option.Rel L (s.variants.find? k) (s'.variants.find? k))
    (callers callers' : List Frame) :
    Together R (MovesTo op f g) L f g (f.exec o.host s callers w op)
      (g.exec o.host s' callers' u op) := by
  cases op with
  | jump | jumpIfFalse | jumpIfTrue | countdown | loadLocal | storeLocal | checkDeadline =>
    cases hop
  | push v => exact .next (h.movesOn_push rfl v) hw
  | drop =>
    simp only [Frame.exec]
    refine h.withValue hsize fun v stack hstack => .next (h.movesOn ?_) hw
    rw [hstack]
    exact Nat.le_refl _
  | loadArg i =>
    simp only [Frame.exec, ← h.args]
    split
    · rw [h.name]
      exact .fail _ rfl rfl hw
    · exact .next (h.movesOn_push rfl _) hw
  | callSupport i argc =>
    simp only [Frame.exec, ← h.support]
    split
    · exact .fail _ rfl rfl hw
    · refine h.withValues hsize fun vs stack hstack => .next (h.movesOn ?_) hw
      rw [hstack, Array.size_push, Nat.add_right_comm]
      exact Nat.le_refl _
  | callHost i argc =>
    simp only [Frame.exec, ← h.host]
    split
    · exact .fail _ rfl rfl hw
    · next name _ =>
      refine h.withValues hsize fun vs stack hstack => ?_
      have hsame := ho.callPrimitive hw.1 name vs
      simp only [Frame.callHost, ← hsame.1.1]
      split
      · refine .nextUnlessStopped (h.movesOn ?_) (hw.after hsame)
        rw [hstack, Array.size_push, Nat.add_right_comm]
        exact Nat.le_refl _
      · exact .suspend _ (.waits stack _ ⟨i, argc, rfl⟩ (Nat.le_of_eq hstack)) (hw.after hsame)
  | escape block opcode inputs =>
    have hle : inputs.length % 65536 ≤ inputs.length := Nat.mod_le _ _
    simp only [Frame.exec]
    refine h.withValues (Nat.le_trans hle hsize) fun vs stack hstack => ?_
    have hsame := ho.evaluate hw.1 block opcode (inputs.zip vs)
    simp only [← hsame.1.1]
    refine .nextUnlessStopped (h.movesOn ?_) (hw.after hsame)
    rw [hstack, Array.size_push]
    change stack.size + _ + 1 ≤ stack.size + 1 + inputs.length
    omega
  | getVariable name =>
    have hsame := ho.getVariable hw.1 name
    simp only [Frame.exec, ← hsame.1.1]
    exact .next (h.movesOn_push rfl _) (hw.after hsame)
  | setVariable name =>
    simp only [Frame.exec]
    refine h.withValue hsize fun v stack hstack => ?_
    refine .next (h.movesOn ?_) (hw.after (ho.setVariable hw.1 name v))
    rw [hstack]
    exact Nat.le_refl _
  | yield kind => exact .suspend kind (h.movesOn_same rfl) hw
  | startTimer =>
    simp only [Frame.exec]
    refine h.withValue hsize fun v stack hstack => ?_
    have hsame := ho.now hw.1
    rw [← hsame.1.1]
    refine .next (.on stack _ ?_) (hw.after hsame)
    rw [hstack]
    exact Nat.le_refl _
  | waitTimer =>
    simp only [Frame.exec, Frame.waitTimer, ← h.timer]
    split
    · exact .next (h.movesOn_same rfl) hw
    · have hsame := ho.now hw.1
      simp only [← hsame.1.1]
      split
      · exact .suspend _ .stays (hw.after hsame)
      · have hmoves : MovesTo .waitTimer f g _ _ := .on f.stack none (Nat.le_refl _)
        have hg : ({ g with stack := f.stack, timer := none, pc := g.pc + 1 } : Frame)
            = ({ g with timer := none } : Frame).advance := by rw [h.stack]; rfl
        rw [hg] at hmoves
        exact .next hmoves (hw.after hsame)
  | callProcedure i argc =>
    simp only [Frame.exec, ← h.procedures]
    split
    · exact .fail _ rfl rfl hw
    · next key _ =>
      have hkey := hs key
      unfold Frame.callProcedure
      generalize s.variants.find? key = callee at hkey
      generalize s'.variants.find? key = callee' at hkey
      cases hkey with
      | none => exact .fail _ rfl rfl hw
      | some hL =>
        dsimp only
        split
        · exact .limitLeft trivial
        · split
          · exact .limitRight trivial
          · refine h.withValues hsize fun vs stack hstack => .enter vs (h.movesOn ?_) hw hL
            rw [hstack]
            exact Nat.le_refl _
  | ret => exact .leave hw

end Twins

end Frame

end BlockScript
