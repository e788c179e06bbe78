import BlockScript.Proofs.Heights
import BlockScript.Proofs.StackEffects

/-!
# The stack is as high as verification has it

Verification adds up the heights of the stack along code and ignores how control gets about in it.
For compiled code this gives the true heights: jumps lead from an empty stack to an empty stack, and
every other instruction leads to the next one. So the height of a frame's stack and the height that
the pass has at the frame's position are the same when the frame begins, and every instruction
changes both in the same way (`Frame.Level`).

Main statement: the pass has an empty stack wherever control may come from elsewhere or the thread
may give way, and until it fails a thread has in each frame as many values as the pass has there
(`Routine.levels_of_compile`).
-/

namespace BlockScript

namespace Execution

/-- The states that a thread can get into from a first one, between its steps and within them, as
long as nothing has failed. Each step may have a host of its own. -/
inductive Fares (s : Setting) (start : Execution) : Execution → Prop
  | start : Fares s start start
  | tick {σ : Type} {e : Execution} (h : Host σ) (w : World σ) (before : Fares s start e)
    (ok : ∀ fault, (e.tick h s w).2.2 ≠ .fail fault) : Fares s start (e.tick h s w).1
  | step {σ : Type} {e e' : Execution} {outcome : Outcome} {w w' : World σ} (h : Host σ)
    (bound : Nat) (before : Fares s start e) (done : e.step h s bound w = some (outcome, w', e'))
    (ok : ∀ err, outcome ≠ .failed err) : Fares s start e'

end Execution

/-! ## Frames -/

/-- If the frame runs the image, its stack is as high as the pass over the code has it at its
position, or while a result is awaited lower by the arguments of the call. -/
structure Frame.Level (image : Image) (f : Frame) : Prop where
  ready : f.routine.image = image → f.pending = none → heightAt? image.ops f.pc = some f.stack.size
  waiting : f.routine.image = image → f.pending.isSome → ∃ i argc,
    image.ops[f.pc]? = some (.callHost i argc)
      ∧ heightAt? image.ops f.pc = some (f.stack.size + argc.toNat)

/-- The height of the stack after an instruction that finds enough values. -/
theorem Instr.climb_of_replaced {op : Instr} {before after : Array Value}
    (h : op.Replaces before after) : climb before.size [op] = some after.size := by
  have hlen := h.length
  rw [Array.length_toList, Array.length_toList] at hlen
  rw [climb_cons hlen.1, climb, hlen.2]

/-- What the pass over the code of an image has where jumps lead. -/
structure Image.IsLevel (image : Image) : Prop where
  jump : ∀ {pc op offset}, image.ops[pc]? = some op → op.jumpOffset? = some offset →
    heightAt? image.ops (pc + 1) = some 0
      ∧ ∃ target : Nat, (pc : Int) + offset.toInt = target ∧ target < image.ops.length
        ∧ heightAt? image.ops target = some 0

namespace Frame.Level

variable {image : Image} {f f' : Frame} {op : Instr}

theorem start (l : Linked) (args : List Value) : (Frame.start l args).Level image where
  ready _ _ := heightAt?_zero _
  waiting _ h := by cases h

/-- **An instruction that is done changes the height of the stack as the pass does.** -/
theorem goesTo (hf : f.Level image) (himage : image.IsLevel) (hnone : f.pending = none)
    (hop : f.routine.image.ops[f.pc]? = some op) (hroutine : f'.routine = f.routine)
    (hgoes : op.GoesTo f.pc f'.pc) (hpending : f'.pending = none)
    (hstack : op.Replaces f.stack f'.stack) : f'.Level image := by
  refine ⟨fun hf' _ => ?_, fun _ hwaits => ?_⟩
  · rw [hroutine] at hf'
    rw [hf'] at hop
    have hnext := (heightAt?_succ hop (hf.ready hf' hnone)).trans (Instr.climb_of_replaced hstack)
    generalize f'.pc = pc at hgoes ⊢
    cases hgoes with
    | next => exact hnext
    | jump hoffset htarget =>
      -- A jump empties the stack whether it is taken or not.
      obtain ⟨hempty, target, htarget', -, hheight⟩ := himage.jump hop hoffset
      rw [hempty] at hnext
      obtain rfl := Int.natCast_inj.mp (htarget.symm.trans htarget')
      rw [hheight, hnext]
    | again heq =>
      -- A timer that is waited for leaves the stack alone.
      subst heq
      have hlen := hstack.length.2
      simp only [Array.length_toList, Instr.effect, Nat.sub_zero, Nat.add_zero] at hlen
      rw [hf.ready hf' hnone, hlen]
  · rw [hpending] at hwaits
    cases hwaits

/-- **What an instruction that does not fail leaves is level**: its frame, and the frame that it
enters. -/
theorem spends (hf : f.Level image) (himage : image.IsLevel)
    (hfits : ∀ op ∈ image.ops, op.EscapeFits) (hnone : f.pending = none)
    (hop : f.routine.image.ops[f.pc]? = some op) {effect : Effect} (hspends : f.Spends op f' effect)
    (hok : ∀ fault, effect ≠ .fail fault) (hstay : effect ≠ .leave) : f'.Level image := by
  cases hspends with
  | fails fault => exact absurd rfl (hok fault)
  | leaves => exact absurd rfl hstay
  | @waits _ i argc id heq hroutine hpc hid hstack =>
    subst heq
    refine ⟨fun _ hready => ?_, fun hf' _ => ⟨i, argc, ?_, ?_⟩⟩
    · rw [hid] at hready
      cases hready
    · rw [hpc, ← hf', hroutine]
      exact hop
    · have hlen := hstack.length
      simp only [Array.length_toList, Instr.effect] at hlen
      rw [hroutine] at hf'
      rw [hpc, hf.ready hf' hnone]
      exact congrArg some (by omega)
  | done _ hroutine hgoes hpending hstack =>
    rw [hnone] at hpending
    by_cases hf' : f.routine.image = image
    · have hop' := List.mem_of_getElem? hop
      rw [hf'] at hop'
      exact hf.goesTo himage hnone hop hroutine hgoes hpending
        ((op.replaces_iff hstack).mpr (hfits op hop'))
    · -- Nothing is said of frames that run other code.
      rw [← hroutine] at hf'
      exact ⟨fun h => absurd h hf', fun h => absurd h hf'⟩

/-- The result that a frame has waited for. -/
theorem resume (hf : f.Level image) {id : PendingId} (hid : f.pending = some id) (v : Value) :
    ({ f with pending := none }.push v).advance.Level image := by
  refine ⟨fun hf' _ => ?_, fun _ hwaits => by cases hwaits⟩
  obtain ⟨i, argc, hop, hheight⟩ := hf.waiting hf' (by rw [hid]; rfl)
  have hargs : (Instr.callHost i argc).effect.1 ≤ f.stack.size + argc.toNat := Nat.le_add_left _ _
  have hnext := heightAt?_succ hop hheight
  rw [Instr.climb_cons hargs, Instr.effect, Nat.add_sub_cancel] at hnext
  simp only [Frame.push, Frame.advance, Array.size_push]
  exact hnext

end Frame.Level

/-! ## Threads -/

namespace Execution

variable {σ : Type} {h : Host σ} {s : Setting} {w : World σ} {image : Image}

section

variable (himage : image.IsLevel) (hfits : ∀ op ∈ image.ops, op.EscapeFits)
include himage hfits

theorem level_dispatch {frames : List Frame} (hframes : ∀ f ∈ frames, f.Level image)
    (hok : ∀ fault, (dispatch h s w frames).2.2 ≠ .fail fault) :
    ∀ f ∈ (dispatch h s w frames).1, f.Level image := by
  cases frames with
  | nil => exact hframes
  | cons f callers =>
    obtain ⟨hf, hcallers⟩ := List.forall_mem_cons.mp hframes
    cases hpending : f.pending with
    | some id =>
      simp only [dispatch, hpending, pollFrame]
      split
      · next v _ => exact List.forall_mem_cons.mpr ⟨hf.resume hpending v, hcallers⟩
      · exact hframes
    | none =>
      simp only [dispatch, hpending] at hok ⊢
      split at hok
      · exact absurd rfl (hok _)
      · next op hcode =>
        have hop : f.routine.image.ops[f.pc]? = some op := by
          rw [f.routine.code_eq, List.getElem?_toArray] at hcode
          exact hcode
        have hspends := f.spendsTo_exec h s callers w op
        generalize f.exec h s callers w op = r at hok hspends ⊢
        obtain ⟨f', w', effect⟩ := r
        have hspends : f.Spends op f' effect := hspends
        have hlevel := hf.spends himage hfits hpending hop hspends
        cases effect with
        | next | nextUnlessStopped | suspend =>
          exact List.forall_mem_cons.mpr ⟨hlevel (by simp) (by simp), hcallers⟩
        | enter callee args =>
          rw [applyEffect, List.forall_mem_cons, List.forall_mem_cons]
          exact ⟨.start callee args, hlevel (by simp) (by simp), hcallers⟩
        | leave => exact hcallers
        | fail fault => exact absurd rfl (hok fault)

theorem level_tick {e : Execution} (he : ∀ f ∈ e.frames, f.Level image)
    (hok : ∀ fault, (e.tick h s w).2.2 ≠ .fail fault) :
    ∀ f ∈ (e.tick h s w).1.frames, f.Level image := by
  have htick := tick_of_limitFault? (h := h) w (limitFault?_of_tick hok)
  rw [htick] at hok ⊢
  exact level_dispatch himage hfits he hok

theorem level_run (bound : Nat) {w w' : World σ} {e e' : Execution} {outcome : Outcome}
    (he : ∀ f ∈ e.frames, f.Level image) (hrun : e.run h s bound w = some (outcome, w', e'))
    (hok : ∀ err, outcome ≠ .failed err) : ∀ f ∈ e'.frames, f.Level image := by
  have hnext : ∀ {w w₁ : World σ} {e e₁ : Execution}, (∀ f ∈ e.frames, f.Level image) →
      e.tick h s w = (e₁, w₁, .next) → ∀ f ∈ e₁.frames, f.Level image := by
    intro w w₁ e e₁ he htick
    have hkept := level_tick (h := h) (s := s) (w := w) himage hfits he (by rw [htick]; simp)
    rwa [htick] at hkept
  obtain ⟨w₁, e₁, e₂, flow, he₁, htick, hend⟩ :=
    exists_last_tick (R := fun _ e => ∀ f ∈ e.frames, f.Level image) hnext bound he hrun
  have hlast := level_tick (h := h) (s := s) (w := w₁) himage hfits he₁
  rw [htick] at hlast
  cases flow with
  | next => cases hend
  | suspend | finished =>
    cases hend
    exact hlast (by simp)
  | stopped =>
    cases hend
    exact fun _ hf => (List.not_mem_nil hf).elim
  | fail fault =>
    cases hend
    exact absurd rfl (hok _)

/-- **Frames stay level until something fails.** -/
theorem Fares.level {start e : Execution} (hstart : ∀ f ∈ start.frames, f.Level image)
    (he : start.Fares s e) : ∀ f ∈ e.frames, f.Level image := by
  induction he with
  | start => exact hstart
  | tick h w _ hok ih => exact level_tick himage hfits ih hok
  | step h bound _ hdone hok ih =>
    unfold Execution.step at hdone
    split_ifs at hdone
    · cases hdone
      exact ih
    · cases hdone
      exact ih
    · cases hdone
      exact fun _ hf => (List.not_mem_nil hf).elim
    · exact level_run himage hfits bound ih hdone hok

end

end Execution

/-! ## Compiled routines -/

theorem Instr.escapeFits_of_not_isEscape {op : Instr} (h : op.isEscape = false) :
    op.EscapeFits := by
  cases op with
  | escape => cases h
  | _ => trivial

namespace Routine

variable {r : Routine} {p : Program} {config : CompilerConfig} {image : Image}

/--
**The pass over the code of a compiled routine gives the true heights of the stack.**

Take any routine of any program that compiles. The pass over its code does not fail. It has an empty
stack at each jump that is always taken, at each instruction that gives way, counts, waits or
returns, after each jump, and where each jump leads. If the escapes of the code have less than 65536
inputs each, then in every state of every thread that has not failed, on any hosts, each frame that
runs this code has as many values on its stack as the pass has at its position; while a frame waits
for the result of a call, the arguments of the call are missing.
-/
theorem levels_of_compile (h : r.compile p config = .ok image) :
    Instr.underflow? id 0 0 image.ops = none
    ∧ (∀ pc op, image.ops[pc]? = some op →
      (op.expectsEmpty = true → heightAt? image.ops pc = some 0)
      ∧ ∀ offset, op.jumpOffset? = some offset → heightAt? image.ops (pc + 1) = some 0
        ∧ ∃ target : Nat, (pc : Int) + offset.toInt = target ∧ target < image.ops.length
          ∧ heightAt? image.ops target = some 0)
    ∧ ((∀ op ∈ image.ops, op.EscapeFits) → ∀ (entry : Linked) (s : Setting) (e : Execution),
      (Execution.start entry).Fares s e → ∀ f ∈ e.frames, f.routine.image = image →
        (f.pending = none → heightAt? image.ops f.pc = some f.stack.size)
        ∧ (f.pending.isSome → ∃ i argc, image.ops[f.pc]? = some (.callHost i argc)
          ∧ heightAt? image.ops f.pc = some (f.stack.size + argc.toNat))) := by
  obtain ⟨hclimb, last, high, hlast, hall⟩ := enclosed_of_compile h
  have hin : ∀ {pc : Nat} {op : Instr}, image.ops[pc]? = some op →
      op.KeepsTo image.ops ⟨0, last, 0, high⟩ pc := by
    intro pc op hop
    refine hall pc op (Nat.zero_le pc) ?_ hop
    rw [hlast]
    exact (List.getElem?_eq_some_iff.mp hop).1
  have himage : image.IsLevel := by
    refine ⟨fun hop hoffset => ?_⟩
    obtain ⟨hnext, target, htarget, -, hle, hheight⟩ := (hin hop).jump _ hoffset
    exact ⟨hnext, target, htarget, hlast ▸ Nat.lt_succ_of_le hle, hheight⟩
  refine ⟨(Instr.underflow?_eq_none_iff _ _ _).mpr ⟨0, hclimb⟩,
    fun pc op hop => ⟨(hin hop).empty, fun offset => himage.jump hop⟩, ?_⟩
  intro hfits entry s e he f hf himg
  have hstart : ∀ f ∈ (Execution.start entry).frames, f.Level image := by
    intro f hf
    rw [List.mem_singleton.mp hf]
    exact .start entry []
  have hlevel := he.level himage hfits hstart f hf
  exact ⟨hlevel.ready himg, hlevel.waiting himg⟩

/-- A routine that adds one to the answer of a primitive. -/
def query : Routine where
  script := ⟨"query", {}, none, false⟩
  stack := [.set "x" (.binary .add (.const (.number 1))
    (.host "ask" [.const (.text "name")] .unknown))]

/-- The primitive has not answered yet. Its argument is not on the stack any more, but the first
summand is. -/
theorem levels_of_compile_query :
    ∃ image l e f, query.compile ⟨query, {}⟩ {} = .ok image ∧ l.image = image
      ∧ (Execution.start l).Fares {} e ∧ e.frames = [f] ∧ f.pc = 2 ∧ f.pending = some 0
      ∧ f.stack.size = 1
      ∧ ∃ i argc, image.ops[2]? = some (.callHost i argc)
        ∧ heightAt? image.ops 2 = some (1 + argc.toNat) := by
  have hrun : (query.compile ⟨query, {}⟩ {}).toOption.bind (fun image =>
      (image.link ⟨["ask"]⟩).toOption.bind fun l =>
        ((Execution.start l).step ScriptedHost.host {} 10
            ⟨{ slow := [("ask", 1)] }, false⟩).map fun r =>
          (r.1, r.2.2.frames.map fun f =>
            (decide (f.routine.image = image ∧ f.pending = some 0), f.pc, f.stack.size)))
      = some (.yielded .blocking, [(true, 2, 1)]) := by
    decide +kernel
  obtain ⟨image, himage, hrun⟩ := Option.bind_eq_some_iff.mp hrun
  obtain ⟨l, hl, hrun⟩ := Option.bind_eq_some_iff.mp hrun
  obtain ⟨⟨outcome, w, e⟩, hstep, hrun⟩ := Option.map_eq_some_iff.mp hrun
  obtain ⟨houtcome, hframes⟩ := Prod.mk.inj hrun
  have himage := eq_ok_of_toOption himage
  have hl := Image.image_of_link (eq_ok_of_toOption hl)
  have hfits : ∀ op ∈ image.ops, op.EscapeFits := by
    rw [(compile_eq_ok himage).1]
    have hnone : ∀ op ∈ (query.image {}).ops, op.isEscape = false := by decide +kernel
    exact fun op hop => Instr.escapeFits_of_not_isEscape (hnone op hop)
  have hfares : (Execution.start l).Fares {} e :=
    .step ScriptedHost.host 10 .start hstep fun err herr => by cases houtcome.symm.trans herr
  obtain ⟨f, hf, hplace⟩ := List.map_eq_singleton_iff.mp hframes
  obtain ⟨hf', hplace⟩ := Prod.mk.inj hplace
  obtain ⟨hroutine, hpending⟩ := of_decide_eq_true hf'
  obtain ⟨hpc, hsize⟩ := Prod.mk.inj hplace
  have hmem : f ∈ e.frames := by
    rw [hf]
    exact List.mem_singleton_self f
  have hlevel := ((levels_of_compile himage).2.2 hfits l {} e hfares f hmem hroutine).2
    (by rw [hpending]; rfl)
  rw [hpc, hsize] at hlevel
  exact ⟨image, l, e, f, himage, hl, hfares, hf, hpc, hpending, hsize, hlevel⟩

end Routine

end BlockScript
