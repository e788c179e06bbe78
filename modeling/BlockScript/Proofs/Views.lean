import BlockScript.Proofs.Confinement
import BlockScript.Proofs.Plain
import BlockScript.Proofs.Simulation
import BlockScript.Proofs.Twins

/-!
# Frames without the deadline

What is seen of a frame if one looks away from the deadline is a `View`: a position in the code
without the deadline, and the local slots in which counted loops count. An instruction that is there
for the deadline does not change the view (`Frame.Seen.exec_extra`). Any other one does the same to
all frames that are seen in the same way, whatever their code has on top (`Frame.Seen.exec_common`).

Main statement: threads whose frames are seen in the same way take a tick together, or one of them
takes a tick of which nothing is seen (`Execution.alike_cases`).
-/

namespace BlockScript

variable {σ : Type}

/-- What is seen of a frame without the deadline. -/
structure View where
  image : Image
  pc : Nat
  stack : Array Value
  locals : Array Value
  args : List Value
  timer : Option Timer
  pending : Option PendingId

theorem CodeScope.length_shapesAt_succ (x : CodeScope) {code : List Instr} {pc : Nat} {op : Instr}
    (hop : code[pc]? = some op) :
    (x.shapesAt code (pc + 1)).length
      = op.effect.2 + ((x.shapesAt code pc).length - op.effect.1) := by
  rw [x.shapesAt_succ hop, scan, List.length_append, x.length_result?, List.length_drop]

/-- What is on the stack at a position, and without the deadline: before the first zero is stored
there is one value more. -/
def Marking.StackAt (k : Marking) (pc : Nat) (stack seen : Array Value) : Prop :=
  stack = if k.code[pc]? = some .laden then seen.push (.number Number.zero) else seen

theorem Marking.StackAt.of_ne {k : Marking} {pc : Nat} (h : k.code[pc]? ≠ some .laden)
    (stack : Array Value) : k.StackAt pc stack stack := by
  rw [StackAt, if_neg h]

/-- Where the stack must be empty, there is no value for the deadline on it. -/
theorem Linked.Renders.not_laden_of_empty {i : Image} {k : Marking} {l : Linked} (h : l.Renders i k)
    {pc : Nat} (hpc : pc < l.image.ops.length) (hempty : k.scope.shapesAt l.image.ops pc = []) :
    k.code[pc]? ≠ some .laden := by
  intro hladen
  have hop := List.getElem?_eq_getElem hpc
  have hheight := (h.fine hop).height
  rw [hempty] at hheight
  have hconforms := h.conforms hop
  generalize l.image.ops[pc] = op at hconforms hheight
  cases hconforms with
  | common hmark | zero hmark | check hmark => cases hmark.symm.trans hladen
  | store => cases hheight

namespace Frame

/-- The frame is seen in this way. Its stack is at least as high as its position needs. -/
structure Seen (k : Marking) (v : View) (f : Frame) : Prop where
  renders : f.routine.Renders v.image k
  confined : f.Confined
  pc : Mark.rank k.code f.pc = v.pc
  stack : k.StackAt f.pc f.stack v.stack
  counters : v.locals.size = k.slots.count .common
  locals : ∀ n, k.slots[n]? = some .common → f.locals[n]? = v.locals[Mark.rank k.slots n]?
  args : f.args = v.args
  timer : f.timer = v.timer
  pending : f.pending = v.pending
  height : f.pending = none → (k.scope.shapesAt f.routine.image.ops f.pc).length ≤ f.stack.size
  awaited : f.pending.isSome →
    (k.scope.shapesAt f.routine.image.ops (f.pc + 1)).length ≤ f.stack.size + 1

namespace Seen

variable {k : Marking} {v : View} {f : Frame} {op : Instr}

/-- A routine at its beginning. -/
theorem start {l : Linked} {i : Image} (h : l.Renders i k) (args : List Value) :
    (Frame.start l args).Seen k
      ⟨i, 0, #[], Array.replicate i.locals.toNat (.number Number.zero), args, none, none⟩ where
  renders := h
  confined := .start l args
  pc := by simp [Frame.start, Mark.rank]
  stack := by
    refine .of_ne (h.not_laden_of_empty l.length_pos ?_) _
    rw [k.scope.shapesAt_zero]
  counters := by rw [Array.size_replicate, h.counters]
  locals := by
    intro n hn
    have hlt : n < k.slots.length := (List.getElem?_eq_some_iff.mp hn).1
    have hrank := Mark.rank_lt_count hn
    rw [Frame.start, Array.getElem?_replicate, Array.getElem?_replicate, h.slots, h.counters,
      if_pos hlt, if_pos hrank]
  args := rfl
  timer := rfl
  pending := rfl
  height := by
    intro _
    change (k.scope.shapesAt l.image.ops 0).length ≤ 0
    rw [k.scope.shapesAt_zero]
    exact Nat.le_refl 0
  awaited := by
    intro hsome
    cases hsome

/-! ### Where a frame stands -/

theorem effect_le (hf : f.Seen k v) (hnone : f.pending = none)
    (hop : f.routine.image.ops[f.pc]? = some op) : op.effect.1 ≤ f.stack.size :=
  Nat.le_trans (hf.renders.fine hop).height (hf.height hnone)

/-- A value for the deadline is on the stack only after an instruction for the deadline. -/
theorem not_laden_succ (hf : f.Seen k v) (pc : Nat) (hmark : k.code[pc]? ≠ some .extra) :
    k.code[pc + 1]? ≠ some .laden :=
  fun hladen => hmark (hf.renders.orderly.extra_of_laden hladen)

theorem stack_eq (hf : f.Seen k v) (hmark : k.code[f.pc]? ≠ some .laden) : f.stack = v.stack := by
  rw [hf.stack, if_neg hmark]

/-- A frame that waits stands at a call, which is there with all settings. -/
theorem common_of_pending (hf : f.Seen k v) (hsome : f.pending.isSome) :
    k.code[f.pc]? = some .common := by
  obtain ⟨i, argc, hop⟩ := hf.confined.waiting hsome
  cases hf.renders.conforms hop with
  | common hmark => exact hmark

/-- A counter of a loop is there, and has the value that is seen. -/
theorem exists_local (hf : f.Seen k v) {i j : UInt16} (hslot : Mark.Ranks k.slots i.toNat j.toNat) :
    ∃ x, f.locals[i.toNat]? = some x ∧ v.locals[j.toNat]? = some x := by
  obtain ⟨hmark, hrank⟩ := hslot
  have hlt : j.toNat < v.locals.size := by
    rw [hf.counters, ← hrank]
    exact Mark.rank_lt_count hmark
  refine ⟨v.locals[j.toNat], ?_, Array.getElem?_eq_getElem hlt⟩
  rw [hf.locals _ hmark, hrank, Array.getElem?_eq_getElem hlt]

/-! ### Changes of a frame -/

/-- The frame at another position, with another stack. -/
theorem moved (hf : f.Seen k v) (hnone : f.pending = none) {pc : Nat}
    (hpc : pc < f.routine.image.ops.length) {stack seen : Array Value}
    (hstack : k.StackAt pc stack seen)
    (hheight : (k.scope.shapesAt f.routine.image.ops pc).length ≤ stack.size) :
    ({ f with stack := stack, pc := pc } : Frame).Seen k
      { v with stack := seen, pc := Mark.rank k.code pc } where
  renders := hf.renders
  confined := hf.confined.move hnone rfl rfl rfl hpc
  pc := rfl
  stack := hstack
  counters := hf.counters
  locals := hf.locals
  args := hf.args
  timer := hf.timer
  pending := hf.pending
  height := fun _ => hheight
  awaited := by
    intro hsome
    change f.pending.isSome = true at hsome
    rw [hnone] at hsome
    cases hsome

theorem withTimer (hf : f.Seen k v) (timer : Option Timer) :
    ({ f with timer := timer } : Frame).Seen k { v with timer := timer } :=
  ⟨hf.renders, hf.confined.withTimer timer, hf.pc, hf.stack, hf.counters, hf.locals, hf.args, rfl,
    hf.pending, hf.height, hf.awaited⟩

/-- A stack that an instruction leaves is as high as the next position needs. -/
theorem height_succ (hf : f.Seen k v) (hnone : f.pending = none)
    (hop : f.routine.image.ops[f.pc]? = some op) {stack : Array Value}
    (hsize : f.stack.size + op.effect.2 ≤ stack.size + op.effect.1) :
    (k.scope.shapesAt f.routine.image.ops (f.pc + 1)).length ≤ stack.size := by
  have hbefore := hf.height hnone
  have heffect := (hf.renders.fine hop).height
  rw [k.scope.length_shapesAt_succ hop]
  omega

/-- An instruction that is there with all settings brings the frame to its next one. -/
theorem on (hf : f.Seen k v) (hnone : f.pending = none) (hop : f.routine.image.ops[f.pc]? = some op)
    (hret : op ≠ .ret) (hmark : k.code[f.pc]? = some .common) (stack : Array Value)
    (hsize : f.stack.size + op.effect.2 ≤ stack.size + op.effect.1) :
    ({ f with stack := stack, pc := f.pc + 1 } : Frame).Seen k
      { v with stack := stack, pc := v.pc + 1 } := by
  have hladen : k.code[f.pc + 1]? ≠ some .laden := hf.not_laden_succ f.pc (by simp [hmark])
  have hmoved := hf.moved hnone (Linked.succ_lt_length hop hret) (.of_ne hladen stack)
    (hf.height_succ hnone hop hsize)
  rwa [Mark.rank_succ hmark, hf.pc] at hmoved

/-- An instruction that leaves the stack as it is. -/
theorem onward (hf : f.Seen k v) (hnone : f.pending = none)
    (hop : f.routine.image.ops[f.pc]? = some op) (hret : op ≠ .ret)
    (hmark : k.code[f.pc]? = some .common) (heffect : op.effect = (0, 0)) :
    f.advance.Seen k { v with pc := v.pc + 1 } := by
  have hstack := hf.stack_eq (by simp [hmark])
  have hon := hf.on hnone hop hret hmark v.stack (by rw [heffect, hstack])
  have hframe : ({ f with stack := v.stack, pc := f.pc + 1 } : Frame) = f.advance := by
    rw [← hstack]
    rfl
  rwa [hframe] at hon

/-- An instruction for the deadline brings the frame to its next one, and this is not seen. -/
theorem passes (hf : f.Seen k v) (hnone : f.pending = none)
    (hop : f.routine.image.ops[f.pc]? = some op) (hret : op ≠ .ret)
    (hmark : k.code[f.pc]? ≠ some .common) {stack : Array Value}
    (hstack : k.StackAt (f.pc + 1) stack v.stack)
    (hsize : f.stack.size + op.effect.2 ≤ stack.size + op.effect.1) :
    ({ f with stack := stack, pc := f.pc + 1 } : Frame).Seen k v := by
  have hmoved := hf.moved hnone (Linked.succ_lt_length hop hret) hstack
    (hf.height_succ hnone hop hsize)
  rwa [Mark.rank_succ_of_ne hmark, hf.pc] at hmoved

/-- The frame after a jump. -/
theorem jumps (hf : f.Seen k v) (hnone : f.pending = none)
    (hop : f.routine.image.ops[f.pc]? = some op) {offset : Int32}
    (hoffset : op.jumpOffset? = some offset) {target : Nat}
    (htarget : (f.pc : Int) + offset.toInt = target) (stack : Array Value) :
    target < f.routine.image.ops.length
      ∧ ({ f with stack := stack, pc := target } : Frame).Seen k
        { v with stack := stack, pc := Mark.rank k.code target } := by
  obtain ⟨target', htarget', hlt, hempty, -⟩ := (hf.renders.fine hop).jump offset hoffset
  obtain rfl : target = target' := by omega
  have hladen := hf.renders.not_laden_of_empty hlt hempty
  exact ⟨hlt, hf.moved hnone hlt (.of_ne hladen stack) (by rw [hempty]; exact Nat.zero_le _)⟩

/-- The frame that waits for a result. -/
theorem waits (hf : f.Seen k v) (hnone : f.pending = none) {i argc : UInt16}
    (hop : f.routine.image.ops[f.pc]? = some (.callHost i argc))
    (hmark : k.code[f.pc]? = some .common) {stack : Array Value}
    (hsize : f.stack.size ≤ stack.size + argc.toNat) (id : PendingId) :
    ({ f with stack := stack, pending := some id } : Frame).Seen k
      { v with stack := stack, pending := some id } where
  renders := hf.renders
  confined := ⟨hf.confined.inside, hf.confined.slots, fun _ => ⟨i, argc, hop⟩⟩
  pc := hf.pc
  stack := .of_ne (by simp [hmark]) stack
  counters := hf.counters
  locals := hf.locals
  args := hf.args
  timer := hf.timer
  pending := rfl
  height := by
    intro hsome
    cases hsome
  awaited := by
    intro _
    have hheight := hf.height hnone
    have heffect : argc.toNat ≤ _ := (hf.renders.fine hop).height
    change (k.scope.shapesAt f.routine.image.ops (f.pc + 1)).length ≤ stack.size + 1
    rw [k.scope.length_shapesAt_succ hop]
    change 1 + (_ - argc.toNat) ≤ _
    omega

/-- The frame when its result has come. -/
theorem receives (hf : f.Seen k v) (hsome : f.pending.isSome) (x : Value) :
    ({ f with pending := none }.push x).advance.Seen k
      { v with stack := v.stack.push x, pc := v.pc + 1, pending := none } := by
  obtain ⟨i, argc, hop⟩ := hf.confined.waiting hsome
  have hmark := hf.common_of_pending hsome
  have hstack := hf.stack_eq (by simp [hmark])
  have hready : { f with pending := none }.Confined :=
    ⟨hf.confined.inside, hf.confined.slots, fun hpending => by cases hpending⟩
  refine ⟨hf.renders, (hready.withStack _).advance rfl hop (by simp), ?_, ?_, hf.counters,
    hf.locals, hf.args, hf.timer, rfl, ?_, ?_⟩
  · exact (Mark.rank_succ hmark).trans (congrArg (· + 1) hf.pc)
  · have hladen := hf.not_laden_succ f.pc (by simp [hmark])
    rw [← hstack]
    exact .of_ne hladen _
  · intro _
    have hawaited := hf.awaited hsome
    rwa [← Array.size_push] at hawaited
  · intro hpending
    cases hpending

/-- A value in a counter of a loop. -/
theorem setLocal (hf : f.Seen k v) {i j : UInt16} (hslot : Mark.Ranks k.slots i.toNat j.toNat)
    (x : Value) :
    (f.setLocal i x).Seen k { v with locals := v.locals.setIfInBounds j.toNat x } := by
  refine ⟨hf.renders, hf.confined.setLocal i x, hf.pc, hf.stack, ?_, ?_, hf.args, hf.timer,
    hf.pending, hf.height, hf.awaited⟩
  · rw [Array.size_setIfInBounds, hf.counters]
  · intro n hn
    obtain ⟨hmark, hrank⟩ := hslot
    change (f.locals.setIfInBounds i.toNat x)[n]? = (v.locals.setIfInBounds j.toNat x)[_]?
    by_cases hni : i.toNat = n
    · subst hni
      obtain ⟨y, hy, hy'⟩ := hf.exists_local ⟨hmark, hrank⟩
      rw [hrank, Array.getElem?_setIfInBounds_self, Array.getElem?_setIfInBounds_self,
        if_pos (Array.getElem?_eq_some_iff.mp hy).1, if_pos (Array.getElem?_eq_some_iff.mp hy').1]
    · have hne : j.toNat ≠ Mark.rank k.slots n := by
        rw [← hrank]
        exact fun h => hni (Mark.rank_injective hmark hn h)
      rw [Array.getElem?_setIfInBounds_ne hni, Array.getElem?_setIfInBounds_ne hne, hf.locals n hn]

/-- A value in a slot for the deadline is not seen. -/
theorem setLocal_extra (hf : f.Seen k v) {i : UInt16} (hslot : k.slots[i.toNat]? = some .extra)
    (x : Value) : (f.setLocal i x).Seen k v := by
  refine ⟨hf.renders, hf.confined.setLocal i x, hf.pc, hf.stack, hf.counters, ?_, hf.args, hf.timer,
    hf.pending, hf.height, hf.awaited⟩
  intro n hn
  have hne : i.toNat ≠ n := by
    rintro rfl
    cases hslot.symm.trans hn
  change (f.locals.setIfInBounds i.toNat x)[n]? = _
  rw [Array.getElem?_setIfInBounds_ne hne, hf.locals n hn]

/-! ### Instructions for the deadline -/

/-- **An instruction for the deadline is not seen**, if the time is not used up: all that it does
besides is to look at the deadline. -/
theorem exec_extra {h : Host σ} {w : World σ} (hf : f.Seen k v) (hnone : f.pending = none)
    (hop : f.routine.image.ops[f.pc]? = some op) (hmark : k.code[f.pc]? ≠ some .common)
    (hanswer : (h.deadlineElapsed w.host).answer = false) (s : Setting) (callers : List Frame) :
    ∃ f' w', f.exec h s callers w op = (f', w', .next) ∧ f'.Seen k v ∧ f'.routine = f.routine
      ∧ f'.pc = f.pc + 1 ∧ (w' = w ∨ w' = w.after (h.deadlineElapsed w.host)) := by
  cases hf.renders.conforms hop with
  | common hcommon => exact absurd hcommon hmark
  | zero hextra hladen =>
    refine ⟨(f.push (.number Number.zero)).advance, _, rfl, ?_, rfl, rfl, Or.inl rfl⟩
    have hstack : k.StackAt (f.pc + 1) (f.stack.push (.number Number.zero)) v.stack := by
      rw [Marking.StackAt, if_pos hladen, hf.stack_eq (by simp [hextra])]
    have hsize : f.stack.size + 1 ≤ (f.stack.push (.number Number.zero)).size :=
      Nat.le_of_eq (Array.size_push _).symm
    exact hf.passes hnone hop (by simp) hmark hstack hsize
  | @store i hladen hslot =>
    have hstack : f.stack = v.stack.push (.number Number.zero) := by rw [hf.stack, if_pos hladen]
    have hi : i.toNat < f.locals.size := by
      rw [hf.confined.slots]
      exact Image.lt_of_indexFlaw? (Linked.flawless hop).2
    have hexec : f.exec h s callers w (.storeLocal i)
        = (({ f with stack := v.stack }.setLocal i (.number Number.zero)).advance, w, .next) := by
      simp [Frame.exec, withValue, hstack, hi]
    refine ⟨_, _, hexec, ?_, rfl, rfl, Or.inl rfl⟩
    have hnext := hf.not_laden_succ f.pc (by simp [hladen])
    refine (hf.setLocal_extra hslot _).passes hnone hop (by simp) hmark (.of_ne hnext v.stack) ?_
    change f.stack.size + 0 ≤ _
    rw [hstack, Array.size_push]
    exact Nat.le_refl _
  | @check i interval hextra hslot =>
    have hi : i.toNat < f.locals.size := by
      rw [hf.confined.slots]
      exact Image.lt_of_indexFlaw? (Option.or_eq_none_iff.mp (Linked.flawless hop).2).1
    -- the stack is empty here, and still so at the next instruction
    have hempty : k.scope.shapesAt f.routine.image.ops (f.pc + 1) = [] := by
      rw [k.scope.shapesAt_succ hop, (hf.renders.fine hop).empty rfl]
      rfl
    have hladen := hf.renders.not_laden_of_empty (Linked.succ_lt_length hop (by simp)) hempty
    have hpassed : ∀ x, ((f.setLocal i x).advance).Seen k v := by
      intro x
      have hstack : k.StackAt (f.pc + 1) f.stack v.stack := by
        rw [hf.stack_eq (by simp [hextra])]
        exact .of_ne hladen _
      exact (hf.setLocal_extra hslot x).passes hnone hop (by simp) hmark hstack (Nat.le_refl _)
    simp only [Frame.exec, checkDeadline, withLocal, Array.getElem?_eq_getElem hi, hanswer]
    split
    · exact ⟨_, _, rfl, hpassed _, rfl, rfl, Or.inr rfl⟩
    · exact ⟨_, _, rfl, hpassed _, rfl, rfl, Or.inl rfl⟩

end Seen

/-! ## Frames that are seen in the same way -/

/-- The frames are seen in the same way. -/
def Alike (f g : Frame) : Prop := ∃ v k k', f.Seen k v ∧ g.Seen k' v

end Frame

/-- Without the deadline the routines are the same. -/
def Linked.Alike (l l' : Linked) : Prop := ∃ i k k', l.Renders i k ∧ l'.Renders i k'

theorem Linked.Alike.start {l l' : Linked} (h : l.Alike l') (args : List Value) :
    (Frame.start l args).Alike (Frame.start l' args) := by
  obtain ⟨i, k, k', hl, hl'⟩ := h
  exact ⟨_, k, k', .start hl args, .start hl' args⟩

theorem Linked.support_of_names {l l' : Linked} (h : l.image.support = l'.image.support) :
    l.support = l'.support := by
  rw [← l.imported, ← l'.imported] at h
  exact List.map_injective_iff.mpr Support.name_injective h

namespace Frame

theorem Alike.name_eq {f g : Frame} (h : f.Alike g) : f.routine.name = g.routine.name := by
  obtain ⟨v, k, k', hf, hg⟩ := h
  exact hf.renders.name.trans hg.renders.name.symm

namespace Seen

variable {R : σ → σ → Prop} {k k' : Marking} {v : View} {f g : Frame} {op op' : Instr}
  {w u : World σ}

/-- Where no frame is at an instruction for the deadline, the frames are twins. -/
theorem twins (hf : f.Seen k v) (hg : g.Seen k' v) (hmark : k.code[f.pc]? = some .common)
    (hmark' : k'.code[g.pc]? = some .common) : f.Twins g where
  name := hf.renders.name.trans hg.renders.name.symm
  support := Linked.support_of_names (hf.renders.support.trans hg.renders.support.symm)
  host := hf.renders.host.trans hg.renders.host.symm
  procedures := hf.renders.procedures.trans hg.renders.procedures.symm
  stack := by rw [hf.stack_eq (by simp [hmark]), hg.stack_eq (by simp [hmark'])]
  args := hf.args.trans hg.args.symm
  timer := hf.timer.trans hg.timer.symm

section Common

variable (hf : f.Seen k v) (hg : g.Seen k' v) (hnone : v.pending = none)
  (hop : f.routine.image.ops[f.pc]? = some op) (hop' : g.routine.image.ops[g.pc]? = some op')
  (hmark : k.code[f.pc]? = some .common) (hmark' : k'.code[g.pc]? = some .common)

include hf hg hnone hop hop'

/-- Jumps of corresponding instructions. -/
theorem together_jumpBy {offset offset' plain : Int32} (hoffset : op.jumpOffset? = some offset)
    (hoffset' : op'.jumpOffset? = some offset') (hlead : Instr.LeadAlike k.code f.pc offset plain)
    (hlead' : Instr.LeadAlike k'.code g.pc offset' plain) (stack : Array Value) (hw : w.Alike R u) :
    Together R Alike Linked.Alike f g (({ f with stack := stack } : Frame).jumpBy w offset)
      (({ g with stack := stack } : Frame).jumpBy u offset') := by
  obtain ⟨target, htarget, hrank⟩ := hlead
  obtain ⟨target', htarget', hrank'⟩ := hlead'
  have hsame : Mark.rank k.code target = Mark.rank k'.code target' := by
    rw [hf.pc] at hrank
    rw [hg.pc] at hrank'
    omega
  obtain ⟨hlt, hf'⟩ := hf.jumps (hf.pending.trans hnone) hop hoffset htarget stack
  obtain ⟨hlt', hg'⟩ := hg.jumps (hg.pending.trans hnone) hop' hoffset' htarget' stack
  rw [← hsame] at hg'
  rw [jumpBy_eq { f with stack := stack } htarget hlt w,
    jumpBy_eq { g with stack := stack } htarget' hlt' u]
  exact .next ⟨_, _, _, hf', hg'⟩ hw

include hmark hmark'

/-- Jumps that leave the stack as it is. -/
theorem together_jump {offset offset' plain : Int32} (hoffset : op.jumpOffset? = some offset)
    (hoffset' : op'.jumpOffset? = some offset') (hlead : Instr.LeadAlike k.code f.pc offset plain)
    (hlead' : Instr.LeadAlike k'.code g.pc offset' plain) (hw : w.Alike R u) :
    Together R Alike Linked.Alike f g (f.jumpBy w offset) (g.jumpBy u offset') := by
  have hjump := hf.together_jumpBy hg hnone hop hop' hoffset hoffset' hlead hlead' f.stack hw
  have hgstack : ({ g with stack := f.stack } : Frame) = g := by
    rw [(hf.twins hg hmark hmark').stack]
  rwa [hgstack] at hjump

/-- Conditional jumps of corresponding instructions. -/
theorem together_jumpIf {offset offset' plain : Int32} (hoffset : op.jumpOffset? = some offset)
    (hoffset' : op'.jumpOffset? = some offset') (heffect : op.effect = (1, 0))
    (heffect' : op'.effect = (1, 0)) (hlead : Instr.LeadAlike k.code f.pc offset plain)
    (hlead' : Instr.LeadAlike k'.code g.pc offset' plain) (taken : Bool) (hw : w.Alike R u) :
    Together R Alike Linked.Alike f g (f.jumpIf w taken offset) (g.jumpIf u taken offset') := by
  have htwins := hf.twins hg hmark hmark'
  have hsize : 1 ≤ f.stack.size := by
    have hle := hf.effect_le (hf.pending.trans hnone) hop
    rwa [heffect] at hle
  refine htwins.withValue hsize fun x stack hstack => ?_
  cases x with
  | bool b =>
    dsimp only
    split
    · exact hf.together_jumpBy hg hnone hop hop' hoffset hoffset' hlead hlead' stack hw
    · refine .next ⟨_, k, k', hf.on (hf.pending.trans hnone) hop ?_ hmark stack ?_,
        hg.on (hg.pending.trans hnone) hop' ?_ hmark' stack ?_⟩ hw
      · rintro rfl
        cases hoffset
      · rw [heffect, hstack]
        exact Nat.le_refl _
      · rintro rfl
        cases hoffset'
      · rw [heffect', ← htwins.stack, hstack]
        exact Nat.le_refl _
  | number | text => exact .fail _ rfl rfl hw

/-- What moves twins keeps what is seen of them. -/
theorem alike_of_movesTo (hsame : op = op') (hret : op ≠ .ret) {f' g' : Frame}
    (h : MovesTo op f g f' g') : f'.Alike g' := by
  have htwins := hf.twins hg hmark hmark'
  have hnone' := hf.pending.trans hnone
  have hgnone := hg.pending.trans hnone
  subst hsame
  cases h with
  | on stack timer hsize =>
    refine ⟨_, k, k', (hf.withTimer timer).on hnone' hop hret hmark stack hsize,
      (hg.withTimer timer).on hgnone hop' hret hmark' stack ?_⟩
    change g.stack.size + _ ≤ _
    rwa [← htwins.stack]
  | stays => exact ⟨v, k, k', hf, hg⟩
  | waits stack id hcall hsize =>
    obtain ⟨i, argc, rfl⟩ := hcall
    refine ⟨_, k, k', hf.waits hnone' hop hmark hsize id, hg.waits hgnone hop' hmark' ?_ id⟩
    rwa [← htwins.stack]

end Common

/-- An instruction that is there with all settings corresponds to the one that is seen. -/
theorem exists_matches (hf : f.Seen k v) (hop : f.routine.image.ops[f.pc]? = some op)
    (hmark : k.code[f.pc]? = some .common) :
    ∃ plain, v.image.ops[v.pc]? = some plain ∧ op.Matches k.code k.slots f.pc plain := by
  cases hf.renders.conforms hop with
  | common _ hplain hmatches =>
    rw [hf.pc] at hplain
    exact ⟨_, hplain, hmatches⟩
  | zero hmark' | store hmark' | check hmark' => cases hmark.symm.trans hmark'

/-- **An instruction that is there with all settings does the same to frames that are seen in the
same way.** -/
theorem exec_common {o : Outside σ} (ho : o.Overlooks R) (hf : f.Seen k v) (hg : g.Seen k' v)
    (hnone : v.pending = none) (hop : f.routine.image.ops[f.pc]? = some op)
    (hop' : g.routine.image.ops[g.pc]? = some op') (hmark : k.code[f.pc]? = some .common)
    (hmark' : k'.code[g.pc]? = some .common) (hw : w.Alike R u) {s s' : Setting}
    (hs : ∀ key, Option.Rel Linked.Alike (s.variants.find? key) (s'.variants.find? key))
    (callers callers' : List Frame) :
    Together R Alike Linked.Alike f g (f.exec o.host s callers w op)
      (g.exec o.host s' callers' u op') := by
  have htwins := hf.twins hg hmark hmark'
  have hfnone := hf.pending.trans hnone
  have hgnone := hg.pending.trans hnone
  have hsize := hf.effect_le hfnone hop
  obtain ⟨plain, hplain, hmatches⟩ := hf.exists_matches hop hmark
  obtain ⟨plain', hplain', hmatches'⟩ := hg.exists_matches hop' hmark'
  cases hplain.symm.trans hplain'
  cases hmatches with
  | same hfixed =>
    obtain rfl : op' = op := by
      cases hmatches' with
      | same => rfl
      | _ => cases hfixed
    by_cases hret : op' = .ret
    · subst hret
      exact .leave hw
    · exact (htwins.exec ho hw hfixed hsize hs callers callers').mono fun f' g' =>
        hf.alike_of_movesTo hg hnone hop hop' hmark hmark' rfl hret
  | @store i j hslot =>
    cases hmatches' with
    | same hfixed => cases hfixed
    | @store i' _ hslot' =>
      obtain ⟨x, hx, -⟩ := hf.exists_local hslot
      obtain ⟨x', hx', -⟩ := hg.exists_local hslot'
      simp only [Frame.exec]
      refine htwins.withValue hsize fun y stack hstack => ?_
      rw [if_pos (Array.getElem?_eq_some_iff.mp hx).1, if_pos (Array.getElem?_eq_some_iff.mp hx').1]
      refine .next ⟨_, k, k', (hf.setLocal hslot y).on hfnone hop (by simp) hmark stack ?_,
        (hg.setLocal hslot' y).on hgnone hop' (by simp) hmark' stack ?_⟩ hw
      · exact Nat.le_of_eq hstack
      · rw [htwins.stack] at hstack
        exact Nat.le_of_eq hstack
  | @countdown i j offset offset' hslot hlead =>
    cases hmatches' with
    | same hfixed => cases hfixed
    | @countdown i' _ _ _ hslot' hlead' =>
      obtain ⟨x, hx, hseen⟩ := hf.exists_local hslot
      obtain ⟨x', hx', hseen'⟩ := hg.exists_local hslot'
      cases hseen.symm.trans hseen'
      simp only [Frame.exec, countdown, withLocal, hx, hx']
      cases x with
      | number n =>
        dsimp only
        split
        · exact .next ⟨_, k, k', (hf.setLocal hslot _).onward hfnone hop (by simp) hmark rfl,
            (hg.setLocal hslot' _).onward hgnone hop' (by simp) hmark' rfl⟩ hw
        · exact hf.together_jump hg hnone hop hop' hmark hmark' rfl rfl hlead hlead' hw
      | text | bool => exact .fail _ rfl rfl hw
  | jump hlead =>
    cases hmatches' with
    | same hfixed => cases hfixed
    | jump hlead' => exact hf.together_jump hg hnone hop hop' hmark hmark' rfl rfl hlead hlead' hw
  | jumpIfFalse hlead =>
    cases hmatches' with
    | same hfixed => cases hfixed
    | jumpIfFalse hlead' =>
      exact hf.together_jumpIf hg hnone hop hop' hmark hmark' rfl rfl rfl rfl hlead hlead' false hw
  | jumpIfTrue hlead =>
    cases hmatches' with
    | same hfixed => cases hfixed
    | jumpIfTrue hlead' =>
      exact hf.together_jumpIf hg hnone hop hop' hmark hmark' rfl rfl rfl rfl hlead hlead' true hw

end Seen

end Frame

/-! ## Ticks -/

theorem World.Alike.symm {R : σ → σ → Prop} {o : Outside σ} (ho : o.Overlooks R) {w u : World σ}
    (h : w.Alike R u) : u.Alike R w :=
  ⟨ho.symm h.1, h.2.symm⟩

/-- A look at the deadline makes no difference. -/
theorem World.Alike.afterLook {R : σ → σ → Prop} {o : Outside σ} (ho : o.Overlooks R)
    {w u : World σ} (h : w.Alike R u) : (w.after (o.host.deadlineElapsed w.host)).Alike R u := by
  obtain ⟨-, hstop, hhost⟩ := ho.deadlineElapsed h.1
  refine ⟨hhost, ?_⟩
  rw [World.after, hstop, Bool.or_false]
  exact h.2

theorem Frame.Alike.symm {f g : Frame} (h : f.Alike g) : g.Alike f := by
  obtain ⟨v, k, k', hf, hg⟩ := h
  exact ⟨v, k', k, hg, hf⟩

namespace Execution

variable {R : σ → σ → Prop} {o : Outside σ} {s s' : Setting} {w u : World σ}

/-- What ticks have made of two threads: related frames and worlds and the same flow, or the same
fault under the same names, unless one of them has come to a limit. -/
inductive InStep (R : σ → σ → Prop) :
    List Frame × World σ × Flow → List Frame × World σ × Flow → Prop
  | going {fs gs : List Frame} {w u : World σ} (flow : Flow)
    (hframes : List.Forall₂ Frame.Alike fs gs) (hw : w.Alike R u) :
    InStep R (fs, w, flow) (gs, u, flow)
  | failing {fs gs : List Frame} {w u : World σ} (fault : Fault)
    (hnames : fs.map (fun f => f.routine.name) = gs.map fun g => g.routine.name)
    (hw : w.Alike R u) :
    InStep R (fs, w, .fail fault) (gs, u, .fail fault)
  | limitLeft {fs : List Frame} {w : World σ} {b : List Frame × World σ × Flow} {fault : Fault}
    (h : fault.IsLimit) : InStep R (fs, w, .fail fault) b
  | limitRight {gs : List Frame} {u : World σ} {a : List Frame × World σ × Flow} {fault : Fault}
    (h : fault.IsLimit) : InStep R a (gs, u, .fail fault)

theorem names_of_alike {fs gs : List Frame} (h : List.Forall₂ Frame.Alike fs gs) :
    fs.map (fun f => f.routine.name) = gs.map fun g => g.routine.name := by
  induction h with
  | nil => rfl
  | cons hfg _ ih => rw [List.map_cons, List.map_cons, hfg.name_eq, ih]

theorem flowAfterCall_of_alike (hw : w.Alike R u) : flowAfterCall w = flowAfterCall u := by
  rw [flowAfterCall, flowAfterCall, hw.2]

theorem inStep_applyEffect {f g : Frame} {callers callers' : List Frame} (hfg : f.Alike g)
    (hcallers : List.Forall₂ Frame.Alike callers callers') {a b : Frame × World σ × Effect}
    (h : Frame.Together R Frame.Alike Linked.Alike f g a b) :
    InStep R (applyEffect a.2.1 a.1 callers a.2.2) (applyEffect b.2.1 b.1 callers' b.2.2) := by
  cases h with
  | next hA hw => exact .going _ (.cons hA hcallers) hw
  | nextUnlessStopped hA hw =>
    simp only [applyEffect, flowAfterCall_of_alike hw]
    exact .going _ (.cons hA hcallers) hw
  | suspend kind hA hw => exact .going _ (.cons hA hcallers) hw
  | enter args hA hw hL => exact .going _ (.cons (hL.start args) (.cons hA hcallers)) hw
  | leave hw =>
    have hempty : callers.isEmpty = callers'.isEmpty := by cases hcallers <;> rfl
    simp only [applyEffect, hempty]
    exact .going _ hcallers hw
  | fail fault hf hg hw =>
    refine .failing fault ?_ hw
    rw [List.map_cons, List.map_cons, hf, hg, hfg.name_eq, names_of_alike hcallers]
  | limitLeft h => exact .limitLeft h
  | limitRight h => exact .limitRight h

/-- The instructions of the innermost frame from its position on. -/
def remaining : List Frame → Nat
  | [] => 0
  | f :: _ => f.routine.image.ops.length - f.pc

/-- The thread takes a tick, and nothing of it is seen. -/
def Passes (R : σ → σ → Prop) (o : Outside σ) (s : Setting) (w u : World σ)
    (frames gs : List Frame) : Prop :=
  ∃ fs w', dispatch o.host s w frames = (fs, w', .next) ∧ List.Forall₂ Frame.Alike fs gs
    ∧ w'.Alike R u ∧ remaining fs < remaining frames

/-- At an instruction for the deadline a thread takes a tick of which nothing is seen. -/
theorem passes_of_extra (ho : o.Overlooks R) {k k' : Marking} {v : View} {f g : Frame}
    (hf : f.Seen k v) (hg : g.Seen k' v) (hnone : f.pending = none)
    (hmark : k.code[f.pc]? ≠ some .common) {callers callers' : List Frame}
    (hcallers : List.Forall₂ Frame.Alike callers callers') (hw : w.Alike R u) :
    Passes R o s w u (f :: callers) (g :: callers') := by
  have hop := List.getElem?_eq_getElem hf.confined.inside
  have hanswer := (ho.deadlineElapsed hw.1).1
  obtain ⟨f', w', hexec, hf', hroutine, hpc, hworld⟩ :=
    hf.exec_extra hnone hop hmark hanswer s callers
  refine ⟨f' :: callers, w', ?_, .cons ⟨v, k, k', hf', hg⟩ hcallers, ?_, ?_⟩
  · rw [dispatch_of_code hnone hop, hexec]
    rfl
  · rcases hworld with rfl | rfl
    · exact hw
    · exact hw.afterLook ho
  · have hinside := hf.confined.inside
    rw [remaining, remaining, hroutine, hpc]
    omega

theorem inStep_pollFrame (ho : o.Overlooks R) {k k' : Marking} {v : View} {f g : Frame}
    (hf : f.Seen k v) (hg : g.Seen k' v) {id : PendingId} (hid : v.pending = some id)
    {callers callers' : List Frame} (hcallers : List.Forall₂ Frame.Alike callers callers')
    (hw : w.Alike R u) :
    InStep R (pollFrame o.host w f callers id) (pollFrame o.host u g callers' id) := by
  have hsame := ho.poll hw.1 id
  have hafter := hw.after hsame
  simp only [pollFrame, ← hsame.1.1]
  cases (o.host.poll w.host id).answer with
  | none => exact .going _ (.cons ⟨v, k, k', hf, hg⟩ hcallers) hafter
  | some x =>
    have hfsome : f.pending.isSome := by rw [hf.pending, hid]; rfl
    have hgsome : g.pending.isSome := by rw [hg.pending, hid]; rfl
    simp only [flowAfterCall_of_alike hafter]
    exact .going _ (.cons ⟨_, k, k', hf.receives hfsome x, hg.receives hgsome x⟩ hcallers) hafter

/-- **Threads that are seen in the same way** take a tick together, or one of them takes a tick of
which nothing is seen. -/
theorem alike_cases (ho : o.Overlooks R)
    (hs : ∀ key, Option.Rel Linked.Alike (s.variants.find? key) (s'.variants.find? key))
    {frames frames' : List Frame} (hframes : List.Forall₂ Frame.Alike frames frames')
    (hw : w.Alike R u) :
    Passes R o s w u frames frames' ∨ Passes R o s' u w frames' frames
      ∨ InStep R (dispatch o.host s w frames) (dispatch o.host s' u frames') := by
  cases hframes with
  | nil => exact Or.inr (Or.inr (.going _ .nil hw))
  | @cons f g callers callers' hfg hcallers =>
    have hcallers' : List.Forall₂ Frame.Alike callers' callers :=
      List.Forall₂.flip (hcallers.imp fun _ _ h => h.symm)
    obtain ⟨v, k, k', hf, hg⟩ := id hfg
    cases hpending : v.pending with
    | some id =>
      have hfp : f.pending = some id := hf.pending.trans hpending
      have hgp : g.pending = some id := hg.pending.trans hpending
      simp only [dispatch, hfp, hgp]
      exact Or.inr (Or.inr (inStep_pollFrame ho hf hg hpending hcallers hw))
    | none =>
      have hfnone := hf.pending.trans hpending
      have hgnone := hg.pending.trans hpending
      by_cases hmark : k.code[f.pc]? = some .common
      · by_cases hmark' : k'.code[g.pc]? = some .common
        · have hop := List.getElem?_eq_getElem hf.confined.inside
          have hop' := List.getElem?_eq_getElem hg.confined.inside
          rw [dispatch_of_code hfnone hop, dispatch_of_code hgnone hop']
          exact Or.inr (Or.inr (inStep_applyEffect hfg hcallers
            (hf.exec_common ho hg hpending hop hop' hmark hmark' hw hs callers callers')))
        · exact Or.inr (Or.inl (passes_of_extra ho hg hf hgnone hmark' hcallers' (hw.symm ho)))
      · exact Or.inl (passes_of_extra ho hf hg hfnone hmark hcallers hw)

end Execution

end BlockScript
