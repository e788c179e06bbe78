import BlockScript.Proofs.Invariants
import BlockScript.Proofs.Verification

/-!
# Fine code does not go wrong

A linked routine is sound if its code is fine everywhere and the variants that it names are there
(`Linked.Sound`). A frame of such a routine is sound if its arguments are those that the routine was
made for, its local slots hold numbers, and the values on its stack have the shapes that the scan
finds at its position (`Frame.Sound`). A frame that waits for the result of a host call has given
away the arguments of the call but not yet received the result.

Main statement: an instruction of a sound frame leaves sound frames, and the only faults that it can
have are limits of the machine (`Frame.soundAfter_exec`). So soundness is an invariant of frames
(`Typing.invariant`), and steps keep it, whatever the host answers (`Execution.sound_step`).
-/

namespace BlockScript

theorem Value.hasShape_of_honours {v : Value} {shape : Shape} (h : v.Honours shape)
    (hshape : shape ≠ .number) : v.HasShape shape := by
  cases shape with
  | boolean => exact h rfl
  | number => exact absurd rfl hshape
  | unknown | text | numberOrText => trivial

theorem Instr.OperandsFine.local_lt {x : CodeScope} {st : List Shape} {op : Instr} {c : UInt16}
    (h : op.OperandsFine x st) (hlocal : op.local? = some c) : c.toNat < x.slots := by
  cases op with
  | loadLocal | countdown =>
    cases hlocal
    exact h
  | storeLocal | checkDeadline =>
    cases hlocal
    exact h.1
  | _ => cases hlocal

/-- The routine can be run among the variants of a setting; its code refers to `x`. -/
structure Linked.Sound (s : Setting) (l : Linked) (x : CodeScope) : Prop where
  fine : ∀ pc (op : Instr), l.image.ops[pc]? = some op → op.FineAt x l.image.ops pc
  ends : ∃ init, l.image.ops = init ++ [.ret]
  support : l.support = x.imports.support
  host : l.image.host = x.imports.host
  procedures : l.image.procedures = x.imports.procedures
  slots : l.image.locals.toNat = x.slots
  args : ∀ shape ∈ x.args, shape ≠ .number
  escapes : ∀ block opcode inputs, .escape block opcode inputs ∈ l.image.ops → inputs.length < 65536
  callees : ∀ k ∈ l.image.procedures, (s.variants.find? k).isSome

/-- A way to tell what the code of routines refers to, by which all of them are sound, and among
them are the variants of the setting, which take arguments of the shapes that their keys say. -/
structure Typing (s : Setting) where
  Types : Linked → CodeScope → Prop
  sound : ∀ {l x}, Types l x → l.Sound s x
  variants : ∀ {k l}, s.variants.find? k = some l → ∃ x, Types l x ∧ x.args = k.signature

namespace Frame

/-- The values on the stack, the latest first. -/
def values (f : Frame) : List Value := f.stack.toList.reverse

/-- The frame stands at a position of a routine, with values of the shapes `st` on its stack, and
waits for nothing. -/
structure Stands (l : Linked) (x : CodeScope) (pc : Nat) (st : List Shape) (f : Frame) : Prop where
  routine : f.routine = l
  pc : f.pc = pc
  pending : f.pending = none
  locals : f.locals.size = x.slots
  numbers : ∀ v ∈ f.locals, ∃ n, v = .number n
  args : List.Forall₂ (fun shape v => Value.Honours v shape) x.args f.args
  stack : List.Forall₂ Value.HasShape f.values st

/-- The frame is one that code which is fine can get into. -/
inductive Sound {s : Setting} (T : Typing s) (f : Frame) : Prop
  | ready {l : Linked} {x : CodeScope} {pc : Nat} (routine : T.Types l x)
    (stands : f.Stands l x pc (x.shapesAt l.image.ops pc)) (inside : pc < l.image.ops.length)
  /-- The frame waits for the result of the host call at its position. -/
  | waiting {l : Linked} {x : CodeScope} {pc : Nat} {i argc : UInt16} (routine : T.Types l x)
    (stands : { f with pending := none }.Stands l x pc
      ((x.shapesAt l.image.ops pc).drop argc.toNat))
    (call : l.image.ops[pc]? = some (.callHost i argc)) (pending : f.pending.isSome)

end Frame

/-! ## The parts of a frame -/

namespace Frame.Stands

variable {σ : Type} {l : Linked} {x : CodeScope} {pc : Nat} {st : List Shape} {shape : Shape}
  {f : Frame} {w : World σ}

theorem push (h : f.Stands l x pc st) {v : Value} (hv : v.HasShape shape) :
    (f.push v).Stands l x pc (shape :: st) where
  routine := h.routine
  pc := h.pc
  pending := h.pending
  locals := h.locals
  numbers := h.numbers
  args := h.args
  stack := by
    have hvalues : (f.push v).values = v :: f.values := by simp [values, Frame.push]
    rw [hvalues]
    exact .cons hv h.stack

/-- Nothing is known of some values. -/
theorem pushAny (h : f.Stands l x pc st) (v : Value) : (f.push v).Stands l x pc (.unknown :: st) :=
  h.push trivial

/-- The frame with another stack. -/
theorem withStack (h : f.Stands l x pc st) {stack : Array Value} {st' : List Shape}
    (hstack : List.Forall₂ Value.HasShape stack.toList.reverse st') :
    { f with stack := stack }.Stands l x pc st' :=
  ⟨h.routine, h.pc, h.pending, h.locals, h.numbers, h.args, hstack⟩

theorem withTimer (h : f.Stands l x pc st) (timer : Option Timer) :
    { f with timer := timer }.Stands l x pc st :=
  ⟨h.routine, h.pc, h.pending, h.locals, h.numbers, h.args, h.stack⟩

theorem setLocal (h : f.Stands l x pc st) (i : UInt16) (n : Number) :
    (f.setLocal i (.number n)).Stands l x pc st where
  routine := h.routine
  pc := h.pc
  pending := h.pending
  locals := by simpa [Frame.setLocal] using h.locals
  numbers := by
    intro v hv
    rcases Array.mem_or_eq_of_mem_setIfInBounds hv with hv | rfl
    · exact h.numbers v hv
    · exact ⟨n, rfl⟩
  args := h.args
  stack := h.stack

/-- The values on top have the latest shapes, and those below them the others. -/
theorem split (h : f.Stands l x pc st) {rest vs : List Value}
    (hstack : f.stack.toList = rest ++ vs) :
    List.Forall₂ Value.HasShape vs (st.take vs.length).reverse
      ∧ List.Forall₂ Value.HasShape rest.reverse (st.drop vs.length) := by
  have hvalues : f.values = vs.reverse ++ rest.reverse := by
    rw [values, hstack, List.reverse_append]
  have hshapes := h.stack
  rw [hvalues] at hshapes
  have htop := List.forall₂_take vs.length hshapes
  have hrest := List.forall₂_drop vs.length hshapes
  rw [List.take_left' List.length_reverse] at htop
  rw [List.drop_left' List.length_reverse] at hrest
  refine ⟨?_, hrest⟩
  rw [← List.forall₂_reverse_iff, List.reverse_reverse]
  exact htop

/-- The value on top has the latest shape. -/
theorem hasShape (h : f.Stands l x pc st) {rest : List Value} {v : Value}
    (hstack : f.stack.toList = rest ++ [v]) (hhead : st.head? = some shape) : v.HasShape shape := by
  obtain ⟨below, rfl⟩ := List.head?_eq_some_iff.mp hhead
  cases (h.split hstack).1 with
  | cons hv _ => exact hv

/-- The stack after an instruction that takes values and leaves none. -/
theorem scan_drop {rest vs : List Value} (h : f.Stands l x pc st) (op : Instr)
    (hstack : f.stack.toList = rest ++ vs) (hvs : vs.length = op.effect.1)
    (hleft : op.effect.2 = 0) :
    { f with stack := rest.toArray }.Stands l x pc (x.scan st op) := by
  apply h.withStack
  rw [CodeScope.scan, x.result?_eq_none hleft, ← hvs]
  exact (h.split hstack).2

/-- The stack after an instruction that takes values and leaves one. -/
theorem scan_push {rest vs : List Value} {v : Value} (h : f.Stands l x pc st) (op : Instr)
    (hstack : f.stack.toList = rest ++ vs) (hvs : vs.length = op.effect.1)
    (hresult : x.result? op = some shape) (hv : v.HasShape shape) :
    { f with stack := rest.toArray.push v }.Stands l x pc (x.scan st op) := by
  apply h.withStack
  rw [CodeScope.scan, hresult, ← hvs, Array.toList_push, List.reverse_append]
  exact .cons hv (h.split hstack).2

/-- The frame at another position. -/
theorem atPosition (h : f.Stands l x pc st) (pc' : Nat) : { f with pc := pc' }.Stands l x pc' st :=
  ⟨h.routine, rfl, h.pending, h.locals, h.numbers, h.args, h.stack⟩

end Frame.Stands

/-! ## Instructions -/

namespace Frame

variable {σ : Type} {s : Setting} {T : Typing s} {l : Linked} {x : CodeScope} {pc : Nat} {f : Frame}
  {w : World σ} {op : Instr}

/-- What an instruction leaves is sound: its frame and the one that it enters; if it has failed then
for a limit. -/
def SoundAfter (T : Typing s) (r : Frame × World σ × Effect) : Prop :=
  After (Sound T) (fun _ fault => fault.IsLimit) r

/-- After an instruction that the scan has gone through comes another one. -/
theorem Stands.sound_advance (h : f.Stands l x pc (x.scan (x.shapesAt l.image.ops pc) op))
    (hl : T.Types l x) (hop : l.image.ops[pc]? = some op) (hret : op ≠ .ret) :
    f.advance.Sound T := by
  have hstands : f.advance.Stands l x (pc + 1) (x.shapesAt l.image.ops (pc + 1)) := by
    have hadvance : f.advance = { f with pc := pc + 1 } := by rw [Frame.advance, h.pc]
    rw [x.shapesAt_succ hop, hadvance]
    exact h.atPosition (pc + 1)
  refine .ready hl hstands ?_
  -- the last instruction is a return
  obtain ⟨init, hinit⟩ := (T.sound hl).ends
  have hlt := (List.getElem?_eq_some_iff.mp hop).1
  rcases Nat.lt_or_ge (pc + 1) l.image.ops.length with hin | hout
  · exact hin
  · have hpc : pc = init.length := by
      rw [hinit, List.length_append, List.length_singleton] at hlt hout
      omega
    rw [hinit, hpc, List.getElem?_concat_length] at hop
    exact absurd (Option.some.inj hop).symm hret

/-- A sound routine can be entered with arguments that honour its shapes. -/
theorem sound_start (hl : T.Types l x) {args : List Value}
    (hargs : List.Forall₂ (fun shape v => Value.Honours v shape) x.args args) :
    (Frame.start l args).Sound T := by
  have hstands : (Frame.start l args).Stands l x 0 (x.shapesAt l.image.ops 0) := by
    refine ⟨rfl, rfl, rfl, ?_, fun v hv => ?_, hargs, ?_⟩
    · simpa [start] using (T.sound hl).slots
    · exact ⟨Number.zero, (Array.mem_replicate.mp hv).2⟩
    · rw [x.shapesAt_zero]
      exact .nil
  refine .ready hl hstands ?_
  obtain ⟨init, hinit⟩ := (T.sound hl).ends
  simp [hinit]

/-- Values of shapes that suit a signature honour it. -/
theorem honours_of_suits {sig found : List Shape} {vs : List Value}
    (hsuits : List.Forall₂ Shape.Suits sig found) (hvs : List.Forall₂ Value.HasShape vs found) :
    List.Forall₂ (fun shape v => Value.Honours v shape) sig vs := by
  induction hsuits generalizing vs with
  | nil =>
    cases hvs
    exact .nil
  | cons hab _ ih =>
    cases hvs with
    | cons hv hvs =>
      refine .cons (fun hbool => ?_) (ih hvs)
      rw [hab hbool] at hv
      exact hv

/-- **A sound frame has no fault** but that there are too many frames. -/
theorem Stands.isLimit_of_faults (hf : f.Stands l x pc (x.shapesAt l.image.ops pc))
    (hl : T.Types l x) (hop : l.image.ops[pc]? = some op) {callers : List Frame}
    {stack : Array Value} {fault : Fault} (hfault : f.Faults s callers op stack fault) :
    stack = f.stack ∧ fault.IsLimit := by
  have hfine := (T.sound hl).fine pc op hop
  have hroutine := hf.routine
  subst hroutine
  cases hfault with
  | underflow hless =>
    have hheight := hfine.height
    have htaken := op.taken_le
    rw [← hf.stack.length_eq, values, List.length_reverse, Array.length_toList] at hheight
    omega
  | argument hnone =>
    have hlt : _ < x.args.length := hfine.operands
    rw [List.getElem?_eq_none_iff, ← hf.args.length_eq] at hnone
    omega
  | slot hlocal hsize =>
    have hlt := hfine.operands.local_lt hlocal
    rw [hf.locals] at hsize
    omega
  | support hnone =>
    obtain ⟨fn, hfn, -⟩ := hfine.operands
    rw [(T.sound hl).support, hfn] at hnone
    cases hnone
  | host hnone =>
    have hlt : _ < x.imports.host.length := hfine.operands
    rw [(T.sound hl).host, List.getElem?_eq_none_iff] at hnone
    omega
  | procedure hnone =>
    obtain ⟨key, hkey, -⟩ := hfine.operands
    rw [(T.sound hl).procedures, hkey] at hnone
    cases hnone
  | jump hoffset houtside =>
    obtain ⟨target, htarget, hlt, -⟩ := hfine.jump _ hoffset
    have hsize : f.routine.code.size = f.routine.image.ops.length := by simp [f.routine.code_eq]
    rw [hf.pc] at houtside
    omega
  | condition hcondition hstack hbool =>
    have hhead : (x.shapesAt f.routine.image.ops pc).head? = some .boolean := by
      rcases hcondition with rfl | rfl <;> exact hfine.operands
    obtain ⟨b, rfl⟩ := hf.hasShape hstack hhead
    exact absurd rfl (hbool b)
  | counter hv hnumber =>
    obtain ⟨n, rfl⟩ := hf.numbers _ (Array.mem_of_getElem? hv)
    exact absurd rfl (hnumber n)
  | variant hkey hnone =>
    have hsome := (T.sound hl).callees _ (List.mem_of_getElem? hkey)
    rw [hnone] at hsome
    cases hsome
  | depth => exact ⟨rfl, trivial⟩

/-- What an instruction computes has the shape that the scan finds. -/
theorem Stands.exists_shape {vs : List Value} {v : Value}
    (hf : f.Stands l x pc (x.shapesAt l.image.ops pc)) (hl : T.Types l x)
    (hop : l.image.ops[pc]? = some op) (hcomputes : f.Computes op vs v) :
    ∃ shape, x.result? op = some shape ∧ v.HasShape shape := by
  have hfine := (T.sound hl).fine pc op hop
  cases hcomputes with
  | push => exact ⟨_, rfl, v.hasShape_shape⟩
  | slot => exact ⟨_, rfl, trivial⟩
  | @argument i _ hv =>
    have hlt : i.toNat < x.args.length := hfine.operands
    obtain ⟨v', hv', hhonours⟩ :=
      exists_getElem?_of_forall₂ hf.args (List.getElem?_eq_getElem hlt)
    cases hv'.symm.trans hv
    refine ⟨_, rfl, ?_⟩
    rw [List.getElem?_eq_getElem hlt]
    exact Value.hasShape_of_honours hhonours ((T.sound hl).args _ (List.getElem_mem hlt))
  | @support i _ fn _ hfn =>
    rw [hf.routine, (T.sound hl).support] at hfn
    refine ⟨_, rfl, ?_⟩
    rw [hfn]
    exact fn.hasShape_apply vs

/-- **A sound frame executes its instruction without a fault**, unless it comes to a limit. -/
theorem soundAfter_exec (hl : T.Types l x)
    (hf : f.Stands l x pc (x.shapesAt l.image.ops pc)) (hop : l.image.ops[pc]? = some op)
    (h : Host σ) (callers : List Frame) : SoundAfter T (f.exec h s callers w op) := by
  have hfine := (T.sound hl).fine pc op hop
  obtain ⟨action, hacts, hexec⟩ := f.exists_acts s callers op
  rw [hexec]
  cases hacts with
  | fails hfault =>
    obtain ⟨rfl, hlimit⟩ := hf.isLimit_of_faults hl hop hfault
    exact ⟨.ready hl hf (List.getElem?_eq_some_iff.mp hop).1, hlimit⟩
  | computes hstack hcomputes =>
    have hvs := hcomputes.length_eq.trans hcomputes.taken_eq
    obtain ⟨shape, hresult, hv⟩ := hf.exists_shape hl hop hcomputes
    refine (hf.scan_push _ hstack hvs hresult hv).sound_advance hl hop ?_
    rintro rfl
    cases hresult
  | drops hstack | sets hstack =>
    exact (hf.scan_drop _ hstack rfl rfl).sound_advance hl hop (by simp)
  | @stores c _ _ hstack =>
    obtain ⟨n, rfl⟩ := hf.hasShape hstack hfine.operands.2
    exact ((hf.scan_drop _ hstack rfl rfl).setLocal c n).sound_advance hl hop (by simp)
  | @jumps _ _ _ _ target hstack hjumps hoffset htarget =>
    obtain ⟨target', htarget', hlt, hshapes, hnext⟩ := hfine.jump _ hoffset
    obtain rfl : target = target' := by
      rw [hf.pc] at htarget
      omega
    have hvs := hjumps.length_eq.trans hjumps.taken_eq
    have hf' := hf.scan_drop op hstack hvs hjumps.effect_eq
    rw [← x.shapesAt_succ hop, hnext, ← hshapes] at hf'
    exact .ready hl (hf'.atPosition target) hlt
  | @passes _ _ _ b hstack hpasses =>
    subst hpasses
    cases b <;> exact (hf.scan_drop _ hstack rfl rfl).sound_advance hl hop (by simp)
  | @counts c | @early c => exact (hf.setLocal c _).sound_advance hl hop (by simp)
  | @asks c =>
    have hf' := (hf.setLocal c Number.zero).sound_advance hl hop (by simp)
    simp only [Action.perform]
    split <;> exact hf'
  | yields | idles => exact hf.sound_advance hl hop (by simp)
  | starts hstack =>
    exact ((hf.scan_drop _ hstack rfl rfl).withTimer _).sound_advance hl hop (by simp)
  | waits =>
    simp only [Action.perform]
    split
    · exact .ready hl hf (List.getElem?_eq_some_iff.mp hop).1
    · exact (hf.withTimer none).sound_advance hl hop (by simp)
  | evaluates hstack hvs =>
    rw [Nat.mod_eq_of_lt ((T.sound hl).escapes _ _ _ (List.mem_of_getElem? hop))] at hvs
    exact (hf.scan_push (.escape ..) hstack hvs rfl trivial).sound_advance hl hop (by simp)
  | calls _ hstack hvs =>
    simp only [Action.perform, callHost]
    split
    · exact (hf.scan_push (.callHost ..) hstack hvs rfl trivial).sound_advance hl hop (by simp)
    · refine .waiting hl ?_ hop rfl
      have hf' := hf.withStack (hf.split hstack).2
      rw [hvs] at hf'
      exact hf'.pending ▸ hf'
  | gets => exact (hf.pushAny _).sound_advance hl hop (by simp)
  | enters hkey hcallee _ hstack hvs =>
    obtain ⟨key, hkey', -, hsuits⟩ := hfine.operands
    rw [hf.routine, (T.sound hl).procedures, hkey'] at hkey
    cases hkey
    obtain ⟨y, hy, hargs⟩ := T.variants hcallee
    have hshapes := (hf.split hstack).1
    rw [hvs] at hshapes
    exact ⟨(hf.scan_drop (.callProcedure ..) hstack hvs rfl).sound_advance hl hop (by simp),
      sound_start hy (hargs ▸ honours_of_suits hsuits hshapes)⟩
  | leaves => trivial

end Frame

/-! ## Runs -/

/-- Sound frames execute their instructions without a fault, unless they come to a limit. -/
def Typing.invariant {s : Setting} (T : Typing s) : FrameInvariant s where
  Holds := Frame.Sound T
  Admits _ fault := fault.IsLimit
  exec := by
    intro σ h callers w f hf hnone
    cases hf with
    | ready hl hstands inside =>
      next l x pc =>
      have hop := List.getElem?_eq_getElem inside
      refine ⟨l.image.ops[pc], ?_, Frame.soundAfter_exec hl hstands hop h callers⟩
      rw [hstands.routine, hstands.pc]
      simp [l.code_eq, hop]
    | waiting _ _ _ hpending =>
      rw [hnone] at hpending
      cases hpending
  resume := by
    intro f id v hf hid
    cases hf with
    | ready _ hstands =>
      rw [hstands.pending] at hid
      cases hid
    | waiting hl hstands hop => exact (hstands.pushAny v).sound_advance hl hop (by simp)

namespace Execution

variable {σ : Type} {s : Setting} {T : Typing s} {h : Host σ} {w : World σ}

/-- All frames are sound. -/
def Sound (T : Typing s) (e : Execution) : Prop := ∀ f ∈ e.frames, f.Sound T

/-- **A step of a sound thread fails for a limit only**, and leaves the thread sound. -/
theorem sound_step {bound : Nat} {w' : World σ} {e e' : Execution} {outcome : Outcome}
    (he : e.Sound T) (hstep : step h s bound w e = some (outcome, w', e')) :
    e'.Sound T ∧ ∀ err, outcome = .failed err → err.fault.IsLimit := by
  obtain ⟨hsound, hfaults⟩ := T.invariant.step he hstep
  refine ⟨hsound, fun err herr => ?_⟩
  rcases hfaults err herr with hlimit | ⟨f, -, hlimit⟩
  · exact hlimit
  · exact hlimit

theorem Visits.sound {start e : Execution} (hstart : start.Sound T)
    (he : Visits s start e) : e.Sound T :=
  T.invariant.visits hstart he

end Execution

end BlockScript
