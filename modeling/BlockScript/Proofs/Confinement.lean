import BlockScript.Machine.ScriptedHost
import BlockScript.Proofs.Invariants
import BlockScript.Proofs.Lowering

/-!
# Linked routines stay inside themselves

Linking looks at each instruction by itself and at none of the ways in which control can get there.
That is enough for the structure of a routine. Whatever image was linked, and however its code jumps
about, each frame stands at an instruction of its routine and has the local slots that the routine
declares (`Frame.Confined`). An instruction that has failed may have taken values from the stack and
is executed again by the next step, but nothing in this depends on the stack.

Main statement: in every state of a thread all frames are confined, so no step fails for a position,
a slot or an import that does not exist, and for an argument only where there are fewer arguments
than the routine declares (`Execution.confined_of_visits`).
-/

namespace BlockScript

/-- The fault of a routine that leaves its code, its local slots or its tables. -/
def Fault.IsStructural : Fault → Prop
  | .pcOutside _ _ | .jumpOutside _ _ _ | .localOutside _ _ _ | .supportUnlinked _ | .hostUnlinked _
  | .procedureUnlinked _ => True
  | _ => False

/-! ## What linking has checked -/

theorem Image.lt_of_indexFlaw? {what : String} {index limit pc : Nat}
    (h : Image.indexFlaw? what index limit pc = none) : index < limit := by
  unfold Image.indexFlaw? at h
  split at h
  · assumption
  · cases h

namespace Linked

variable {l : Linked} {pc : Nat} {op : Instr}

theorem getLast?_ops (l : Linked) : l.image.ops.getLast? = some .ret := by
  have hverified := l.verified
  unfold Image.flaw? at hverified
  by_cases hlast : l.image.ops.getLast? = some .ret
  · exact hlast
  · rw [if_pos hlast] at hverified
    cases hverified

/-- No instruction has a flaw. -/
theorem flawless (hop : l.image.ops[pc]? = some op) :
    l.image.jumpFlaw? op pc = none ∧ l.image.operandFlaw? op pc = none := by
  have hverified := l.verified
  unfold Image.flaw? at hverified
  rw [if_neg (not_not_intro l.getLast?_ops), Option.or_eq_none_iff,
    List.findSome?_eq_none_iff] at hverified
  have hmem : (op, pc) ∈ l.image.ops.zipIdx := List.mk_mem_zipIdx_iff_getElem?.mpr hop
  exact Option.or_eq_none_iff.mp (hverified.1 (op, pc) hmem)

/-- A jump stays inside. -/
theorem exists_target (hop : l.image.ops[pc]? = some op) {offset : Int32}
    (hoffset : op.jumpOffset? = some offset) :
    ∃ target : Nat, (pc : Int) + offset.toInt = target ∧ target < l.image.ops.length := by
  have hflaw := (flawless hop).1
  unfold Image.jumpFlaw? at hflaw
  rw [hoffset, Option.bind_some] at hflaw
  dsimp only at hflaw
  split at hflaw
  · next hinside =>
    rw [Bool.and_eq_true, decide_eq_true_eq, decide_eq_true_eq] at hinside
    exact ⟨((pc : Int) + offset.toInt).toNat, by omega, by omega⟩
  · cases hflaw

/-- A slot that is used is declared. -/
theorem local_lt (hop : l.image.ops[pc]? = some op) {c : UInt16} (hslot : op.local? = some c) :
    c.toNat < l.image.locals.toNat := by
  have hflaw := (flawless hop).2
  cases op with
  | loadLocal | storeLocal | countdown =>
    cases hslot
    exact Image.lt_of_indexFlaw? hflaw
  | checkDeadline =>
    cases hslot
    exact Image.lt_of_indexFlaw? (Option.or_eq_none_iff.mp hflaw).1
  | _ => cases hslot

/-- After every instruction but a return there is another one. -/
theorem succ_lt_length (hop : l.image.ops[pc]? = some op) (hret : op ≠ .ret) :
    pc + 1 < l.image.ops.length := by
  have hlt : pc < l.image.ops.length := (List.getElem?_eq_some_iff.mp hop).1
  rcases Nat.lt_or_ge (pc + 1) l.image.ops.length with hin | hout
  · exact hin
  · have hpc : pc = l.image.ops.length - 1 := by omega
    have hlast := l.getLast?_ops
    rw [List.getLast?_eq_getElem?, ← hpc, hop] at hlast
    exact absurd (Option.some.inj hlast) hret

theorem length_support (l : Linked) : l.support.length = l.image.support.length := by
  rw [← l.imported, List.length_map]

theorem length_pos (l : Linked) : 0 < l.image.ops.length := by
  have hlast := l.getLast?_ops
  cases hops : l.image.ops with
  | nil =>
    rw [hops] at hlast
    cases hlast
  | cons op ops => simp

end Linked

/-! ## Frames -/

namespace Frame

/-- The frame stands at an instruction of its routine, at a host call if it waits for a result, and
has the local slots that the routine declares. -/
structure Confined (f : Frame) : Prop where
  inside : f.pc < f.routine.image.ops.length
  slots : f.locals.size = f.routine.image.locals.toNat
  waiting : f.pending.isSome → ∃ i argc, f.routine.image.ops[f.pc]? = some (.callHost i argc)

/-- The faults of confined frames: none of the structure, and none of an argument unless there are
fewer arguments than declared. -/
def ConfinedFault (f : Frame) (fault : Fault) : Prop :=
  ¬ fault.IsStructural
    ∧ ∀ i name, fault = .argumentOutside i name →
      name = f.routine.name ∧ f.args.length ≤ i ∧ i < f.routine.image.arity.toNat

variable {σ : Type} {w : World σ} {f : Frame} {op : Instr}

/-- A jump to a position of the routine. -/
theorem jumpBy_eq (f : Frame) {offset : Int32} {target : Nat}
    (htarget : (f.pc : Int) + offset.toInt = target) (hlt : target < f.routine.image.ops.length)
    (w : World σ) : f.jumpBy w offset = ({ f with pc := target }, w, .next) := by
  have hsize : f.routine.code.size = f.routine.image.ops.length := by simp [f.routine.code_eq]
  simp [jumpBy, htarget, hsize, hlt]

/-- What an instruction leaves is confined. -/
def ConfinedAfter (r : Frame × World σ × Effect) : Prop := After Confined ConfinedFault r

namespace Confined

theorem start (l : Linked) (args : List Value) : (Frame.start l args).Confined where
  inside := l.length_pos
  slots := by simp [Frame.start]
  waiting := by
    intro hpending
    cases hpending

theorem withStack (hf : f.Confined) (stack : Array Value) : { f with stack := stack }.Confined :=
  ⟨hf.inside, hf.slots, hf.waiting⟩

theorem withTimer (hf : f.Confined) (timer : Option Timer) : { f with timer := timer }.Confined :=
  ⟨hf.inside, hf.slots, hf.waiting⟩

theorem setLocal (hf : f.Confined) (i : UInt16) (v : Value) : (f.setLocal i v).Confined where
  inside := hf.inside
  slots := by simpa [Frame.setLocal] using hf.slots
  waiting := hf.waiting

/-- A frame that waits for nothing has gone on. -/
theorem move {f' : Frame} (hf : f.Confined) (hnone : f.pending = none)
    (hroutine : f'.routine = f.routine) (hslots : f'.locals.size = f.locals.size)
    (hpending : f'.pending = f.pending) (hpc : f'.pc < f.routine.image.ops.length) :
    f'.Confined where
  inside := hroutine ▸ hpc
  slots := by rw [hslots, hroutine, hf.slots]
  waiting := by
    intro hsome
    rw [hpending, hnone] at hsome
    cases hsome

theorem advance (hf : f.Confined) (hnone : f.pending = none)
    (hop : f.routine.image.ops[f.pc]? = some op) (hret : op ≠ .ret) : f.advance.Confined :=
  hf.move hnone rfl rfl rfl (Linked.succ_lt_length hop hret)

/-- **The faults of a confined frame** are none of the structure. -/
theorem fault {s : Setting} {callers : List Frame} {stack : Array Value} {fault : Fault}
    (hf : f.Confined) (hop : f.routine.image.ops[f.pc]? = some op)
    (hfault : f.Faults s callers op stack fault) : f.ConfinedFault fault := by
  have hoperand := (Linked.flawless hop).2
  cases hfault with
  | argument hargs =>
    refine ⟨fun hstructural => hstructural, fun i name heq => ?_⟩
    cases heq
    exact ⟨rfl, List.getElem?_eq_none_iff.mp hargs, Image.lt_of_indexFlaw? hoperand⟩
  | slot hslot hsize =>
    have hlt := Linked.local_lt hop hslot
    rw [hf.slots] at hsize
    exact absurd hlt (Nat.not_lt_of_le hsize)
  | support hnone =>
    have hlt := Image.lt_of_indexFlaw? hoperand
    rw [← Linked.length_support] at hlt
    exact absurd hlt (Nat.not_lt_of_le (List.getElem?_eq_none_iff.mp hnone))
  | host hnone | procedure hnone =>
    have hlt := Image.lt_of_indexFlaw? hoperand
    exact absurd hlt (Nat.not_lt_of_le (List.getElem?_eq_none_iff.mp hnone))
  | jump hoffset houtside =>
    obtain ⟨target, htarget, hlt⟩ := Linked.exists_target hop hoffset
    have hsize : f.routine.code.size = f.routine.image.ops.length := by simp [f.routine.code_eq]
    omega
  | underflow | condition | counter | variant | depth =>
    refine ⟨fun hstructural => hstructural, fun i name heq => ?_⟩
    cases heq

/-- **An instruction of a confined frame leaves confined frames.** -/
theorem exec (hf : f.Confined) (hnone : f.pending = none)
    (hop : f.routine.image.ops[f.pc]? = some op) (h : Host σ) (s : Setting) (callers : List Frame) :
    ConfinedAfter (f.exec h s callers w op) := by
  have hsize : f.routine.code.size = f.routine.image.ops.length := by simp [f.routine.code_eq]
  have hnext := Linked.succ_lt_length hop
  obtain ⟨action, hacts, hexec⟩ := f.exists_acts s callers op
  rw [hexec]
  cases hacts with
  | fails hfault => exact ⟨hf.withStack _, hf.fault hop hfault⟩
  | computes _ hcomputes =>
    refine hf.move hnone rfl rfl rfl (hnext ?_)
    rintro rfl
    cases hcomputes
  | drops | yields | starts | idles | evaluates | gets | sets =>
    exact hf.move hnone rfl rfl rfl (hnext (by simp))
  | stores | counts | early =>
    exact hf.move hnone rfl (Array.size_setIfInBounds ..) rfl (hnext (by simp))
  | jumps _ _ _ _ hlt => exact hf.move hnone rfl rfl rfl (hsize ▸ hlt)
  | passes _ hpasses =>
    refine hf.move hnone rfl rfl rfl (hnext ?_)
    rintro rfl
    split at hpasses <;> cases hpasses
  | @asks c =>
    have hf' := (hf.setLocal c (.number Number.zero)).advance hnone hop (by simp)
    simp only [Action.perform]
    split <;> exact hf'
  | waits =>
    simp only [Action.perform]
    split
    · exact hf
    · exact hf.move hnone rfl rfl rfl (hnext (by simp))
  | calls =>
    simp only [Action.perform, Frame.callHost]
    split
    · exact hf.move hnone rfl rfl rfl (hnext (by simp))
    · exact ⟨hf.inside, hf.slots, fun _ => ⟨_, _, hop⟩⟩
  | @enters _ _ _ callee _ vs =>
    exact ⟨hf.move hnone rfl rfl rfl (hnext (by simp)), .start callee vs⟩
  | leaves => trivial

end Confined

/-- Confinement is an invariant of frames. -/
def confinement (s : Setting) : FrameInvariant s where
  Holds := Confined
  Admits := ConfinedFault
  exec := by
    intro σ h callers w f hf hnone
    have hop := List.getElem?_eq_getElem hf.inside
    refine ⟨_, ?_, hf.exec hnone hop h s callers⟩
    simp [f.routine.code_eq, hop]
  resume := by
    intro f id v hf hid
    obtain ⟨i, argc, hop⟩ := hf.waiting (by rw [hid]; rfl)
    have hready : { f with pending := none }.Confined :=
      ⟨hf.inside, hf.slots, fun hpending => by cases hpending⟩
    exact (hready.withStack _).advance rfl hop (by simp)

end Frame

/-! ## Threads -/

namespace Execution

/-- A limit is no fault of the structure, and no fault of an argument. -/
theorem confinedFault_of_isLimit {fault : Fault} (hlimit : fault.IsLimit) :
    ¬ fault.IsStructural ∧ ∀ i name, fault ≠ .argumentOutside i name := by
  cases fault with
  | callDepthExceeded | stackLimitExceeded | stepLimitExceeded =>
    exact ⟨fun hstructural => hstructural, fun i name heq => by cases heq⟩
  | _ => exact hlimit.elim

/--
**Linked routines stay inside themselves.**

Take any linked routine, any table of linked variants and any limits, and let a thread run from the
beginning of the routine, on any hosts and with any outcomes of its steps, failures included. Then
each of its frames stands at an instruction of its routine and has as many local slots as the
routine declares. The next step does not fail for a position, a jump, a slot or an import that does
not exist. If it fails for an argument, the innermost frame has fewer arguments than its routine
declares.
-/
theorem confined_of_visits {entry : Linked} {s : Setting} {e : Execution}
    (he : (Execution.start entry).Visits s e) :
    (∀ f ∈ e.frames, f.pc < f.routine.image.ops.length
        ∧ f.locals.size = f.routine.image.locals.toNat)
      ∧ ∀ (σ : Type) (h : Host σ) (bound : Nat) (w w' : World σ) (e' : Execution)
        (err : RuntimeError), e.step h s bound w = some (.failed err, w', e') →
          ¬ err.fault.IsStructural
          ∧ ∀ i name, err.fault = .argumentOutside i name →
            ∃ f, e'.frames.head? = some f ∧ name = f.routine.name
              ∧ f.args.length ≤ i ∧ i < f.routine.image.arity.toNat := by
  have hstart : (Frame.confinement s).HoldsOf (Execution.start entry) := by
    intro f hf
    rw [List.mem_singleton.mp hf]
    exact .start entry []
  have hconfined := (Frame.confinement s).visits hstart he
  refine ⟨fun f hf => ⟨(hconfined f hf).inside, (hconfined f hf).slots⟩, ?_⟩
  intro σ h bound w w' e' err hstep
  rcases ((Frame.confinement s).step hconfined hstep).2 err rfl with hlimit | ⟨f, hf, hfault, hargs⟩
  · obtain ⟨hstructural, hargument⟩ := confinedFault_of_isLimit hlimit
    exact ⟨hstructural, fun i name heq => absurd heq (hargument i name)⟩
  · exact ⟨hfault, fun i name heq => ⟨f, hf, hargs i name heq⟩⟩

/-- A routine that takes a text for a truth value, and then asks for an argument that a thread does
not give to the routine that it begins with. -/
def strayImage : Image where
  name := "stray"
  ops := [.push (.bool true), .push (.text "x"), .jumpIfFalse 2, .loadArg 0, .drop, .ret]
  arity := 1

theorem confined_of_visits_stray :
    ∃ l w e w' e', strayImage.link .none = .ok l
      ∧ (Execution.start l).step ScriptedHost.host {} 10 ⟨{}, false⟩
        = some (.failed ⟨.typeMismatch "boolean" "string", ["stray"]⟩, w, e)
      ∧ e.step ScriptedHost.host {} 10 w
        = some (.failed ⟨.argumentOutside 0 "stray", ["stray"]⟩, w', e')
      ∧ (∀ f ∈ e.frames, f.pc < f.routine.image.ops.length)
      ∧ ∃ f, e'.frames.head? = some f ∧ f.args.length < f.routine.image.arity.toNat := by
  have hrun : ((strayImage.link .none).toOption.bind fun l =>
      ((Execution.start l).step ScriptedHost.host {} 10 ⟨{}, false⟩).bind fun r =>
        (r.2.2.step ScriptedHost.host {} 10 r.2.1).map fun r' => (r.1, r'.1))
      = some (.failed ⟨.typeMismatch "boolean" "string", ["stray"]⟩,
          .failed ⟨.argumentOutside 0 "stray", ["stray"]⟩) := by
    decide +kernel
  obtain ⟨l, hl, hrun⟩ := Option.bind_eq_some_iff.mp hrun
  obtain ⟨⟨outcome, w, e⟩, hfirst, hrun⟩ := Option.bind_eq_some_iff.mp hrun
  obtain ⟨⟨outcome', w', e'⟩, hsecond, houtcomes⟩ := Option.map_eq_some_iff.mp hrun
  cases houtcomes
  -- the state after the first failure
  obtain ⟨hframes, hnext⟩ := confined_of_visits (.step _ _ .start hfirst)
  obtain ⟨f, hf, -, hargs, harity⟩ := (hnext _ _ _ _ _ _ _ hsecond).2 0 "stray" rfl
  exact ⟨l, w, e, w', e', eq_ok_of_toOption hl, hfirst, hsecond,
    fun f hf => (hframes f hf).1, f, hf, Nat.lt_of_le_of_lt hargs harity⟩

end Execution

end BlockScript
