import BlockScript.Proofs.Ticks

/-!
# Where an instruction leads

An instruction works on the frame that executes it: it leads to another position, changes a local
slot, and may make the thread give way, enter a routine or fail. That is said here for every
instruction (`Frame.executes_exec`), as it follows from its actions; what a frame keeps while it
executes is read off from there.
-/

namespace BlockScript

namespace Instr

/-- If the thread goes on after the instruction, it may do so at the next one with the slots as they
are. -/
def falls : Instr → Bool
  | .storeLocal _ | .jump _ | .countdown _ _ | .yield _ | .checkDeadline _ _ | .ret => false
  | _ => true

/-- The instruction at position `pc` leads to `pc'`, where the local slots hold other values. -/
inductive Leads : Instr → (pc : Nat) → (locals : List Value) → (pc' : Nat) →
    (locals' : List Value) → Prop
  | falls {op pc locals} : op.falls = true → Leads op pc locals (pc + 1) locals
  | jumps {op offset locals} {pc target : Nat} : op.jumpOffset? = some offset →
    (pc : Int) + offset.toInt = target → Leads op pc locals target locals
  | stores {c v pc locals} : Leads (.storeLocal c) pc locals (pc + 1) (locals.set c.toNat v)
  | counts {c exit v pc locals} :
    Leads (.countdown c exit) pc locals (pc + 1) (locals.set c.toNat v)
  /-- The deadline is not looked at yet. -/
  | early {c v pc} {k : UInt32} {locals : List Value} : locals[c.toNat]? = some v →
    (Number.ofNat k.toNat).le (v.toNumber.add 1) = false →
    Leads (.checkDeadline c k) pc locals (pc + 1) (locals.set c.toNat (.number (v.toNumber.add 1)))

end Instr

namespace Frame

/-- The frame is another one at position `pc` with these values in its slots. -/
structure IsAt (f f' : Frame) (pc : Nat) (locals : List Value) : Prop where
  routine : f'.routine = f.routine
  pc : f'.pc = pc
  locals : f'.locals.toList = locals

/-- What an instruction makes of a frame, and its effect. -/
inductive Executes {σ : Type} (h : Host σ) (s : Setting) (callers : List Frame) (w : World σ)
    (f : Frame) : Instr → Frame → Effect → Prop
  | fails {op f' fault} : f.IsAt f' f.pc f.locals.toList → f'.pending = f.pending →
    (∀ c, op = .storeLocal c → c.toNat < f.locals.size → f'.stack = f.stack) →
    Executes h s callers w f op f' (.fail fault)
  /-- The time of a timer or the result of a call has not come yet. -/
  | waits {op f'} : f.IsAt f' f.pc f.locals.toList → (∀ c, op ≠ .storeLocal c) →
    (op = .waitTimer ∨ ∃ name args id, (h.callPrimitive w.host name args).answer = .pending id) →
    Executes h s callers w f op f' (.suspend .blocking)
  | moves {op f' effect pc locals} : op.Leads f.pc f.locals.toList pc locals → f.IsAt f' pc locals →
    f'.pending = f.pending → effect = .next ∨ effect = .nextUnlessStopped →
    (∀ v, op = .push v → f'.stack.back? = some v) →
    (∀ c v, op = .storeLocal c → locals[c.toNat]? = some v → f.stack.back? = some v) →
    Executes h s callers w f op f' effect
  /-- The host is asked about the deadline. -/
  | asks {c v f' effect} {k : UInt32} : f.locals[c.toNat]? = some v →
    (Number.ofNat k.toNat).le (v.toNumber.add 1) = true →
    f.IsAt f' (f.pc + 1) (f.locals.toList.set c.toNat (.number .zero)) → f'.pending = f.pending →
    effect = (if (h.deadlineElapsed w.host).answer then .suspend .soft else .next) →
    Executes h s callers w f (.checkDeadline c k) f' effect
  | yields {kind f'} : f.IsAt f' (f.pc + 1) f.locals.toList →
    Executes h s callers w f (.yield kind) f' (.suspend kind)
  | enters {i argc f' key callee args} :
    f.IsAt f' (f.pc + 1) f.locals.toList → f'.pending = f.pending →
    key ∈ f.routine.image.procedures → s.variants.find? key = some callee →
    callers.length + 1 < s.limits.maxCallDepth →
    Executes h s callers w f (.callProcedure i argc) f' (.enter callee args)
  | leaves : Executes h s callers w f .ret f .leave

section

variable {σ : Type} {h : Host σ} {s : Setting} {callers : List Frame} {w : World σ} {f f' : Frame}
  {op : Instr}

theorem Executes.routine {effect : Effect} (hexec : f.Executes h s callers w op f' effect) :
    f'.routine = f.routine := by
  cases hexec with
  | fails hat | waits hat | moves _ hat | asks _ _ hat | yields hat | enters hat =>
    exact hat.routine
  | leaves => rfl

/-- A routine is left by one instruction only. -/
theorem Executes.eq_ret (hexec : f.Executes h s callers w op f' .leave) : op = .ret := by
  cases hexec with
  | moves _ _ _ heffect => rcases heffect with heffect | heffect <;> cases heffect
  | asks _ _ _ _ heffect => split at heffect <;> cases heffect
  | leaves => rfl

/-- A routine is entered by one instruction only. -/
theorem Executes.eq_callProcedure {callee : Linked} {args : List Value}
    (hexec : f.Executes h s callers w op f' (.enter callee args)) :
    ∃ i argc, op = .callProcedure i argc := by
  cases hexec with
  | moves _ _ _ heffect => rcases heffect with heffect | heffect <;> cases heffect
  | asks _ _ _ _ heffect => split at heffect <;> cases heffect
  | enters => exact ⟨_, _, rfl⟩

/-- A routine that is entered is a variant that the frame's routine names. -/
theorem Executes.exists_variant {callee : Linked} {args : List Value}
    (hexec : f.Executes h s callers w op f' (.enter callee args)) :
    ∃ key ∈ f.routine.image.procedures, s.variants.find? key = some callee := by
  cases hexec with
  | moves _ _ _ heffect => rcases heffect with heffect | heffect <;> cases heffect
  | asks _ _ _ _ heffect => split at heffect <;> cases heffect
  | enters _ _ hkey hfind => exact ⟨_, hkey, hfind⟩

/-- What an instruction leaves is as described. -/
def ExecutesTo (h : Host σ) (s : Setting) (callers : List Frame) (w : World σ) (f : Frame)
    (op : Instr) (r : Frame × World σ × Effect) : Prop :=
  Executes h s callers w f op r.1 r.2.2

theorem toList_setLocal (f : Frame) (c : UInt16) (v : Value) :
    (f.setLocal c v).locals.toList = f.locals.toList.set c.toNat v := by
  simp [setLocal]

theorem Faults.executesTo {stack : Array Value} {fault : Fault} {w' : World σ}
    (hfault : f.Faults s callers op stack fault) :
    ExecutesTo h s callers w f op ({ f with stack := stack }, w', .fail fault) := by
  refine .fails ⟨rfl, rfl, rfl⟩ rfl fun c hop hc => ?_
  cases hop
  cases hfault with
  | underflow => rfl
  | slot hslot hsize =>
    cases hslot
    exact absurd hc (Nat.not_lt_of_le hsize)
  | jump hoffset => cases hoffset
  | condition hop => rcases hop with hop | hop <;> cases hop

/-- The instruction goes on to the next one. -/
theorem executesTo_falls (hfalls : op.falls = true) (hpush : ∀ v, op ≠ .push v)
    {w' : World σ} {effect : Effect} (hat : f.IsAt f' (f.pc + 1) f.locals.toList)
    (hpending : f'.pending = f.pending) (heffect : effect = .next ∨ effect = .nextUnlessStopped) :
    ExecutesTo h s callers w f op (f', w', effect) := by
  refine .moves (.falls hfalls) hat hpending heffect ?_ ?_
  · intro v heq
    exact absurd heq (hpush v)
  · rintro c v rfl
    cases hfalls

theorem Computes.executesTo {w' : World σ} {vs : List Value} {v : Value}
    (hcomputes : f.Computes op vs v) (rest : Array Value) :
    ExecutesTo h s callers w f op ({ f with stack := rest.push v, pc := f.pc + 1 }, w', .next) := by
  cases hcomputes with
  | push =>
    refine .moves (.falls rfl) ⟨rfl, rfl, rfl⟩ rfl (Or.inl rfl) ?_ (by simp)
    intro v' heq
    cases heq
    exact Array.back?_push
  | argument | slot | support =>
    exact executesTo_falls rfl (by simp) ⟨rfl, rfl, rfl⟩ rfl (Or.inl rfl)

/-- **What an instruction does** to the position and the slots of its frame. -/
theorem executes_exec (h : Host σ) (s : Setting) (callers : List Frame) (w : World σ) (f : Frame)
    (op : Instr) : ExecutesTo h s callers w f op (f.exec h s callers w op) := by
  obtain ⟨action, hacts, hexec⟩ := f.exists_acts s callers op
  rw [hexec]
  cases hacts with
  | fails hfault => exact hfault.executesTo
  | computes _ hcomputes => exact hcomputes.executesTo _
  | drops | starts | idles | gets | sets =>
    exact executesTo_falls rfl (by simp) ⟨rfl, rfl, rfl⟩ rfl (Or.inl rfl)
  | @stores c rest v hstack hslot =>
    refine .moves .stores ⟨rfl, rfl, toList_setLocal _ c v⟩ rfl (Or.inl rfl) (by simp) ?_
    intro c' v' heq hv'
    cases heq
    rw [List.getElem?_set_self hslot] at hv'
    rw [← Array.getLast?_toList, hstack, List.getLast?_concat, hv']
  | jumps _ _ hoffset htarget =>
    refine .moves (.jumps hoffset htarget) ⟨rfl, rfl, rfl⟩ rfl (Or.inl rfl) ?_ ?_
    · rintro v rfl
      cases hoffset
    · rintro c v rfl
      cases hoffset
  | @passes _ _ _ b _ hop =>
    subst hop
    cases b <;> exact executesTo_falls rfl (by simp) ⟨rfl, rfl, rfl⟩ rfl (Or.inl rfl)
  | counts =>
    exact .moves .counts ⟨rfl, rfl, f.toList_setLocal _ _⟩ rfl (Or.inl rfl) (by simp) (by simp)
  | early hv hearly =>
    rw [← Array.getElem?_toList] at hv
    exact .moves (.early hv hearly) ⟨rfl, rfl, f.toList_setLocal _ _⟩ rfl (Or.inl rfl) (by simp)
      (by simp)
  | asks hv hdue => exact .asks hv hdue ⟨rfl, rfl, f.toList_setLocal _ _⟩ rfl rfl
  | yields kind => exact .yields ⟨rfl, rfl, rfl⟩
  | waits =>
    simp only [Action.perform]
    split
    · exact .waits ⟨rfl, rfl, rfl⟩ (by simp) (Or.inl rfl)
    · exact executesTo_falls rfl (by simp) ⟨rfl, rfl, rfl⟩ rfl (Or.inl rfl)
  | evaluates => exact executesTo_falls rfl (by simp) ⟨rfl, rfl, rfl⟩ rfl (Or.inr rfl)
  | calls =>
    simp only [Action.perform, callHost]
    split
    · exact executesTo_falls rfl (by simp) ⟨rfl, rfl, rfl⟩ rfl (Or.inr rfl)
    · next id hid => exact .waits ⟨rfl, rfl, rfl⟩ (by simp) (Or.inr ⟨_, _, id, hid⟩)
  | enters hkey hcallee hdepth =>
    exact .enters ⟨rfl, rfl, rfl⟩ rfl (List.mem_of_getElem? hkey) hcallee hdepth
  | leaves => exact .leaves

end

end Frame

end BlockScript
