import BlockScript.Machine.Execution

/-!
# The actions of instructions

An instruction looks at its frame and then makes one call to the host at most. What it is about to
do when it comes to the call, and what it makes of the answer, is an `Action`; it does not depend on
the host. Which actions an instruction has is said by `Frame.Acts`, with all conditions, and how it
fails by `Frame.Faults`.

Main statement: whatever the host is, an instruction performs one of its actions
(`Frame.exists_acts`). What is said elsewhere of every instruction of one frame is read off from its
actions: what it leaves, which calls it makes, which faults it has, and that hosts which agree see
the same. Only where two frames with different code are compared are the instructions gone through
once more, side by side.
-/

namespace BlockScript

namespace Instr

/-- The number of values that the machine takes from the stack. The inputs of an escape are counted
in 16 bits. -/
def taken : Instr → Nat
  | .escape _ _ inputs => inputs.length % 65536
  | op => op.effect.1

theorem taken_le (op : Instr) : op.taken ≤ op.effect.1 := by
  cases op with
  | escape => exact Nat.mod_le ..
  | _ => exact Nat.le_refl _

/-- The local slot that the instruction looks at or changes. -/
def local? : Instr → Option UInt16
  | .loadLocal c | .storeLocal c | .countdown c _ | .checkDeadline c _ => some c
  | _ => none

end Instr

/-! ## Actions -/

/-- What is left to do of an instruction when it comes to the host: nothing, or one call, whose
answer is used to go on. -/
inductive Action where
  | done (f : Frame) (effect : Effect)
  | evaluate (block : BlockId) (opcode : String) (inputs : List (String × Value)) (f : Frame)
  | call (name : String) (args : List Value) (f : Frame)
  | get (name : String) (f : Frame)
  | set (name : String) (v : Value) (f : Frame)
  | now (k : Number → Frame × Effect)
  | deadline (f : Frame)

namespace Action

/-- Performs the action on a host. -/
def perform {σ : Type} (h : Host σ) (w : World σ) : Action → Frame × World σ × Effect
  | done f effect => (f, w, effect)
  | evaluate block opcode inputs f =>
    let reply := h.evaluate w.host block opcode inputs
    ((f.push reply.answer).advance, w.after reply, .nextUnlessStopped)
  | call name args f => f.callHost h w name args
  | get name f =>
    let reply := h.getVariable w.host name
    ((f.push reply.answer).advance, w.after reply, .next)
  | set name v f => (f.advance, w.after (h.setVariable w.host name v), .next)
  | now k =>
    let reply := h.now w.host
    ((k reply.answer).1, w.after reply, (k reply.answer).2)
  | deadline f =>
    let reply := h.deadlineElapsed w.host
    (f.advance, w.after reply, if reply.answer then .suspend .soft else .next)

/-- The frames of the action, after any answer, have a property. -/
def All (P : Frame → Prop) : Action → Prop
  | done f _ | evaluate _ _ _ f | call _ _ f | get _ f | set _ _ f | deadline f => P f
  | now k => ∀ time, P (k time).1

end Action

namespace Frame

/-- The instruction fails with the fault, and leaves the stack. -/
inductive Faults (s : Setting) (callers : List Frame) (f : Frame) :
    Instr → (stack : Array Value) → Fault → Prop
  | underflow {op : Instr} : f.stack.size < op.taken →
    Faults s callers f op f.stack (.stackUnderflow f.routine.name f.pc)
  | argument {i : UInt16} : f.args[i.toNat]? = none →
    Faults s callers f (.loadArg i) f.stack (.argumentOutside i.toNat f.routine.name)
  | slot {op : Instr} {c : UInt16} {rest vs : List Value} : op.local? = some c →
    f.locals.size ≤ c.toNat → f.stack.toList = rest ++ vs → vs.length = op.taken →
    Faults s callers f op rest.toArray (.localOutside c.toNat f.routine.name f.pc)
  | support {i argc : UInt16} : f.routine.support[i.toNat]? = none →
    Faults s callers f (.callSupport i argc) f.stack (.supportUnlinked i.toNat)
  | host {i argc : UInt16} : f.routine.image.host[i.toNat]? = none →
    Faults s callers f (.callHost i argc) f.stack (.hostUnlinked i.toNat)
  | procedure {i argc : UInt16} : f.routine.image.procedures[i.toNat]? = none →
    Faults s callers f (.callProcedure i argc) f.stack (.procedureUnlinked i.toNat)
  | jump {op : Instr} {offset : Int32} {rest vs : List Value} : op.jumpOffset? = some offset →
    ¬ (0 ≤ (f.pc : Int) + offset.toInt ∧ (f.pc : Int) + offset.toInt < f.routine.code.size) →
    f.stack.toList = rest ++ vs → vs.length = op.taken →
    Faults s callers f op rest.toArray
      (.jumpOutside f.pc offset.toInt ((f.pc : Int) + offset.toInt))
  | condition {op : Instr} {offset : Int32} {rest : List Value} {v : Value} :
    op = .jumpIfFalse offset ∨ op = .jumpIfTrue offset → f.stack.toList = rest ++ [v] →
    (∀ b, v ≠ .bool b) → Faults s callers f op rest.toArray (.typeMismatch "boolean" v.kind)
  | counter {c : UInt16} {exit : Int32} {v : Value} : f.locals[c.toNat]? = some v →
    (∀ n, v ≠ .number n) →
    Faults s callers f (.countdown c exit) f.stack (.typeMismatch "number" v.kind)
  | variant {i argc : UInt16} {key : VariantKey} : f.routine.image.procedures[i.toNat]? = some key →
    s.variants.find? key = none →
    Faults s callers f (.callProcedure i argc) f.stack (.unknownVariant key.text)
  | depth {i argc : UInt16} : s.limits.maxCallDepth ≤ callers.length + 1 →
    Faults s callers f (.callProcedure i argc) f.stack (.callDepthExceeded s.limits.maxCallDepth)

/-- The value that the instruction computes from those that it takes. -/
inductive Computes (f : Frame) : Instr → List Value → Value → Prop
  | push (v : Value) : Computes f (.push v) [] v
  | argument {i : UInt16} {v : Value} : f.args[i.toNat]? = some v → Computes f (.loadArg i) [] v
  | slot {c : UInt16} {v : Value} : f.locals[c.toNat]? = some v → Computes f (.loadLocal c) [] v
  | support {i argc : UInt16} {fn : Support} {vs : List Value} :
    f.routine.support[i.toNat]? = some fn → vs.length = argc.toNat →
    Computes f (.callSupport i argc) vs (fn.apply vs)

/-- The instruction jumps when it has taken these values. -/
inductive Jumps (f : Frame) : Instr → List Value → Prop
  | always (offset : Int32) : Jumps f (.jump offset) []
  | onFalse (offset : Int32) : Jumps f (.jumpIfFalse offset) [.bool false]
  | onTrue (offset : Int32) : Jumps f (.jumpIfTrue offset) [.bool true]
  | over {c : UInt16} {n : Number} (offset : Int32) : f.locals[c.toNat]? = some (.number n) →
    Number.half.le n = false → Jumps f (.countdown c offset) []

/-- The actions of an instruction. Its frame has taken the values `vs` from its stack, and `rest` is
below them. -/
inductive Acts (s : Setting) (callers : List Frame) (f : Frame) : Instr → Action → Prop
  | fails {op : Instr} {stack : Array Value} {fault : Fault} : f.Faults s callers op stack fault →
    Acts s callers f op (.done { f with stack := stack } (.fail fault))
  | computes {op : Instr} {rest vs : List Value} {v : Value} : f.stack.toList = rest ++ vs →
    f.Computes op vs v →
    Acts s callers f op (.done { f with stack := rest.toArray.push v, pc := f.pc + 1 } .next)
  | drops {rest : List Value} {v : Value} : f.stack.toList = rest ++ [v] →
    Acts s callers f .drop (.done { f with stack := rest.toArray, pc := f.pc + 1 } .next)
  | stores {c : UInt16} {rest : List Value} {v : Value} : f.stack.toList = rest ++ [v] →
    c.toNat < f.locals.size → Acts s callers f (.storeLocal c)
      (.done ({ f with stack := rest.toArray }.setLocal c v).advance .next)
  | jumps {op : Instr} {offset : Int32} {rest vs : List Value} {target : Nat} :
    f.stack.toList = rest ++ vs → f.Jumps op vs → op.jumpOffset? = some offset →
    (f.pc : Int) + offset.toInt = target → target < f.routine.code.size →
    Acts s callers f op (.done { f with stack := rest.toArray, pc := target } .next)
  | passes {op : Instr} {offset : Int32} {rest : List Value} {b : Bool} :
    f.stack.toList = rest ++ [.bool b] →
    op = (if b then .jumpIfFalse offset else .jumpIfTrue offset) →
    Acts s callers f op (.done { f with stack := rest.toArray, pc := f.pc + 1 } .next)
  | counts {c : UInt16} {exit : Int32} {n : Number} : f.locals[c.toNat]? = some (.number n) →
    Number.half.le n = true → Acts s callers f (.countdown c exit)
      (.done (f.setLocal c (.number (n.sub 1))).advance .next)
  | early {c : UInt16} {k : UInt32} {v : Value} : f.locals[c.toNat]? = some v →
    (Number.ofNat k.toNat).le (v.toNumber.add 1) = false → Acts s callers f (.checkDeadline c k)
      (.done (f.setLocal c (.number (v.toNumber.add 1))).advance .next)
  | asks {c : UInt16} {k : UInt32} {v : Value} : f.locals[c.toNat]? = some v →
    (Number.ofNat k.toNat).le (v.toNumber.add 1) = true →
    Acts s callers f (.checkDeadline c k) (.deadline (f.setLocal c (.number Number.zero)))
  | yields (kind : YieldKind) : Acts s callers f (.yield kind) (.done f.advance (.suspend kind))
  | starts {rest : List Value} {v : Value} : f.stack.toList = rest ++ [v] →
    Acts s callers f .startTimer (.now fun time =>
      ({ f with stack := rest.toArray, timer := some ⟨time, v.toNumber⟩, pc := f.pc + 1 }, .next))
  | idles : f.timer = none → Acts s callers f .waitTimer (.done f.advance .next)
  | waits {t : Timer} : f.timer = some t → Acts s callers f .waitTimer (.now fun time =>
      if (time.sub t.start).lt t.duration then (f, .suspend .blocking)
      else ({ f with timer := none, pc := f.pc + 1 }, .next))
  | evaluates {block : BlockId} {opcode : String} {inputs : List String} {rest vs : List Value} :
    f.stack.toList = rest ++ vs → vs.length = inputs.length % 65536 →
    Acts s callers f (.escape block opcode inputs)
      (.evaluate block opcode (inputs.zip vs) { f with stack := rest.toArray })
  | calls {i argc : UInt16} {name : String} {rest vs : List Value} :
    f.routine.image.host[i.toNat]? = some name → f.stack.toList = rest ++ vs →
    vs.length = argc.toNat →
    Acts s callers f (.callHost i argc) (.call name vs { f with stack := rest.toArray })
  | gets (name : String) : Acts s callers f (.getVariable name) (.get name f)
  | sets {name : String} {rest : List Value} {v : Value} : f.stack.toList = rest ++ [v] →
    Acts s callers f (.setVariable name) (.set name v { f with stack := rest.toArray })
  | enters {i argc : UInt16} {key : VariantKey} {callee : Linked} {rest vs : List Value} :
    f.routine.image.procedures[i.toNat]? = some key → s.variants.find? key = some callee →
    callers.length + 1 < s.limits.maxCallDepth → f.stack.toList = rest ++ vs →
    vs.length = argc.toNat → Acts s callers f (.callProcedure i argc)
      (.done { f with stack := rest.toArray, pc := f.pc + 1 } (.enter callee vs))
  | leaves : Acts s callers f .ret (.done f .leave)

variable {s : Setting} {callers : List Frame} {f : Frame} {op : Instr}

theorem size_le_of_append {rest vs : List Value} (hstack : f.stack.toList = rest ++ vs) :
    rest.toArray.size ≤ f.stack.size := by
  rw [List.size_toArray, ← Array.length_toList, hstack, List.length_append]
  omega

theorem Computes.length_eq {vs : List Value} {v : Value} (hcomputes : f.Computes op vs v) :
    vs.length = op.taken := by
  cases hcomputes with
  | push | argument | slot => rfl
  | support _ hvs => exact hvs

theorem Computes.taken_eq {vs : List Value} {v : Value} (hcomputes : f.Computes op vs v) :
    op.taken = op.effect.1 := by
  cases hcomputes <;> rfl

theorem Computes.effect_eq {vs : List Value} {v : Value} (hcomputes : f.Computes op vs v) :
    op.effect.2 = 1 := by
  cases hcomputes <;> rfl

theorem Jumps.length_eq {vs : List Value} (hjumps : f.Jumps op vs) : vs.length = op.taken := by
  cases hjumps <;> rfl

theorem Jumps.taken_eq {vs : List Value} (hjumps : f.Jumps op vs) : op.taken = op.effect.1 := by
  cases hjumps <;> rfl

theorem Jumps.effect_eq {vs : List Value} (hjumps : f.Jumps op vs) : op.effect.2 = 0 := by
  cases hjumps <;> rfl

/-- The values on top of the stack are taken. -/
theorem withValues_of_append {σ : Type} {w : World σ} {rest vs : List Value} {n : Nat}
    (hstack : f.stack.toList = rest ++ vs) (hvs : vs.length = n)
    (k : List Value → Frame → Frame × World σ × Effect) :
    f.withValues w n k = k vs { f with stack := rest.toArray } := by
  subst hvs
  have harray : f.stack = (rest ++ vs).toArray := by rw [← hstack, Array.toArray_toList]
  rw [withValues, if_neg (by simp [harray])]
  simp [harray, Array.shrink_eq_take]

/-- No action changes what the frame waits for. -/
theorem Acts.pending {action : Action} (hacts : f.Acts s callers op action) :
    action.All fun f' => f'.pending = f.pending := by
  cases hacts with
  | starts => exact fun _ => rfl
  | waits =>
    intro time
    dsimp only
    split <;> rfl
  | _ => rfl

/-- On every host there is done what one action of the instruction says. -/
def Performs (s : Setting) (callers : List Frame) (f : Frame) (op : Instr)
    (exec : ∀ {σ : Type}, Host σ → World σ → Frame × World σ × Effect) : Prop :=
  ∃ action, f.Acts s callers op action
    ∧ ∀ {σ : Type} (h : Host σ) (w : World σ), exec h w = action.perform h w

namespace Performs

/-- The values on top of the stack are taken, or there are too few. -/
theorem withValues {n : Nat} (hn : op.taken = n)
    {k : ∀ {σ : Type}, Host σ → World σ → List Value → Frame → Frame × World σ × Effect}
    (hk : ∀ rest vs, f.stack.toList = rest ++ vs → vs.length = n →
      f.Performs s callers op fun h w => k h w vs { f with stack := rest.toArray }) :
    f.Performs s callers op fun h w => f.withValues w n (k h w) := by
  by_cases hsize : f.stack.size < n
  · refine ⟨_, .fails (.underflow (hn ▸ hsize)), fun h w => ?_⟩
    simp only [Frame.withValues, if_pos hsize]
    rfl
  · have hsplit := List.take_append_drop (f.stack.size - n) f.stack.toList
    have hlength : (f.stack.toList.drop (f.stack.size - n)).length = n := by
      rw [List.length_drop, Array.length_toList]
      omega
    obtain ⟨action, hacts, hperform⟩ := hk _ _ hsplit.symm hlength
    refine ⟨action, hacts, fun h w => ?_⟩
    rw [← hperform]
    exact withValues_of_append hsplit.symm hlength _

/-- The value on top of the stack is taken, or there is none. -/
theorem withValue (hop : op.taken = 1)
    {k : ∀ {σ : Type}, Host σ → World σ → Value → Frame → Frame × World σ × Effect}
    (hk : ∀ rest v, f.stack.toList = rest ++ [v] →
      f.Performs s callers op fun h w => k h w v { f with stack := rest.toArray }) :
    f.Performs s callers op fun h w => f.withValue w (k h w) := by
  cases hback : f.stack.back? with
  | none =>
    have hempty : f.stack.size < op.taken := by
      rw [Array.back?_eq_none_iff.mp hback, hop]
      exact Nat.zero_lt_one
    refine ⟨_, .fails (.underflow hempty), fun h w => ?_⟩
    simp only [Frame.withValue, hback]
    rfl
  | some v =>
    obtain ⟨rest, hrest⟩ := List.getLast?_eq_some_iff.mp (f.stack.getLast?_toList.trans hback)
    obtain ⟨action, hacts, hperform⟩ := hk rest v hrest
    refine ⟨action, hacts, fun h w => ?_⟩
    have hpop : f.stack.pop = rest.toArray := by
      apply Array.toList_inj.mp
      rw [Array.toList_pop, hrest, List.dropLast_concat]
    rw [← hperform]
    simp only [Frame.withValue, hback, hpop]

/-- The value of a local slot is looked at, or there is no such slot. -/
theorem withLocal {c : UInt16} (hslot : op.local? = some c) (hop : op.taken = 0)
    {k : ∀ {σ : Type}, Host σ → World σ → Value → Frame → Frame × World σ × Effect}
    (hk : ∀ v, f.locals[c.toNat]? = some v → f.Performs s callers op fun h w => k h w v f) :
    f.Performs s callers op fun h w => f.withLocal w c (k h w) := by
  cases hv : f.locals[c.toNat]? with
  | none =>
    have hfault : f.Faults s callers op f.stack.toList.toArray
        (.localOutside c.toNat f.routine.name f.pc) :=
      .slot hslot (Array.getElem?_eq_none_iff.mp hv) (List.append_nil _).symm hop.symm
    rw [Array.toArray_toList] at hfault
    refine ⟨_, .fails hfault, fun h w => ?_⟩
    simp only [Frame.withLocal, hv]
    rfl
  | some v =>
    obtain ⟨action, hacts, hperform⟩ := hk v hv
    refine ⟨action, hacts, fun h w => ?_⟩
    rw [← hperform]
    simp only [Frame.withLocal, hv]

/-- A jump arrives, or it leads outside. -/
theorem jumpBy {offset : Int32} {rest vs : List Value} (hstack : f.stack.toList = rest ++ vs)
    (hvs : vs.length = op.taken) (hjumps : f.Jumps op vs) (hoffset : op.jumpOffset? = some offset) :
    f.Performs s callers op fun _ w => { f with stack := rest.toArray }.jumpBy w offset := by
  by_cases hinside : 0 ≤ (f.pc : Int) + offset.toInt
      ∧ (f.pc : Int) + offset.toInt < f.routine.code.size
  · have htarget : (f.pc : Int) + offset.toInt = ((f.pc : Int) + offset.toInt).toNat := by omega
    refine ⟨_, .jumps hstack hjumps hoffset htarget (by omega), fun h w => ?_⟩
    simp [Frame.jumpBy, hinside, Action.perform]
  · refine ⟨_, .fails (.jump hoffset hinside hstack hvs), fun h w => ?_⟩
    simp [Frame.jumpBy, hinside, Action.perform]

theorem jumpBy_of_taken {offset : Int32} (hop : op.taken = 0) (hjumps : f.Jumps op [])
    (hoffset : op.jumpOffset? = some offset) :
    f.Performs s callers op fun _ w => f.jumpBy w offset := by
  have hjump : f.Performs s callers op fun _ w =>
      { f with stack := f.stack.toList.toArray }.jumpBy w offset :=
    .jumpBy (List.append_nil _).symm hop.symm hjumps hoffset
  rwa [Array.toArray_toList] at hjump

end Performs

/-- **An instruction performs one of its actions**, whatever the host is. -/
theorem exists_acts (f : Frame) (s : Setting) (callers : List Frame) (op : Instr) :
    ∃ action, f.Acts s callers op action ∧ ∀ {σ : Type} (h : Host σ) (w : World σ),
      f.exec h s callers w op = action.perform h w := by
  change f.Performs s callers op fun h w => f.exec h s callers w op
  have hall : f.stack.toList = f.stack.toList ++ [] := (List.append_nil _).symm
  cases op with
  | push v =>
    refine ⟨_, .computes hall (.push v), fun _ _ => ?_⟩
    simp [exec, push, advance, Action.perform]
  | drop =>
    simp only [exec]
    refine .withValue (by rfl) ?_
    intro rest v hstack
    exact ⟨_, .drops hstack, fun _ _ => rfl⟩
  | loadArg i =>
    cases hv : f.args[i.toNat]? with
    | none => exact ⟨_, .fails (.argument hv), fun _ _ => by simp [exec, hv, Action.perform]⟩
    | some v =>
      refine ⟨_, .computes hall (.argument hv), fun _ _ => ?_⟩
      simp [exec, hv, push, advance, Action.perform]
  | loadLocal c =>
    simp only [exec]
    refine .withLocal (by rfl) (by rfl) ?_
    intro v hv
    exact ⟨_, .computes hall (.slot hv), fun _ _ => by simp [push, advance, Action.perform]⟩
  | storeLocal c =>
    simp only [exec]
    refine .withValue (by rfl) ?_
    intro rest v hstack
    by_cases hslot : c.toNat < f.locals.size
    · exact ⟨_, .stores hstack hslot, fun _ _ => by simp [hslot, Action.perform]⟩
    · refine ⟨_, .fails (.slot rfl (Nat.le_of_not_lt hslot) hstack rfl), fun _ _ => ?_⟩
      simp [hslot, badLocal, Action.perform]
  | callSupport i argc =>
    cases hfn : f.routine.support[i.toNat]? with
    | none => exact ⟨_, .fails (.support hfn), fun _ _ => by simp [exec, hfn, Action.perform]⟩
    | some fn =>
      simp only [exec, hfn]
      refine .withValues (by rfl) ?_
      intro rest vs hstack hvs
      refine ⟨_, .computes hstack (.support hfn hvs), fun _ _ => ?_⟩
      simp [push, advance, Action.perform]
  | callHost i argc =>
    cases hname : f.routine.image.host[i.toNat]? with
    | none => exact ⟨_, .fails (.host hname), fun _ _ => by simp [exec, hname, Action.perform]⟩
    | some name =>
      simp only [exec, hname]
      refine .withValues (by rfl) ?_
      intro rest vs hstack hvs
      exact ⟨_, .calls hname hstack hvs, fun _ _ => rfl⟩
  | escape block opcode inputs =>
    simp only [exec]
    refine .withValues (by rfl) ?_
    intro rest vs hstack hvs
    exact ⟨_, .evaluates hstack hvs, fun _ _ => rfl⟩
  | getVariable name => exact ⟨_, .gets name, fun _ _ => rfl⟩
  | setVariable name =>
    simp only [exec]
    refine .withValue (by rfl) ?_
    intro rest v hstack
    exact ⟨_, .sets hstack, fun _ _ => rfl⟩
  | jump offset => exact .jumpBy_of_taken rfl (.always offset) rfl
  | jumpIfFalse offset =>
    simp only [exec, jumpIf]
    refine .withValue (by rfl) ?_
    intro rest v hstack
    cases v with
    | bool b =>
      cases b with
      | false => exact .jumpBy hstack rfl (.onFalse offset) rfl
      | true => exact ⟨_, .passes hstack rfl, fun _ _ => rfl⟩
    | number | text => exact ⟨_, .fails (.condition (Or.inl rfl) hstack (by simp)), fun _ _ => rfl⟩
  | jumpIfTrue offset =>
    simp only [exec, jumpIf]
    refine .withValue (by rfl) ?_
    intro rest v hstack
    cases v with
    | bool b =>
      cases b with
      | false => exact ⟨_, .passes hstack rfl, fun _ _ => rfl⟩
      | true => exact .jumpBy hstack rfl (.onTrue offset) rfl
    | number | text => exact ⟨_, .fails (.condition (Or.inr rfl) hstack (by simp)), fun _ _ => rfl⟩
  | countdown c exit =>
    simp only [exec, countdown]
    refine .withLocal (by rfl) (by rfl) ?_
    intro v hv
    cases v with
    | number n =>
      cases hleft : Number.half.le n with
      | true => exact ⟨_, .counts hv hleft, fun _ _ => by simp [hleft, Action.perform]⟩
      | false =>
        have hjump : f.Performs s callers (.countdown c exit) fun _ w => f.jumpBy w exit :=
          .jumpBy_of_taken rfl (.over exit hv hleft) rfl
        simpa [hleft] using hjump
    | text | bool => exact ⟨_, .fails (.counter hv (by simp)), fun _ _ => rfl⟩
  | yield kind => exact ⟨_, .yields kind, fun _ _ => rfl⟩
  | checkDeadline c k =>
    simp only [exec, checkDeadline]
    refine .withLocal (by rfl) (by rfl) ?_
    intro v hv
    cases hdue : (Number.ofNat k.toNat).le (v.toNumber.add 1) with
    | true => exact ⟨_, .asks hv hdue, fun _ _ => by simp [Action.perform]⟩
    | false => exact ⟨_, .early hv hdue, fun _ _ => by simp [Action.perform]⟩
  | startTimer =>
    simp only [exec]
    refine .withValue (by rfl) ?_
    intro rest v hstack
    exact ⟨_, .starts hstack, fun _ _ => rfl⟩
  | waitTimer =>
    cases ht : f.timer with
    | none => exact ⟨_, .idles ht, fun _ _ => by simp [exec, waitTimer, ht, Action.perform]⟩
    | some t =>
      refine ⟨_, .waits ht, fun _ _ => ?_⟩
      simp only [exec, waitTimer, ht, Action.perform]
      split <;> rfl
  | callProcedure i argc =>
    cases hkey : f.routine.image.procedures[i.toNat]? with
    | none => exact ⟨_, .fails (.procedure hkey), fun _ _ => by simp [exec, hkey, Action.perform]⟩
    | some key =>
      simp only [exec, hkey, callProcedure]
      cases hcallee : s.variants.find? key with
      | none => exact ⟨_, .fails (.variant hkey hcallee), fun _ _ => rfl⟩
      | some callee =>
        by_cases hdepth : s.limits.maxCallDepth ≤ callers.length + 1
        · exact ⟨_, .fails (.depth hdepth), fun _ _ => by simp [hdepth, Action.perform]⟩
        · simp only [hdepth, if_false]
          refine .withValues (by rfl) ?_
          intro rest vs hstack hvs
          exact ⟨_, .enters hkey hcallee (Nat.lt_of_not_le hdepth) hstack hvs, fun _ _ => rfl⟩
  | ret => exact ⟨_, .leaves, fun _ _ => rfl⟩

/-- **An instruction that fails has one of its faults**, and has it with every host. -/
theorem exists_faults_of_exec {σ : Type} {h : Host σ} {w : World σ} {fault : Fault}
    (hfail : (f.exec h s callers w op).2.2 = .fail fault) :
    ∃ stack, f.Faults s callers op stack fault ∧ ∀ {τ : Type} (k : Host τ) (u : World τ),
      f.exec k s callers u op = ({ f with stack := stack }, u, .fail fault) := by
  obtain ⟨action, hacts, hexec⟩ := f.exists_acts s callers op
  rw [hexec] at hfail
  cases hacts with
  | fails hfault =>
    cases hfail
    exact ⟨_, hfault, hexec⟩
  | asks | waits =>
    simp only [Action.perform] at hfail
    split at hfail <;> cases hfail
  | calls =>
    simp only [Action.perform, callHost] at hfail
    split at hfail <;> cases hfail
  | _ => cases hfail

end Frame

end BlockScript
