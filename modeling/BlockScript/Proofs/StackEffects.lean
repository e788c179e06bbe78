import BlockScript.Proofs.Changes
import BlockScript.Proofs.Responsiveness

/-!
# What instructions do to the stack

For each instruction a table says how many values it takes from the stack and how many it leaves
there (`Instr.effect`). Verification goes by this table, the machine does not know of it.

The two agree, with one exception: the machine counts the inputs of an escape in 16 bits. What an
instruction makes of the stack is said once for all instructions (`Frame.spendsTo_exec`), with the
number of values that the machine takes (`Instr.taken`). Main statement: when an instruction is
done, the stack is as the table says exactly if its escape has less than 65536 inputs, and then each
input is handed to the host with its value (`Execution.replaces_iff_escapeFits`).
-/

namespace BlockScript

/-! ## Stacks before and after -/

/-- The top `n` values of a stack are replaced by `m` others. -/
def Replaced (n m : Nat) (before after : List Value) : Prop :=
  ∃ kept taken left, before = kept ++ taken ∧ after = kept ++ left ∧ taken.length = n
    ∧ left.length = m

namespace Replaced

variable {n m : Nat} {before after : List Value}

theorem length (h : Replaced n m before after) :
    n ≤ before.length ∧ after.length = before.length - n + m := by
  obtain ⟨kept, taken, left, rfl, rfl, rfl, rfl⟩ := h
  simp only [List.length_append]
  omega

/-- One value more is left. -/
theorem push (h : Replaced n m before after) (v : Value) :
    Replaced n (m + 1) before (after ++ [v]) := by
  obtain ⟨kept, taken, left, rfl, rfl, rfl, rfl⟩ := h
  exact ⟨kept, taken, left ++ [v], rfl, by simp, rfl, by simp⟩

theorem drop (kept taken : List Value) : Replaced taken.length 0 (kept ++ taken) kept :=
  ⟨kept, taken, [], rfl, by simp, rfl, rfl⟩

end Replaced

namespace Instr

/-- The stack after the instruction is the one before it, with as many values taken from the top and
as many left there as the table says. -/
def Replaces (op : Instr) (before after : Array Value) : Prop :=
  Replaced op.effect.1 op.effect.2 before.toList after.toList

theorem taken_eq_iff (op : Instr) : op.taken = op.effect.1 ↔ op.EscapeFits := by
  cases op with
  | escape block opcode inputs =>
    simp only [taken, effect, EscapeFits]
    omega
  | _ => exact iff_of_true rfl trivial

/-- What the machine does is what the table says exactly if the inputs of an escape can be
counted. -/
theorem replaces_iff (op : Instr) {before after : Array Value}
    (h : Replaced op.taken op.effect.2 before.toList after.toList) :
    op.Replaces before after ↔ op.EscapeFits := by
  rw [← op.taken_eq_iff]
  constructor
  · intro htable
    have hlen := h.length
    have hlen' := htable.length
    omega
  · intro heq
    rwa [Replaces, ← heq]

/-- The positions that the instruction at position `pc` can lead to when it is done. It may have to
be executed again, which only a wait for the timer has. -/
inductive GoesTo (op : Instr) (pc : Nat) : Nat → Prop
  | next : GoesTo op pc (pc + 1)
  | jump {offset : Int32} {target : Nat} : op.jumpOffset? = some offset →
    (pc : Int) + offset.toInt = target → GoesTo op pc target
  | again : op = .waitTimer → GoesTo op pc pc

end Instr

/-! ## Instructions -/

namespace Frame

variable {σ : Type} {w : World σ} {f : Frame}

/-- What an instruction makes of the stack of its frame. If it waits for the result of a call, the
arguments have been taken and the result is still to be left. -/
inductive Spends (f : Frame) (op : Instr) : Frame → Effect → Prop
  | fails {f' : Frame} (fault : Fault) : Spends f op f' (.fail fault)
  | leaves : op = .ret → Spends f op f .leave
  | waits {f' : Frame} {i argc : UInt16} (id : PendingId) : op = .callHost i argc →
    f'.routine = f.routine → f'.pc = f.pc → f'.pending = some id →
    Replaced op.effect.1 0 f.stack.toList f'.stack.toList → Spends f op f' (.suspend .blocking)
  | done {f' : Frame} {effect : Effect} : effect ≠ .leave → f'.routine = f.routine →
    op.GoesTo f.pc f'.pc → f'.pending = f.pending →
    Replaced op.taken op.effect.2 f.stack.toList f'.stack.toList → Spends f op f' effect

/-- What an instruction leaves is as described. -/
def SpendsTo (f : Frame) (op : Instr) (r : Frame × World σ × Effect) : Prop := Spends f op r.1 r.2.2

section

variable {op : Instr} {f' : Frame} {w' : World σ}

/-- The instruction leaves no value. -/
theorem spendsTo_of_drop {rest vs : List Value} {effect : Effect} (hvs : vs.length = op.taken)
    (hleft : op.effect.2 = 0) (hbefore : f.stack.toList = rest ++ vs)
    (hafter : f'.stack = rest.toArray) (hroutine : f'.routine = f.routine)
    (hpc : op.GoesTo f.pc f'.pc) (hpending : f'.pending = f.pending)
    (heffect : effect ≠ .leave) : SpendsTo f op (f', w', effect) := by
  refine .done heffect hroutine hpc hpending ?_
  rw [hbefore, hafter, ← hvs, hleft]
  exact .drop rest vs

/-- The instruction leaves one value. -/
theorem spendsTo_of_push {rest vs : List Value} {v : Value} {effect : Effect}
    (hvs : vs.length = op.taken) (hleft : op.effect.2 = 1) (hbefore : f.stack.toList = rest ++ vs)
    (hafter : f'.stack = rest.toArray.push v) (hroutine : f'.routine = f.routine)
    (hpc : op.GoesTo f.pc f'.pc) (hpending : f'.pending = f.pending) (heffect : effect ≠ .leave) :
    SpendsTo f op (f', w', effect) := by
  refine .done heffect hroutine hpc hpending ?_
  rw [hbefore, hafter, Array.toList_push, ← hvs, hleft]
  exact (Replaced.drop rest vs).push v

/-- **What an instruction makes of the stack**: it takes as many values as the machine counts, and
leaves as many as the table says. -/
theorem spendsTo_exec (h : Host σ) (s : Setting) (callers : List Frame) (w : World σ) (f : Frame)
    (op : Instr) : SpendsTo f op (f.exec h s callers w op) := by
  -- For the instructions that take nothing.
  have hall : f.stack.toList = f.stack.toList ++ [] := (List.append_nil _).symm
  obtain ⟨action, hacts, hexec⟩ := f.exists_acts s callers op
  rw [hexec]
  cases hacts with
  | fails => exact .fails _
  | computes hbefore hcomputes =>
    exact spendsTo_of_push hcomputes.length_eq hcomputes.effect_eq hbefore rfl rfl .next rfl
      (by simp)
  | drops hbefore | stores hbefore | sets hbefore | starts hbefore =>
    exact spendsTo_of_drop rfl rfl hbefore rfl rfl .next rfl (by simp)
  | jumps hbefore hjumps hoffset htarget =>
    exact spendsTo_of_drop hjumps.length_eq hjumps.effect_eq hbefore rfl rfl (.jump hoffset htarget)
      rfl (by simp)
  | @passes _ _ _ b hbefore hop =>
    subst hop
    cases b <;> exact spendsTo_of_drop rfl rfl hbefore rfl rfl .next rfl (by simp)
  | counts | early | yields | idles =>
    exact spendsTo_of_drop rfl rfl hall rfl rfl .next rfl (by simp)
  | asks =>
    refine spendsTo_of_drop rfl rfl hall rfl rfl .next rfl ?_
    split <;> simp
  | waits =>
    simp only [Action.perform]
    split
    · exact spendsTo_of_drop rfl rfl hall rfl rfl (.again rfl) rfl (by simp)
    · exact spendsTo_of_drop rfl rfl hall rfl rfl .next rfl (by simp)
  | evaluates hbefore hvs => exact spendsTo_of_push hvs rfl hbefore rfl rfl .next rfl (by simp)
  | calls _ hbefore hvs =>
    simp only [Action.perform, callHost]
    split
    · exact spendsTo_of_push hvs rfl hbefore rfl rfl .next rfl (by simp)
    · refine .waits _ rfl rfl rfl rfl ?_
      rw [hbefore, Instr.effect, ← hvs]
      exact .drop _ _
  | gets => exact spendsTo_of_push rfl rfl hall rfl rfl .next rfl (by simp)
  | enters _ _ _ hbefore hvs => exact spendsTo_of_drop hvs rfl hbefore rfl rfl .next rfl (by simp)
  | leaves => exact .leaves rfl

end

end Frame

/-! ## Threads -/

namespace Execution

variable {σ : Type} {h : Host σ} {s : Setting} {w : World σ} {e e' start : Execution}
  {callers : List Frame} {f : Frame} {op : Instr}

/-- A tick that does not fail has come to no limit. -/
theorem limitFault?_of_tick (hok : ∀ fault, (e.tick h s w).2.2 ≠ .fail fault) :
    limitFault? s.limits { e with ticks := e.ticks + 1 } = none := by
  cases hlimit : limitFault? s.limits { e with ticks := e.ticks + 1 } with
  | none => rfl
  | some fault =>
    refine absurd ?_ (hok fault)
    unfold tick
    dsimp only
    rw [hlimit]

/-- The states that a thread gets into while its innermost frame waits for the result of a call, and
when the result has come. Each tick may have a host of its own. -/
inductive Polls (s : Setting) (start : Execution) : Execution → Prop
  | start : Polls s start start
  | tick {σ : Type} {e : Execution} (h : Host σ) (w : World σ) (before : Polls s start e)
    (waits : ∃ f, e.frames.head? = some f ∧ f.pending.isSome) : Polls s start (e.tick h s w).1

namespace Polls

/-- A frame that does not wait is left as it is. -/
theorem eq_start (hstart : ∀ f, start.frames.head? = some f → f.pending = none)
    (he : start.Polls s e) : e = start := by
  induction he with
  | start => rfl
  | tick h w _ hwaits ih =>
    subst ih
    obtain ⟨f, hf, hpending⟩ := hwaits
    rw [hstart f hf] at hpending
    cases hpending

/-- **A frame that waits keeps its stack**, until the result comes on top of it. -/
theorem exists_frame (hstart : start.frames = f :: callers) {id : PendingId}
    (hid : f.pending = some id) (he : start.Polls s e) :
    ∃ g, e.frames = g :: callers
      ∧ (g.pending = some id ∧ g.stack = f.stack
        ∨ g.pending = none ∧ ∃ v, g.stack = f.stack.push v) := by
  induction he with
  | start => exact ⟨f, hstart, Or.inl ⟨hid, rfl⟩⟩
  | @tick σ e h w _ hwaits ih =>
    obtain ⟨g, hg, hcases⟩ := ih
    obtain ⟨g', hg', hpending⟩ := hwaits
    rw [hg] at hg'
    cases hg'
    rcases hcases with ⟨hgid, hstack⟩ | ⟨hnone, -⟩
    · rcases tick_cases (h := h) (s := s) w e with
        ⟨e', fault, -, hframes, heq⟩ | ⟨e', -, hframes, heq⟩
      · rw [heq]
        exact ⟨g, hframes.trans hg, Or.inl ⟨hgid, hstack⟩⟩
      · rw [heq]
        dsimp only
        rw [hframes, hg]
        simp only [dispatch, hgid, pollFrame]
        split
        · next v _ =>
          refine ⟨_, rfl, Or.inr ⟨rfl, v, ?_⟩⟩
          rw [← hstack]
          rfl
        · exact ⟨g, rfl, Or.inl ⟨hgid, hstack⟩⟩
    · rw [hnone] at hpending
      cases hpending

end Polls

/-- **When an instruction is done, it has taken as many values as the machine counts.** -/
theorem exists_replaced (he : e.frames = f :: callers) (hnone : f.pending = none)
    (hop : f.routine.image.ops[f.pc]? = some op) (hret : op ≠ .ret)
    (hok : ∀ fault, (e.tick h s w).2.2 ≠ .fail fault) :
    ∃ inner, ∀ e', (e.tick h s w).1.Polls s e' → ∃ g, e'.frames = inner ++ g :: callers
      ∧ (g.pending.isSome → ∃ i argc, op = .callHost i argc)
      ∧ (g.pending = none → Replaced op.taken op.effect.2 f.stack.toList g.stack.toList) := by
  have htick := tick_of_limitFault? (h := h) w (limitFault?_of_tick hok)
  rw [he, dispatch_of_code hnone hop] at htick
  rw [htick] at hok ⊢
  have hspends := f.spendsTo_exec h s callers w op
  generalize f.exec h s callers w op = r at hok hspends ⊢
  obtain ⟨f', w', effect⟩ := r
  have hspends : f.Spends op f' effect := hspends
  cases hspends with
  | fails fault => exact absurd rfl (hok fault)
  | leaves heq => exact absurd heq hret
  | @waits _ i argc id heq _ _ hid hstack =>
    subst heq
    refine ⟨[], fun e' hpolls => ?_⟩
    obtain ⟨g, hg, hcases⟩ := hpolls.exists_frame rfl hid
    refine ⟨g, hg, fun _ => ⟨i, argc, rfl⟩, fun hready => ?_⟩
    rcases hcases with ⟨hwaits, -⟩ | ⟨-, v, hv⟩
    · rw [hready] at hwaits
      cases hwaits
    · rw [hv, Array.toList_push]
      exact hstack.push v
  | done heffect _ _ hpending hstack =>
    rw [hnone] at hpending
    -- The tick is the only one, since no frame waits after it.
    have hdone : ∀ {start : Execution} {inner : List Frame}, start.frames = inner ++ f' :: callers →
        (∀ g, (inner ++ f' :: callers).head? = some g → g.pending = none) →
        ∀ e', start.Polls s e' → ∃ g, e'.frames = inner ++ g :: callers
          ∧ (g.pending.isSome → ∃ i argc, op = .callHost i argc)
          ∧ (g.pending = none → Replaced op.taken op.effect.2 f.stack.toList g.stack.toList) := by
      intro start inner hframes hhead e' hpolls
      rw [hpolls.eq_start (hframes ▸ hhead)]
      refine ⟨f', hframes, fun hwaits => ?_, fun _ => hstack⟩
      rw [hpending] at hwaits
      cases hwaits
    cases effect with
    | next | nextUnlessStopped | suspend =>
      refine ⟨[], hdone rfl fun g hg => ?_⟩
      cases hg
      exact hpending
    | enter callee args =>
      refine ⟨[Frame.start callee args], hdone rfl fun g hg => ?_⟩
      cases hg
      rfl
    | leave => exact absurd rfl heffect
    | fail fault => exact absurd rfl (hok fault)

/-- The inputs that an escape hands to the host. -/
theorem exists_pairs {block : BlockId} {opcode : String} {inputs : List String}
    (he : e.frames = f :: callers) (hnone : f.pending = none)
    (hop : f.routine.image.ops[f.pc]? = some (.escape block opcode inputs))
    (hok : ∀ fault, (e.tick h s w).2.2 ≠ .fail fault) :
    ∃ kept vs, f.stack.toList = kept ++ vs ∧ vs.length = inputs.length % 65536
      ∧ e.callsIn h s w = [.called (.escape block opcode (inputs.zip vs))] := by
  have hlimit := limitFault?_of_tick hok
  obtain ⟨action, hacts, hexec⟩ := f.exists_acts s callers (.escape block opcode inputs)
  rw [tick_of_limitFault? w hlimit, he, dispatch_of_code hnone hop, hexec] at hok
  cases hacts with
  | fails => exact absurd rfl (hok _)
  | evaluates hstack hvs =>
    refine ⟨_, _, hstack, hvs, ?_⟩
    rw [callsIn, tick_of_limitFault? _ hlimit, he, dispatch_of_code hnone hop, hexec]
    rfl
  | computes _ hcomputes => cases hcomputes
  | jumps _ hjumps => cases hjumps
  | @passes _ _ _ b _ hpasses => cases b <;> cases hpasses

/--
**The table of stack effects is right for escapes with few inputs, and for all other instructions.**

Take any instruction but a return, in any frame, on any host, and let its tick not fail. The frame
is still there above its callers; if it waits, it does so for the result of a host call, which
further ticks look for. Once it does not wait, its stack is as the table says exactly if the escape
has less than 65536 inputs. An escape hands to the host values from the top of the stack in their
order, and exactly in this case all names of its inputs.
-/
theorem replaces_iff_escapeFits (he : e.frames = f :: callers) (hnone : f.pending = none)
    (hop : f.routine.image.ops[f.pc]? = some op) (hret : op ≠ .ret)
    (hok : ∀ fault, (e.tick h s w).2.2 ≠ .fail fault) :
    (∃ inner, ∀ e', (e.tick h s w).1.Polls s e' → ∃ g, e'.frames = inner ++ g :: callers
      ∧ (g.pending.isSome → ∃ i argc, op = .callHost i argc)
      ∧ (g.pending = none → (op.Replaces f.stack g.stack ↔ op.EscapeFits)))
    ∧ ∀ block opcode inputs, op = .escape block opcode inputs → ∃ kept pairs,
      e.callsIn h s w = [.called (.escape block opcode pairs)]
      ∧ f.stack.toList = kept ++ pairs.map Prod.snd
      ∧ (pairs.map Prod.fst = inputs ↔ inputs.length < 65536) := by
  constructor
  · obtain ⟨inner, hinner⟩ := exists_replaced he hnone hop hret hok
    refine ⟨inner, fun e' hpolls => ?_⟩
    obtain ⟨g, hg, hwaits, hdone⟩ := hinner e' hpolls
    exact ⟨g, hg, hwaits, fun hready => op.replaces_iff (hdone hready)⟩
  · rintro block opcode inputs rfl
    obtain ⟨kept, vs, hstack, hvs, hcalls⟩ := exists_pairs he hnone hop hok
    have hle : vs.length ≤ inputs.length := hvs ▸ Nat.mod_le _ _
    refine ⟨kept, inputs.zip vs, hcalls, ?_, ?_⟩
    · rw [List.map_snd_zip hle, hstack]
    · constructor
      · intro hnames
        have hlen := congrArg List.length hnames
        rw [List.length_map, List.length_zip, hvs] at hlen
        omega
      · intro hfits
        refine List.map_fst_zip ?_
        rw [hvs, Nat.mod_eq_of_lt hfits]

end Execution

/-- An escape with two inputs. -/
def relay : Linked where
  image :=
    { name := "relay",
      ops := [.push (.text "a"), .push (.text "b"), .escape 0 "relay" ["A", "B"], .drop, .ret] }
  support := []
  code := #[.push (.text "a"), .push (.text "b"), .escape 0 "relay" ["A", "B"], .drop, .ret]
  code_eq := rfl
  verified := by decide
  imported := rfl
  called := by decide

theorem Execution.replaces_iff_escapeFits_relay :
    ∃ (e : Execution) (f g : Frame), e.frames = [f] ∧ f.stack = #[.text "a", .text "b"]
      ∧ (e.tick ScriptedHost.host {} ⟨{}, false⟩).1.frames = [g]
      ∧ Instr.Replaces (.escape 0 "relay" ["A", "B"]) f.stack g.stack
      ∧ ∃ kept pairs,
        e.callsIn ScriptedHost.host {} ⟨{}, false⟩ = [.called (.escape 0 "relay" pairs)]
        ∧ [.text "a", .text "b"] = kept ++ pairs.map Prod.snd
        ∧ pairs.map Prod.fst = ["A", "B"] := by
  let f : Frame := { routine := relay, pc := 2, stack := #[.text "a", .text "b"], locals := #[] }
  have hop : f.routine.image.ops[f.pc]? = some (.escape 0 "relay" ["A", "B"]) := rfl
  have hfits : ["A", "B"].length < 65536 := by decide
  obtain ⟨⟨inner, hinner⟩, hcalls⟩ := replaces_iff_escapeFits (e := ⟨[f], 0, false⟩) (s := {})
    (h := ScriptedHost.host) (w := ⟨{}, false⟩) rfl rfl hop (by simp)
    (fun _ hfault => by cases hfault)
  obtain ⟨g, hg, -, hdone⟩ := hinner _ .start
  obtain ⟨kept, pairs, hpairs, hvalues, hnames⟩ := hcalls _ _ _ rfl
  have hinner : inner = [] := by
    have hlen := congrArg List.length hg
    rw [List.length_append] at hlen
    exact List.eq_nil_of_length_eq_zero (Nat.succ.inj hlen).symm
  subst hinner
  have hready : g.pending = none := by
    have hhead := congrArg (fun frames => frames.head?.bind Frame.pending) hg
    exact hhead.symm
  exact ⟨_, f, g, rfl, rfl, hg, (hdone hready).mpr hfits, kept, pairs, hpairs, hvalues,
    hnames.mpr hfits⟩

/-! ## An escape with too many inputs -/

/-- A routine that puts `n + 1` values on the stack, of which `n` are the inputs of an escape. -/
def surgeImage (n : Nat) : Image where
  name := "surge"
  ops := List.replicate (n + 1) (.push .empty)
    ++ [.escape 0 "surge" (List.replicate n "A"), .drop, .drop, .ret]

theorem Instr.underflow?_push (v : Value) (ops : List Instr) : ∀ k height pc,
    Instr.underflow? id height pc (List.replicate k (.push v) ++ ops)
      = Instr.underflow? id (height + k) (pc + k) ops
  | 0, _, _ => rfl
  | k + 1, height, pc => by
    rw [List.replicate_succ, List.cons_append, Instr.underflow?, Instr.effect,
      if_neg (Nat.not_lt_zero _),
      underflow?_push v ops k, id, Nat.sub_zero, Nat.add_right_comm height, Nat.add_right_comm pc]
    rfl

theorem flaw?_surgeImage (n : Nat) : (surgeImage n).flaw? = none := by
  have hlast : (surgeImage n).ops.getLast? = some .ret := by simp [surgeImage]
  have hops : ∀ op ∈ (surgeImage n).ops, ∀ pc, ((surgeImage n).jumpFlaw? op pc).or
      ((surgeImage n).operandFlaw? op pc) = none := by
    intro op hop pc
    rcases List.mem_append.mp hop with hpush | hrest
    · rw [List.eq_of_mem_replicate hpush]
      rfl
    · simp only [List.mem_cons, List.not_mem_nil, or_false] at hrest
      rcases hrest with rfl | rfl | rfl | rfl <;> rfl
  have hstack : Instr.underflow? id 0 0 (surgeImage n).ops = none := by
    rw [surgeImage, Instr.underflow?_push]
    simp [Instr.underflow?, Instr.effect]
  rw [Image.flaw?, if_neg (not_not_intro hlast), hstack, Option.or_none, List.findSome?_eq_none_iff]
  intro x hx
  exact hops x.1 (List.fst_mem_of_mem_zipIdx hx) x.2

/-- The routine, linked. -/
def surge (n : Nat) : Linked where
  image := surgeImage n
  support := []
  code := (surgeImage n).ops.toArray
  code_eq := rfl
  verified := flaw?_surgeImage n
  imported := rfl
  called := by
    intro op hop
    rcases List.mem_append.mp hop with hpush | hrest
    · rw [List.eq_of_mem_replicate hpush]
      rfl
    · simp only [List.mem_cons, List.not_mem_nil, or_false] at hrest
      rcases hrest with rfl | rfl | rfl | rfl <;> rfl

namespace Execution

/-- The routine after its first `k` instructions. -/
def surged (n k : Nat) : Execution where
  frames := [{ Frame.start (surge n) [] with pc := k, stack := Array.replicate k .empty }]
  ticks := k

theorem tick_surged {σ : Type} (h : Host σ) (w : World σ) {n k : Nat} (hk : k ≤ n) {s : Setting}
    (hsteps : s.limits.maxSteps = none) (hstack : n ≤ s.limits.maxStackSize) :
    (surged n k).tick h s w = (surged n (k + 1), w, .next) := by
  have hlimit : limitFault? s.limits { surged n k with ticks := (surged n k).ticks + 1 }
      = none := by
    have hhigh : ¬ s.limits.maxStackSize < k := by omega
    simp [limitFault?, stackFault?, hsteps, surged, hhigh]
  have hop : (surgeImage n).ops[k]? = some (.push .empty) := by
    rw [surgeImage, List.getElem?_append_left (by simp; omega), List.getElem?_replicate,
      if_pos (by omega)]
  rw [tick_of_limitFault? w hlimit, surged, dispatch_of_code rfl hop]
  simp [Frame.exec, applyEffect, Frame.push, Frame.advance, surged, Array.replicate_succ]

theorem visits_surged {n : Nat} {s : Setting} (hsteps : s.limits.maxSteps = none)
    (hstack : n ≤ s.limits.maxStackSize) : ∀ {k : Nat}, k ≤ n + 1 →
      (Execution.start (surge n)).Visits s (surged n k)
  | 0, _ => .start
  | k + 1, hk => by
    have hvisits :=
      Visits.tick ScriptedHost.host ⟨{}, false⟩ (visits_surged hsteps hstack (k := k) (by omega))
    rwa [tick_surged _ _ (by omega) hsteps hstack] at hvisits

theorem getElem?_surgeImage (n : Nat) :
    (surgeImage n).ops[n + 1]? = some (.escape 0 "surge" (List.replicate n "A")) := by
  rw [surgeImage, List.getElem?_append_right (by simp)]
  simp

theorem escape_surged {σ : Type} (h : Host σ) (w : World σ) {n : Nat} (hn : n % 65536 = 0)
    {s : Setting} (hsteps : s.limits.maxSteps = none) (hstack : n < s.limits.maxStackSize) :
    ∃ g, (surged n (n + 1)).tick h s w
        = (⟨[g], n + 2, false⟩, w.after (h.evaluate w.host 0 "surge" []),
          flowAfterCall (w.after (h.evaluate w.host 0 "surge" [])))
      ∧ g.pending = none ∧ g.stack.size = n + 2 := by
  have hlimit : limitFault? s.limits { surged n (n + 1) with ticks := (surged n (n + 1)).ticks + 1 }
      = none := by
    have hhigh : ¬ s.limits.maxStackSize < n + 1 := by omega
    simp [limitFault?, stackFault?, hsteps, surged, hhigh]
  have hnone : ([] : List Value).length = (List.replicate n "A").length % 65536 := by
    rw [List.length_replicate, hn]
    rfl
  rw [tick_of_limitFault? w hlimit, surged, dispatch_of_code rfl (getElem?_surgeImage n),
    Frame.exec, Frame.withValues_of_append (List.append_nil _).symm hnone, List.zip_nil_right]
  exact ⟨_, rfl, rfl, by simp [Frame.push, Frame.advance]⟩

/-- **An escape with 65536 inputs takes none of them.** A thread has put one value more on its
stack, and comes to the escape. By the table two values are left after it, but all are still there
under the answer of the host, which has been given no input. -/
theorem not_replaces_surge :
    ∃ (s : Setting) (e : Execution) (f g : Frame), (Execution.start (surge 65536)).Visits s e
      ∧ e.frames = [f] ∧ f.pending = none
      ∧ f.routine.image.ops[f.pc]? = some (.escape 0 "surge" (List.replicate 65536 "A"))
      ∧ (e.tick ScriptedHost.host s ⟨{}, false⟩).2.2 = .next
      ∧ (e.tick ScriptedHost.host s ⟨{}, false⟩).1.frames = [g] ∧ g.pending = none
      ∧ ¬ Instr.Replaces (.escape 0 "surge" (List.replicate 65536 "A")) f.stack g.stack
      ∧ f.stack.size = 65537 ∧ g.stack.size = 65538
      ∧ e.callsIn ScriptedHost.host s ⟨{}, false⟩ = [.called (.escape 0 "surge" [])] := by
  let s : Setting := { limits := { maxStackSize := 100000 } }
  generalize hn : 65536 = n
  have hmod : n % 65536 = 0 := by omega
  have hhigh : n < s.limits.maxStackSize := by
    rw [← hn]
    decide
  obtain ⟨g, htick, hready, hsize⟩ :=
    escape_surged (s := s) ScriptedHost.host ⟨{}, false⟩ hmod rfl hhigh
  obtain ⟨_, hrecorded, -⟩ :=
    escape_surged (s := s) ScriptedHost.host.recorded ⟨({}, []), false⟩ hmod rfl hhigh
  refine ⟨s, surged n (n + 1), _, g, visits_surged rfl (Nat.le_of_lt hhigh) (Nat.le_refl _),
    rfl, rfl, getElem?_surgeImage n, ?_, ?_, hready, fun htable => ?_, ?_, ?_, ?_⟩
  · rw [htick]
    rfl
  · rw [htick]
  · have hlen := htable.length.2
    simp only [Array.length_toList, Array.size_replicate, hsize, Instr.effect,
      List.length_replicate] at hlen
    omega
  · rw [Array.size_replicate]
    omega
  · omega
  · rw [callsIn, hrecorded]
    rfl

end Execution

end BlockScript
