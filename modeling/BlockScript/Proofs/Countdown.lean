import BlockScript.Proofs.Changes
import BlockScript.Proofs.Intervals
import BlockScript.Proofs.Rounding
import BlockScript.Proofs.Timelines

/-!
# Counting down the rounds of a loop

The count of a loop is rounded and kept in a local slot of the loop's own. Before each round it goes
down by one, and when less than a half is left the loop is over. `RepeatAt` describes the code of
such a loop, which all counted loops of a compiled routine have (`Stmt.PlacedAt.repeatAt`).

`Frame.Counts` says how many rounds a frame has begun and ended, and that the slot has what is left
of the count. Each instruction of the loop keeps it: `Frame.Counts.exec`.
-/

namespace BlockScript

/-! ## The code of such a loop -/

/-- The instruction goes on to the next one, unless it fails. -/
def Instr.isStep : Instr → Bool
  | .push _ | .storeLocal _ | .callSupport _ _ | .yield _ | .checkDeadline _ _ => true
  | _ => false

theorem Instr.jumpOffset?_of_isStep {op : Instr} (h : op.isStep = true) :
    op.jumpOffset? = none := by
  cases op with
  | push | storeLocal | callSupport | «yield» | checkDeadline => rfl
  | _ => cases h

/-- The code of a counted loop. It begins at `a`, and at `ready` the count has been computed. It is
rounded and stored, and with the test at `test` a round begins or the loop is left for `b`. The body
comes next, up to `close`, and from there the round ends and goes back to the test. -/
structure RepeatAt (image : Image) (a ready test close b : Nat) (c : UInt16) : Prop where
  ready_ge : a ≤ ready
  test_ge : ready + 2 ≤ test
  close_gt : test < close
  end_eq : b = close + 1 ∨ b = close + 2
  roundAt : ∃ i argc, image.ops[ready]? = some (.callSupport i argc) ∧ argc.toNat = 1
    ∧ ∀ l : Linked, l.image = image → l.support[i.toNat]? = some .repeatCount
  storeAt : image.ops[ready + 1]? = some (.storeLocal c)
  /-- Only the count of the rounds up to the next look at the deadline stands between. -/
  startAt : test = ready + 2 ∨ test = ready + 4 ∧ ∃ v c', image.ops[ready + 2]? = some (.push v)
    ∧ image.ops[ready + 3]? = some (.storeLocal c')
  testAt : ∃ exit, image.ops[test]? = some (.countdown c exit) ∧ (test : Int) + exit.toInt = b
  backAt : ∃ offset, image.ops[b - 1]? = some (.jump offset)
    ∧ ((b - 1 : Nat) : Int) + offset.toInt = test
  /-- The body leads to itself and to the end of the round. -/
  jump : ∀ {pc target : Nat} {op offset}, test < pc → pc < close → image.ops[pc]? = some op →
    op.jumpOffset? = some offset → (pc : Int) + offset.toInt = target →
    test < target ∧ target ≤ close
  /-- After the count was stored, only the test changes it. -/
  slot : ∀ {pc op c'}, ready + 2 ≤ pc → pc < b → pc ≠ test → image.ops[pc]? = some op →
    op.slot? = some c' → c'.toNat ≠ c.toNat
  roundEnd : b = close + 2 → image.ops[close]? = some (.yield .soft)
    ∨ ∃ c' k, image.ops[close]? = some (.checkDeadline c' k)
  /-- Up to the test the loop does not give way. -/
  quiet : ∀ {pc op}, a ≤ pc → pc ≤ test → image.ops[pc]? = some op → op.pauses = false

namespace Stmt

variable {s : CodeSettings} {i : Imports} {a base : Nat} {count : Expr} {body : List Stmt}
  {warpSafe : Bool} {interval : UInt32}

theorem mem_deadlineStart {slot : Nat} {op : Instr} (hop : op ∈ deadlineStart s warpSafe slot) :
    op = .push (.number .zero)
      ∨ op = .storeLocal (localSlot slot) ∧ s.checksDeadline warpSafe = true := by
  unfold deadlineStart at hop
  split at hop
  · next hchecks =>
    rcases List.mem_pair.mp hop with rfl | rfl
    · exact Or.inl rfl
    · exact Or.inr ⟨rfl, hchecks⟩
  · cases hop

theorem mem_roundEnd {slot : Nat} {op : Instr} (hop : op ∈ roundEnd s warpSafe slot interval) :
    op = .yield .soft
      ∨ op = .checkDeadline (localSlot slot) (max interval 1)
        ∧ s.checksDeadline warpSafe = true := by
  unfold roundEnd at hop
  split at hop
  · next hwarp =>
    split at hop
    · next htimer =>
      refine Or.inr ⟨List.mem_singleton.mp hop, ?_⟩
      rw [CodeSettings.checksDeadline, hwarp, htimer]
      rfl
    · cases hop
  · exact Or.inl (List.mem_singleton.mp hop)

section

variable {code : List Instr}
  (h : (Stmt.loop (.times count) body warpSafe interval).PlacedAt s i code a base)
  {test close b : Nat} (htest : test + 1 + allSize s body = close)
  (hclose : close + s.roundEndSize warpSafe + 1 = b)
  (hb : b = a + size s (.loop (.times count) body warpSafe interval))
include h htest hclose hb

/-- The pieces of a counted loop, by the position of its test. -/
theorem PlacedAt.timesAt :
    test = a + count.size + 2 + 2 * s.deadlineSlots warpSafe
      ∧ LoopAt code a s i base (.times count) body warpSafe interval test
        (allSize s body + s.roundEndSize warpSafe) := by
  have hsize : size s (.loop (.times count) body warpSafe interval)
      = count.size + 2 + 2 * s.deadlineSlots warpSafe + 1
        + (allSize s body + s.roundEndSize warpSafe) + 1 := rfl
  obtain rfl : test = a + count.size + 2 + 2 * s.deadlineSlots warpSafe := by omega
  exact ⟨rfl, loopAt h.codeAt⟩

/-- The end of a round of a counted loop. -/
theorem PlacedAt.roundEndAt : CodeAt code close (roundEnd s warpSafe (base + 1) interval) := by
  rw [← htest]
  exact (h.timesAt htest hclose hb).2.roundEndAt

/-- What stands in the code of a counted loop after its count was stored. -/
theorem PlacedAt.times_cases {pc : Nat} {op : Instr} (hlo : a + count.size + 2 ≤ pc) (hhi : pc < b)
    (hop : code[pc]? = some op) :
    (pc < test ∧ op ∈ deadlineStart s warpSafe (base + 1))
      ∨ (pc = test
        ∧ op = .countdown (localSlot base) (forward (allSize s body + s.roundEndSize warpSafe + 2)))
      ∨ (test < pc ∧ pc < close
        ∧ (∀ offset (target : Nat), op.jumpOffset? = some offset →
          (pc : Int) + offset.toInt = target → test < target ∧ target ≤ close)
        ∧ ∀ c, op.slot? = some c → base < c.toNat)
      ∨ (close ≤ pc ∧ pc + 1 < b ∧ op ∈ roundEnd s warpSafe (base + 1) interval)
      ∨ (pc + 1 = b ∧ op = .jump (backward (1 + (allSize s body + s.roundEndSize warpSafe)))) := by
  obtain ⟨hat, hloop⟩ := h.timesAt htest hclose hb
  rcases Nat.lt_trichotomy pc test with hlt | rfl | hgt
  · have hstartAt : CodeAt code (a + count.size + 2) (deadlineStart s warpSafe (base + 1)) :=
      hloop.deadlineAt
    exact Or.inl ⟨hlt, hstartAt.mem_of_getElem? hlo (by rw [length_deadlineStart]; omega) hop⟩
  · rw [hloop.testAt.head] at hop
    exact Or.inr (Or.inl ⟨rfl, (Option.some.inj hop).symm⟩)
  refine Or.inr (Or.inr ?_)
  rcases Nat.lt_or_ge pc close with hlt | hge
  · have hbody : ∀ d ∈ allDemands s (base + 1 + s.deadlineSlots warpSafe) body, i.Meets d := by
      have hmet := h.met
      simp only [demands, List.forall_mem_append] at hmet
      exact hmet.1.2
    have hbodyAt :
        CodeAt code (test + 1) (allCode s i (base + 1 + s.deadlineSlots warpSafe) body) :=
      hloop.bodyAt
    obtain ⟨hjump, hslot⟩ := keeps_of_allCode hbodyAt hbody hgt (htest ▸ hlt) hop
    refine Or.inl ⟨hgt, hlt, fun offset target hoffset htarget => ?_, fun c hc => ?_⟩
    · exact htest ▸ hjump offset target hoffset htarget
    · have hown := hslot c hc
      omega
  refine Or.inr ?_
  rcases Nat.lt_or_ge (pc + 1) b with hlt | hlast
  · have hendAt := h.roundEndAt htest hclose hb
    exact Or.inl ⟨hge, hlt, hendAt.mem_of_getElem? hge (by rw [length_roundEnd]; omega) hop⟩
  · obtain rfl : pc = test + 1 + (allSize s body + s.roundEndSize warpSafe) := by omega
    exact Or.inr ⟨by omega, Option.some.inj (hop.symm.trans hloop.backAt)⟩

/-- After the count was stored only the test changes it: its slot is the first one of the loop, and
those for the deadline and the body follow. -/
theorem PlacedAt.slot_ne_of_times {pc : Nat} {op : Instr} {c : UInt16}
    (hlo : a + count.size + 2 ≤ pc) (hhi : pc < b) (hne : pc ≠ test) (hop : code[pc]? = some op)
    (hc : op.slot? = some c) : c.toNat ≠ (localSlot base).toNat := by
  have hmet := h.met
  simp only [demands, List.forall_mem_append] at hmet
  obtain ⟨⟨⟨⟨hcount, hdeadline⟩, -⟩, -⟩, -⟩ := hmet
  have hbase : base < 65535 := hcount (.slot base) (by simp [LoopKind.countDemands])
  have hnext : s.checksDeadline warpSafe = true → (localSlot (base + 1)).toNat ≠ base := by
    intro hchecks
    rw [if_pos hchecks] at hdeadline
    have hslot : (localSlot (base + 1)).toNat = base + 1 :=
      toNat_localSlot (hdeadline _ (List.mem_singleton.mpr rfl))
    omega
  rw [toNat_localSlot hbase]
  rcases h.times_cases htest hclose hb hlo hhi hop with
    ⟨-, hstart⟩ | hat | ⟨-, -, -, hown⟩ | ⟨-, -, hend⟩ | ⟨-, rfl⟩
  · rcases mem_deadlineStart hstart with rfl | ⟨rfl, hchecks⟩
    · cases hc
    · cases hc
      exact hnext hchecks
  · exact absurd hat.1 hne
  · exact Nat.ne_of_gt (hown c hc)
  · rcases mem_roundEnd hend with rfl | ⟨rfl, hchecks⟩
    · cases hc
    · cases hc
      exact hnext hchecks
  · cases hc

/-- Up to its test a counted loop does not give way. -/
theorem PlacedAt.quiet_of_times {pc : Nat} {op : Instr} (hlo : a ≤ pc) (hhi : pc ≤ test)
    (hop : code[pc]? = some op) : op.pauses = false := by
  rcases Nat.lt_or_ge pc (a + count.size + 2) with hlt | hge
  · have hcountAt := (h.timesAt htest hclose hb).2.countAt
    have hmem := hcountAt.mem_of_getElem? hlo (by rwa [LoopKind.length_countCode]) hop
    exact (LoopKind.quiet_countCode (.times count) hmem).2
  rcases h.times_cases htest hclose hb hge (by omega) hop with ⟨-, hstart⟩ | ⟨-, rfl⟩ |
    hbody | hafter
  · rcases mem_deadlineStart hstart with rfl | ⟨rfl, -⟩
    · rfl
    · rfl
  · rfl
  · omega
  · omega

end

/-- **The code of a counted loop** is of this form. -/
theorem PlacedAt.repeatAt {image : Image}
    (h : (Stmt.loop (.times count) body warpSafe interval).PlacedAt s i image.ops a base)
    (hsupport : ∀ l : Linked, l.image = image → l.support = i.support) {test close b : Nat}
    (htest : test + 1 + allSize s body = close) (hclose : close + s.roundEndSize warpSafe + 1 = b)
    (hb : b = a + size s (.loop (.times count) body warpSafe interval)) :
    RepeatAt image a (a + count.size) test close b (localSlot base) := by
  obtain ⟨hat, hloop⟩ := h.timesAt htest hclose hb
  have hmet := h.met
  simp only [demands, List.forall_mem_append, List.forall_mem_cons] at hmet
  obtain ⟨⟨⟨⟨hcount, -⟩, -⟩, -⟩, hback, hexit⟩ := hmet
  have hround : i.Meets (.support .repeatCount) := hcount _ (by simp [LoopKind.countDemands])
  have hforward : allSize s body + s.roundEndSize warpSafe + 2 < 2147483648 :=
    hexit _ (List.mem_singleton.mpr rfl)
  have hcountAt : CodeAt image.ops (a + count.size)
      [i.callSupport .repeatCount 1, .storeLocal (localSlot base)] :=
    Expr.length_code i count ▸ hloop.countAt.right
  have hlast : s.roundEndSize warpSafe ≤ 1 := by
    unfold CodeSettings.roundEndSize
    split
    · split <;> omega
    · omega
  have hbackAt : image.ops[b - 1]?
      = some (.jump (backward (1 + (allSize s body + s.roundEndSize warpSafe)))) := by
    have hpos : b - 1 = test + 1 + (allSize s body + s.roundEndSize warpSafe) := by omega
    rw [hpos]
    exact hloop.backAt
  refine
    { ready_ge := Nat.le_add_right _ _
      test_ge := by omega
      close_gt := by omega
      end_eq := by omega
      roundAt := ⟨_, _, hcountAt.head, rfl, fun l hl => by rw [hsupport l hl]; exact hround⟩
      storeAt := hcountAt.tail.head
      startAt := ?start
      testAt := ⟨_, hloop.testAt.head, ?exit⟩
      backAt := ⟨_, hbackAt, ?back⟩
      jump := ?jump
      slot := fun hlo hhi hne hop hc => h.slot_ne_of_times htest hclose hb hlo hhi hne hop hc
      roundEnd := ?close
      quiet := fun hlo hhi hop => h.quiet_of_times htest hclose hb hlo hhi hop }
  case exit =>
    rw [toInt_forward hforward]
    omega
  case back =>
    have hbackward := toInt_backward hback
    rw [LoopKind.testSize] at hbackward
    rw [hbackward]
    omega
  case start =>
    have hstartAt : CodeAt image.ops (a + count.size + 2) (deadlineStart s warpSafe (base + 1)) :=
      hloop.deadlineAt
    by_cases hchecks : s.checksDeadline warpSafe = true
    · rw [CodeSettings.deadlineSlots, if_pos hchecks] at hat
      rw [deadlineStart, if_pos hchecks] at hstartAt
      exact Or.inr ⟨hat, _, _, hstartAt.head, hstartAt.tail.head⟩
    · rw [CodeSettings.deadlineSlots, if_neg hchecks] at hat
      exact Or.inl hat
  case jump =>
    intro pc target op offset hlo hhi hop hoffset htarget
    rcases h.times_cases htest hclose hb (by omega) (by omega) hop with
      hbefore | hat | ⟨-, -, hstays, -⟩ | hafter
    · omega
    · omega
    · exact hstays offset target hoffset htarget
    · omega
  case close =>
    intro hb'
    have hin : close < image.ops.length :=
      Nat.lt_of_le_of_lt (by omega) (List.getElem?_eq_some_iff.mp hbackAt).1
    obtain ⟨op, hop⟩ : ∃ op, image.ops[close]? = some op := ⟨_, List.getElem?_eq_getElem hin⟩
    rcases h.times_cases htest hclose hb (by omega) (by omega) hop with
      hbefore | hat | hbody | ⟨-, -, hend⟩ | hback
    · omega
    · omega
    · omega
    · rcases mem_roundEnd hend with rfl | ⟨rfl, -⟩
      · exact Or.inl hop
      · exact Or.inr ⟨_, _, hop⟩
    · omega

end Stmt

namespace RepeatAt

variable {image : Image} {a ready test close b : Nat} {c : UInt16} {pc : Nat} {op : Instr}

theorem exists_op (h : RepeatAt image a ready test close b c) (hhi : pc < b) :
    ∃ op, image.ops[pc]? = some op := by
  obtain ⟨offset, hback, -⟩ := h.backAt
  have hinside := (List.getElem?_eq_some_iff.mp hback).1
  exact ⟨_, List.getElem?_eq_getElem (by omega)⟩

/-- Up to the test there are steps only. -/
theorem isStep_of_lt (h : RepeatAt image a ready test close b c) (hop : image.ops[pc]? = some op)
    (hlo : ready ≤ pc) (hhi : pc < test) : op.isStep = true := by
  obtain ⟨i, argc, hround, -⟩ := h.roundAt
  rcases Nat.lt_or_ge pc (ready + 2) with hlt | hge
  · rcases Nat.eq_or_lt_of_le hlo with rfl | hgt
    · rw [hround] at hop
      cases hop
      rfl
    · obtain rfl : pc = ready + 1 := by omega
      rw [h.storeAt] at hop
      cases hop
      rfl
  · obtain ⟨htest, v, c', hpush, hstore⟩ := h.startAt.resolve_left (by omega)
    rcases Nat.eq_or_lt_of_le hge with rfl | hgt
    · rw [hpush] at hop
      cases hop
      rfl
    · obtain rfl : pc = ready + 3 := by omega
      rw [hstore] at hop
      cases hop
      rfl

/-- From its count on the loop has steps, the test, the body and the jump back. -/
theorem op_cases (h : RepeatAt image a ready test close b c) (hop : image.ops[pc]? = some op)
    (hlo : ready ≤ pc) (hhi : pc < b) :
    (op.isStep = true ∧ (pc < test ∨ pc = close ∧ b = close + 2))
      ∨ (pc = test ∧ ∃ exit, op = .countdown c exit ∧ (pc : Int) + exit.toInt = b)
      ∨ (test < pc ∧ pc < close)
      ∨ (pc + 1 = b ∧ ∃ offset, op = .jump offset ∧ (pc : Int) + offset.toInt = test) := by
  have hend := h.end_eq
  rcases Nat.lt_trichotomy pc test with hlt | rfl | hgt
  · exact Or.inl ⟨h.isStep_of_lt hop hlo hlt, Or.inl hlt⟩
  · obtain ⟨exit, htestAt, hexit⟩ := h.testAt
    rw [htestAt] at hop
    exact Or.inr (Or.inl ⟨rfl, exit, (Option.some.inj hop).symm, hexit⟩)
  rcases Nat.lt_or_ge pc close with hlt | hge
  · exact Or.inr (Or.inr (Or.inl ⟨hgt, hlt⟩))
  by_cases hback : pc + 1 = b
  · obtain ⟨offset, hbackAt, htarget⟩ := h.backAt
    obtain rfl : pc = b - 1 := by omega
    rw [hbackAt] at hop
    exact Or.inr (Or.inr (Or.inr ⟨hback, offset, (Option.some.inj hop).symm, htarget⟩))
  · obtain rfl : pc = close := by omega
    have hb : b = pc + 2 := by omega
    refine Or.inl ⟨?_, Or.inr ⟨rfl, hb⟩⟩
    rcases h.roundEnd hb with hyield | ⟨c', k, hcheck⟩
    · rw [hyield] at hop
      cases hop
      rfl
    · rw [hcheck] at hop
      cases hop
      rfl

/-- Calls and returns stand in the body only. -/
theorem inside_of_ne (h : RepeatAt image a ready test close b c) (hop : image.ops[pc]? = some op)
    (hlo : ready ≤ pc) (hhi : pc < b) (hstep : op.isStep = false) (hjump : op.jumpOffset? = none) :
    test < pc ∧ pc < close := by
  rcases h.op_cases hop hlo hhi with ⟨hstep', -⟩ | ⟨-, exit, rfl, -⟩ | hbody | ⟨-, offset, rfl, -⟩
  · rw [hstep] at hstep'
    cases hstep'
  · cases hjump
  · exact hbody
  · cases hjump

/-- From its count on a loop does not go back to it. -/
theorem target_gt {offset : Int32} {target : Nat} (h : RepeatAt image a ready test close b c)
    (hop : image.ops[pc]? = some op) (hlo : ready < pc) (hhi : pc < b)
    (hoffset : op.jumpOffset? = some offset) (htarget : (pc : Int) + offset.toInt = target) :
    ready < target := by
  have htest := h.test_ge
  rcases h.op_cases hop (Nat.le_of_lt hlo) hhi with
    ⟨hstep, -⟩ | ⟨-, exit, rfl, hexit⟩ | hbody | ⟨-, back, rfl, hback⟩
  · rw [Instr.jumpOffset?_of_isStep hstep] at hoffset
    cases hoffset
  · cases hoffset
    omega
  · have hstays := h.jump hbody.1 hbody.2 hop hoffset htarget
    omega
  · cases hoffset
    omega

end RepeatAt

/-! ## Counting down -/

namespace Frame

variable {σ : Type} {h : Host σ} {s : Setting} {callers : List Frame} {w : World σ} {f f' : Frame}
  {op : Instr} {effect : Effect} {c : UInt16} {a ready test close b : Nat} {v : Value} {N : Int}
  {started ended : Nat}

theorem exists_append_of_back? (h : f.stack.back? = some v) :
    ∃ base, f.stack.toList = base ++ [v] := by
  rw [← Array.getLast?_toList] at h
  exact List.getLast?_eq_some_iff.mp h

theorem exec_storeLocal (hf : f.Confined) {pc : Nat}
    (hop : f.routine.image.ops[pc]? = some (.storeLocal c)) (hback : f.stack.back? = some v) :
    f.exec h s callers w (.storeLocal c)
      = (({ f with stack := f.stack.pop }.setLocal c v).advance, w, .next) := by
  rw [exec, withValue, hback]
  dsimp only
  rw [if_pos (hf.slot_lt hop rfl)]

/-- A look at the deadline goes on to the next instruction, whatever the deadline says. -/
theorem exec_checkDeadline_goesOn (h : Host σ) (s : Setting) (callers : List Frame) (w : World σ)
    (hf : f.Confined) {pc : Nat} {k : UInt32}
    (hop : f.routine.image.ops[pc]? = some (.checkDeadline c k)) :
    (f.exec h s callers w (.checkDeadline c k)).1.pc = f.pc + 1
      ∧ ((f.exec h s callers w (.checkDeadline c k)).2.2 = .next
        ∨ ∃ kind, (f.exec h s callers w (.checkDeadline c k)).2.2 = .suspend kind) := by
  have hslot := hf.slot_lt hop rfl
  rw [exec, checkDeadline, withLocal, Array.getElem?_eq_getElem hslot]
  dsimp only
  by_cases hdue : (Number.ofNat k.toNat).le (f.locals[c.toNat].toNumber.add 1) = true
  · rw [if_pos hdue]
    refine ⟨rfl, ?_⟩
    dsimp only
    by_cases hlate : (h.deadlineElapsed w.host).answer = true
    · rw [if_pos hlate]
      exact Or.inr ⟨.soft, rfl⟩
    · rw [if_neg hlate]
      exact Or.inl rfl
  · rw [if_neg hdue]
    exact ⟨rfl, Or.inl rfl⟩

/-- The frame has begun `started` rounds of a counted loop, and `ended` of them are over. The slot
has what is left of the count. -/
structure Counts (ready test close : Nat) (c : UInt16) (v : Value) (N : Int) (started ended : Nat)
    (f : Frame) : Prop where
  given : f.pc = ready → f.stack.back? = some v
  rounded : f.pc = ready + 1 → f.stack.back? = some (.number v.toNumber.round)
  pushed : f.pc = ready + 3 → f.pc < test → ∃ u, f.stack.back? = some u
  left : ready + 2 ≤ f.pc → ∃ x, f.locals[c.toNat]? = some (.number x) ∧ x.IsWhole (N - started)
  unbegun : f.pc < test → started = 0
  within : started ≤ N.toNat
  inside : started = ended + if test < f.pc ∧ f.pc ≤ close then 1 else 0

namespace Counts

/-- The rounds have not begun. -/
theorem of_lt (hpc : f.pc < test) (hgiven : f.pc = ready → f.stack.back? = some v)
    (hrounded : f.pc = ready + 1 → f.stack.back? = some (.number v.toNumber.round))
    (hpushed : f.pc = ready + 3 → ∃ u, f.stack.back? = some u)
    (hleft : ready + 2 ≤ f.pc → ∃ x, f.locals[c.toNat]? = some (.number x) ∧ x.IsWhole N) :
    f.Counts ready test close c v N 0 0 where
  given := hgiven
  rounded := hrounded
  pushed hpc _ := hpushed hpc
  left hge := by
    rw [Int.natCast_zero, Int.sub_zero]
    exact hleft hge
  unbegun _ := rfl
  within := Nat.zero_le _
  inside := by rw [if_neg (by omega)]

/-- The rounds have begun. -/
theorem of_ge (hready : ready + 2 ≤ test) (hpc : test ≤ f.pc)
    (hleft : ∃ x, f.locals[c.toNat]? = some (.number x) ∧ x.IsWhole (N - started))
    (hwithin : started ≤ N.toNat)
    (hinside : started = ended + if test < f.pc ∧ f.pc ≤ close then 1 else 0) :
    f.Counts ready test close c v N started ended where
  given h := by omega
  rounded h := by omega
  pushed _ h := by omega
  left _ := hleft
  unbegun h := by omega
  within := hwithin
  inside := hinside

theorem ended_of_lt (hf : f.Counts ready test close c v N started ended) (hpc : f.pc < test) :
    started = 0 ∧ ended = 0 := by
  have hstarted := hf.unbegun hpc
  have hinside := hf.inside
  omega

section

variable (hat : RepeatAt f.routine.image a ready test close b c)
  (hf : f.Counts ready test close c v N started ended)
include hat hf

/-- **The loop's own instructions do not fail.** Each leads to the next one, and the last one to the
test. -/
theorem exec_own (h : Host σ) (s : Setting) (callers : List Frame) (w : World σ)
    (hconfined : f.Confined) (hop : f.routine.image.ops[f.pc]? = some op) (hlo : ready ≤ f.pc)
    (hhi : f.pc < b) (hown : f.pc < test ∨ close ≤ f.pc) :
    (f.exec h s callers w op).1.pc = (if f.pc + 1 = b then test else f.pc + 1)
      ∧ ((f.exec h s callers w op).2.2 = .next
        ∨ ∃ kind, (f.exec h s callers w op).2.2 = .suspend kind) := by
  have htest := hat.test_ge
  have hclose := hat.close_gt
  have hend := hat.end_eq
  by_cases hlast : f.pc + 1 = b
  · obtain ⟨offset, hback, htarget⟩ := hat.backAt
    obtain ⟨target, htarget', hlt⟩ := Linked.exists_target hback rfl
    obtain rfl : target = test := by omega
    have hpc : f.pc = b - 1 := by omega
    rw [hpc, hback] at hop
    cases hop
    rw [if_pos hlast, exec, f.jumpBy_eq (hpc ▸ htarget) hlt]
    exact ⟨rfl, Or.inl rfl⟩
  rw [if_neg hlast]
  rcases hown with hbefore | hafter
  · rcases Nat.lt_or_ge f.pc (ready + 2) with hlt | hge
    · rcases Nat.eq_or_lt_of_le hlo with hready | hgt
      · obtain ⟨i, argc, hround, hargc, hsupport⟩ := hat.roundAt
        rw [← hready, hround] at hop
        cases hop
        obtain ⟨base, hstack⟩ := exists_append_of_back? (hf.given hready.symm)
        rw [exec_callSupport (hsupport _ rfl) hstack hargc]
        exact ⟨rfl, Or.inl rfl⟩
      · have hpc : f.pc = ready + 1 := by omega
        rw [hpc, hat.storeAt] at hop
        cases hop
        rw [exec_storeLocal hconfined hat.storeAt (hf.rounded hpc)]
        exact ⟨rfl, Or.inl rfl⟩
    · obtain ⟨htest, u, c', hpush, hstore⟩ := hat.startAt.resolve_left (by omega)
      rcases Nat.eq_or_lt_of_le hge with hpc | hgt
      · rw [← hpc, hpush] at hop
        cases hop
        exact ⟨rfl, Or.inl rfl⟩
      · have hpc : f.pc = ready + 3 := by omega
        obtain ⟨u', hback⟩ := hf.pushed hpc hbefore
        rw [hpc, hstore] at hop
        cases hop
        rw [exec_storeLocal hconfined hstore hback]
        exact ⟨rfl, Or.inl rfl⟩
  · have hpc : f.pc = close := by omega
    rw [hpc] at hop
    rcases hat.roundEnd (by omega) with hyield | ⟨c', k, hcheck⟩
    · rw [hyield] at hop
      cases hop
      exact ⟨rfl, Or.inr ⟨.soft, rfl⟩⟩
    · rw [hcheck] at hop
      cases hop
      exact exec_checkDeadline_goesOn h s callers w hconfined hcheck

/-- The count is rounded. -/
theorem exec_round (h : Host σ) (s : Setting) (callers : List Frame) (w : World σ)
    (hpc : f.pc = ready) (hop : f.routine.image.ops[f.pc]? = some op) :
    (f.exec h s callers w op).1.Counts ready test close c v N started ended := by
  have htest := hat.test_ge
  obtain ⟨rfl, rfl⟩ := hf.ended_of_lt (by omega)
  obtain ⟨i, argc, hround, hargc, hsupport⟩ := hat.roundAt
  rw [hpc, hround] at hop
  cases hop
  obtain ⟨base, hstack⟩ := exists_append_of_back? (hf.given hpc)
  rw [exec_callSupport (hsupport _ rfl) hstack hargc]
  refine of_lt ?_ ?_ ?_ ?_ ?_
  · dsimp only
    omega
  · dsimp only
    omega
  · intro _
    simp [Support.apply, Support.apply₂]
  · dsimp only
    omega
  · dsimp only
    omega

/-- The count is stored. -/
theorem exec_store (h : Host σ) (s : Setting) (callers : List Frame) (w : World σ)
    (hN : v.toNumber.round.IsWhole N) (hconfined : f.Confined) (hpc : f.pc = ready + 1)
    (hop : f.routine.image.ops[f.pc]? = some op) :
    (f.exec h s callers w op).1.Counts ready test close c v N started ended := by
  have htest := hat.test_ge
  obtain ⟨rfl, rfl⟩ := hf.ended_of_lt (by omega)
  rw [hpc, hat.storeAt] at hop
  cases hop
  rw [exec_storeLocal hconfined hat.storeAt (hf.rounded hpc)]
  dsimp only
  have hpc' : ({ f with stack := f.stack.pop }.setLocal c (.number v.toNumber.round)).advance.pc
      = ready + 2 :=
    congrArg (· + 1) hpc
  have hleft :
      ({ f with stack := f.stack.pop }.setLocal c (.number v.toNumber.round)).locals[c.toNat]?
        = some (.number v.toNumber.round) :=
    getElem?_setLocal _ (hconfined.slot_lt hat.storeAt rfl) _
  rcases Nat.eq_or_lt_of_le htest with heq | hlt
  · refine of_ge htest (Nat.le_of_eq (heq ▸ hpc'.symm)) ⟨_, hleft, ?_⟩ (Nat.zero_le _) ?_
    · rwa [Int.natCast_zero, Int.sub_zero]
    · rw [if_neg (by omega)]
  · exact of_lt (by omega) (by omega) (by omega) (by omega) fun _ => ⟨_, hleft, hN⟩

/-- After it was stored all but the test leaves the count alone. -/
theorem left_of_executes (hexec : f.Executes h s callers w op f' effect)
    (hop : f.routine.image.ops[f.pc]? = some op) (hlo : ready + 2 ≤ f.pc) (hhi : f.pc < b)
    (hne : f.pc ≠ test) :
    ∃ x, f'.locals[c.toNat]? = some (.number x) ∧ x.IsWhole (N - started) := by
  rw [hexec.getElem?_locals fun c' hc' => hat.slot hlo hhi hne hop hc']
  exact hf.left hlo

/-- Before the first test. -/
theorem exec_start (h : Host σ) (s : Setting) (callers : List Frame) (w : World σ)
    (hconfined : f.Confined) (hop : f.routine.image.ops[f.pc]? = some op) (hlo : ready + 2 ≤ f.pc)
    (hhi : f.pc < test) :
    (f.exec h s callers w op).1.Counts ready test close c v N started ended := by
  have hclose := hat.close_gt
  have hend := hat.end_eq
  have hleft :=
    hf.left_of_executes hat (executes_exec h s callers w f op) hop hlo (by omega) (by omega)
  have hpc' := (hf.exec_own hat h s callers w hconfined hop (by omega) (by omega) (Or.inl hhi)).1
  rw [if_neg (by omega)] at hpc'
  obtain ⟨rfl, rfl⟩ := hf.ended_of_lt hhi
  obtain ⟨htest, u, c', hpush, -⟩ := hat.startAt.resolve_left (by omega)
  rcases Nat.eq_or_lt_of_le hlo with hpc | hgt
  · rw [Int.natCast_zero, Int.sub_zero] at hleft
    rw [← hpc, hpush] at hop
    cases hop
    exact of_lt (by omega) (by omega) (by omega) (fun _ => ⟨u, Array.back?_push⟩) fun _ => hleft
  · exact of_ge hat.test_ge (by omega) hleft hf.within (by rw [if_neg (by omega)])

/-- **With the test a round begins, or the loop is over.** -/
theorem exec_test (h : Host σ) (s : Setting) (callers : List Frame) (w : World σ)
    (hbound : N ≤ (Nat.pow 2 53 : Nat)) (hconfined : f.Confined) (hpc : f.pc = test)
    (hop : f.routine.image.ops[f.pc]? = some op) :
    (started = N.toNat ∧ ended = N.toNat ∧ (f.exec h s callers w op).1.pc = b
        ∧ (f.exec h s callers w op).2.2 = .next)
      ∨ (f.exec h s callers w op).1.pc = test + 1 ∧ (f.exec h s callers w op).2.2 = .next
        ∧ (f.exec h s callers w op).1.Counts ready test close c v N (started + 1) ended := by
  have htest := hat.test_ge
  have hclose := hat.close_gt
  have hinside := hf.inside
  have hwithin := hf.within
  rw [if_neg (by omega)] at hinside
  obtain ⟨exit, htestAt, hexit⟩ := hat.testAt
  obtain ⟨target, htarget, hlt⟩ := Linked.exists_target htestAt rfl
  obtain rfl : target = b := by omega
  rw [hpc, htestAt] at hop
  cases hop
  obtain ⟨x, hx, hwhole⟩ := hf.left (by omega)
  rw [exec, countdown, withLocal, hx]
  dsimp only
  by_cases hhalf : Number.half.le x = true
  · have hpos := hwhole.half_le_iff.mp hhalf
    rw [if_pos hhalf]
    dsimp only
    have hpc' : (f.setLocal c (.number (x.sub 1))).advance.pc = test + 1 := congrArg (· + 1) hpc
    have hslot := f.getElem?_setLocal (hconfined.slot_lt htestAt rfl) (.number (x.sub 1))
    refine Or.inr ⟨hpc', rfl, of_ge htest (by omega) ⟨_, hslot, ?_⟩ (by omega) ?_⟩
    · have hsub := hwhole.sub_one hpos (by omega)
      rw [Int.natCast_add, Int.natCast_one, ← Int.sub_sub]
      exact hsub
    · rw [if_pos (by omega), hinside]
  · have hpos := mt hwhole.half_le_iff.mpr hhalf
    rw [if_neg hhalf, f.jumpBy_eq (hpc ▸ hexit) hlt]
    exact Or.inl ⟨by omega, by omega, rfl, rfl⟩

/-- In the body. -/
theorem exec_body (hexec : f.Executes h s callers w op f' effect)
    (hop : f.routine.image.ops[f.pc]? = some op) (hlo : test < f.pc) (hhi : f.pc < close) :
    test < f'.pc ∧ f'.pc ≤ close ∧ f'.Counts ready test close c v N started ended := by
  have htest := hat.test_ge
  have hend := hat.end_eq
  have hpc : test < f'.pc ∧ f'.pc ≤ close := by
    rcases hexec.pc_cases with hstays | hnext | ⟨offset, hoffset, htarget⟩
    · omega
    · omega
    · exact hat.jump hlo hhi hop hoffset htarget
  have hinside := hf.inside
  rw [if_pos ⟨hlo, Nat.le_of_lt hhi⟩] at hinside
  refine ⟨hpc.1, hpc.2, of_ge htest (Nat.le_of_lt hpc.1) ?_ hf.within ?_⟩
  · exact hf.left_of_executes hat hexec hop (by omega) (by omega) (by omega)
  · rw [if_pos hpc]
    exact hinside

/-- **The round is over**, and the loop gives way or looks at the deadline, or it goes back at
once. -/
theorem exec_close (h : Host σ) (s : Setting) (callers : List Frame) (w : World σ)
    (hconfined : f.Confined) (hop : f.routine.image.ops[f.pc]? = some op) (hlo : close ≤ f.pc)
    (hhi : f.pc < b) :
    (f.exec h s callers w op).1.Counts ready test close c v N started
      (ended + if f.pc = close then 1 else 0) := by
  have htest := hat.test_ge
  have hclose := hat.close_gt
  have hend := hat.end_eq
  have hpc' := (hf.exec_own hat h s callers w hconfined hop (by omega) hhi (Or.inr hlo)).1
  have hleft :=
    hf.left_of_executes hat (executes_exec h s callers w f op) hop (by omega) hhi (by omega)
  have hinside := hf.inside
  have hplace : test ≤ (f.exec h s callers w op).1.pc
      ∧ ¬ (test < (f.exec h s callers w op).1.pc ∧ (f.exec h s callers w op).1.pc ≤ close) := by
    rw [hpc']
    split <;> omega
  refine of_ge htest hplace.1 hleft hf.within ?_
  rw [if_neg hplace.2]
  by_cases hpc : f.pc = close
  · rw [if_pos (by omega)] at hinside
    rw [if_pos hpc]
    exact hinside
  · rw [if_neg (by omega)] at hinside
    rw [if_neg hpc]
    exact hinside

/-- **What an instruction of the loop does to the count.** -/
theorem exec (h : Host σ) (s : Setting) (callers : List Frame) (w : World σ)
    (hN : v.toNumber.round.IsWhole N) (hbound : N ≤ (Nat.pow 2 53 : Nat)) (hconfined : f.Confined)
    (hop : f.routine.image.ops[f.pc]? = some op) (hlo : ready ≤ f.pc) (hhi : f.pc < b) :
    (f.pc = test ∧ started = N.toNat ∧ ended = N.toNat ∧ (f.exec h s callers w op).1.pc = b
        ∧ (f.exec h s callers w op).2.2 = .next)
      ∨ ready ≤ (f.exec h s callers w op).1.pc ∧ (f.exec h s callers w op).1.pc < b
        ∧ (f.exec h s callers w op).1.Counts ready test close c v N
          (started + if f.pc = test then 1 else 0) (ended + if f.pc = close then 1 else 0) := by
  have htest := hat.test_ge
  have hclose := hat.close_gt
  have hend := hat.end_eq
  -- The positions of the loop, one after the other.
  by_cases hpc : f.pc = test
  · rw [if_pos hpc, if_neg (by omega)]
    refine (hf.exec_test hat h s callers w hbound hconfined hpc hop).imp
      (fun hover => ⟨hpc, hover⟩) ?_
    rintro ⟨hpc', -, hcounts⟩
    exact ⟨by omega, by omega, hcounts⟩
  refine Or.inr ?_
  rw [if_neg hpc]
  rcases Nat.lt_or_ge f.pc test with hbefore | hge
  · have hpc' := (hf.exec_own hat h s callers w hconfined hop hlo hhi (Or.inl hbefore)).1
    rw [if_neg (by omega)] at hpc'
    refine ⟨by omega, by omega, ?_⟩
    rw [if_neg (by omega)]
    rcases Nat.lt_or_ge f.pc (ready + 2) with hlt | hstored
    · rcases Nat.eq_or_lt_of_le hlo with hready | hgt
      · exact hf.exec_round hat h s callers w hready.symm hop
      · exact hf.exec_store hat h s callers w hN hconfined (by omega) hop
    · exact hf.exec_start hat h s callers w hconfined hop hstored hbefore
  rcases Nat.lt_or_ge f.pc close with hbody | hafter
  · rw [if_neg (by omega)]
    obtain ⟨hge', hle', hcounts⟩ :=
      hf.exec_body hat (executes_exec h s callers w f op) hop (by omega) hbody
    exact ⟨by omega, by omega, hcounts⟩
  · have hpc' := (hf.exec_own hat h s callers w hconfined hop hlo hhi (Or.inr hafter)).1
    refine ⟨?_, ?_, hf.exec_close hat h s callers w hconfined hop hafter hhi⟩
    · rw [hpc']
      split <;> omega
    · rw [hpc']
      split <;> omega

/-- The result of a call that the body has waited for. -/
theorem resume (hconfined : f.Confined) {id : PendingId} (hid : f.pending = some id)
    (hlo : ready ≤ f.pc) (hhi : f.pc < b) (u : Value) :
    ({ f with pending := none }.push u).advance.pc < b
      ∧ ({ f with pending := none }.push u).advance.Counts ready test close c v N
        started ended := by
  have htest := hat.test_ge
  have hend := hat.end_eq
  obtain ⟨i, argc, hop⟩ := hconfined.waiting (by rw [hid]; rfl)
  obtain ⟨hgt, hlt⟩ := hat.inside_of_ne hop hlo hhi rfl rfl
  have hpc : ({ f with pending := none }.push u).advance.pc = f.pc + 1 := rfl
  have hinside := hf.inside
  rw [if_pos ⟨hgt, Nat.le_of_lt hlt⟩] at hinside
  refine ⟨by omega, of_ge htest (by omega) (hf.left (by omega)) hf.within ?_⟩
  rw [if_pos (by omega)]
  exact hinside

end

end Counts

end Frame

end BlockScript
