import BlockScript.Proofs.Activations
import BlockScript.Proofs.Heights

/-!
# The deadline is looked at in every so many rounds

A loop in warp counts its rounds in a local slot, and when the count has come to the interval of the
loop it starts again from zero and asks the host about the deadline. The count is set to zero
whenever the loop is entered. Neither the body of the loop nor the frames that it calls change the
slot, and it outlasts every time at which the thread gives way. So the count says how many rounds
there have been in this activation since the last question (`Frame.Tallies`).

Main statement: in an activation of the loop the host is asked at the end of each round whose number
is a multiple of the interval and of no other round, and the loop itself gives way exactly where the
host answers that the time is used up (`Routine.looks_of_compile`).
-/

namespace BlockScript

/-! ## The code of such a loop -/

/-- The code of a loop that looks at the deadline. It begins at `a`. At `reset` the count is set to
zero, the test before each round comes next, and `first` is the first position of the body. The
round ends at `check` with a look at the deadline. -/
structure WatchAt (code : List Instr) (a reset first check : Nat) (c : UInt16) (k : UInt32) :
    Prop where
  reset_ge : a ≤ reset
  first_ge : reset + 2 ≤ first
  check_ge : first ≤ check
  zeroAt : code[reset]? = some (.push (.number .zero))
  storeAt : code[reset + 1]? = some (.storeLocal c)
  checkAt : code[check]? = some (.checkDeadline c k)
  backAt : ∃ offset, code[check + 1]? = some (.jump offset)
    ∧ ((check + 1 : Nat) : Int) + offset.toInt = (reset + 2 : Nat)
  /-- Before the count nothing jumps. -/
  count : ∀ {pc op}, a ≤ pc → pc < reset → code[pc]? = some op → op.jumpOffset? = none
  /-- The test and the body lead to each other, to the look at the deadline and to the end of the
  loop. -/
  jump : ∀ {pc target : Nat} {op offset}, reset + 2 ≤ pc → pc < check → code[pc]? = some op →
    op.jumpOffset? = some offset → (pc : Int) + offset.toInt = target →
    reset + 2 ≤ target ∧ target ≠ check + 1
  /-- The test and the body do not change the count. -/
  slot : ∀ {pc op c'}, reset + 2 ≤ pc → pc < check → code[pc]? = some op → op.slot? = some c' →
    c'.toNat ≠ c.toNat
  /-- Outside of its body the loop gives way nowhere else. -/
  quiet : ∀ {pc op}, a ≤ pc → pc < first → code[pc]? = some op → op.pauses = false

section

variable {code : List Instr} {s : CodeSettings} {i : Imports} {a base : Nat}

theorem LoopKind.quiet_countCode (kind : LoopKind) {op : Instr} (hop : op ∈ kind.countCode i base) :
    op.jumpOffset? = none ∧ op.pauses = false := by
  cases kind with
  | times count =>
    rcases List.mem_append.mp hop with hop | hop
    · have hcomputes := count.computes_code op hop
      exact ⟨Instr.jumpOffset?_of_onward (Instr.onward_of_computes count.computes_code op hop),
        Instr.pauses_eq_false_of_computes hcomputes⟩
    · rcases List.mem_pair.mp hop with rfl | rfl
      · exact ⟨rfl, rfl⟩
      · exact ⟨rfl, rfl⟩
  | forever | «until» c | «while» c | waitUntil c => cases hop

theorem LoopKind.quiet_testCode (kind : LoopKind) {rest : Nat} {op : Instr}
    (hop : op ∈ kind.testCode i base rest) : op.pauses = false := by
  cases kind with
  | times count => rw [List.mem_singleton.mp hop]; rfl
  | forever => cases hop
  | «until» c | «while» c | waitUntil c =>
    rcases List.mem_append.mp hop with hop | hop
    · exact Instr.pauses_eq_false_of_computes (c.computes_conditionCode op hop)
    · rw [List.mem_singleton.mp hop]; rfl

/-- A condition jumps at its end only. -/
theorem Expr.jump_of_conditionCode (c : Expr) {last op : Instr} {pc : Nat} {offset : Int32}
    (hat : CodeAt code a (c.conditionCode i ++ [last])) (hlo : a ≤ pc)
    (hhi : pc < a + c.conditionSize + 1) (hop : code[pc]? = some op)
    (hoffset : op.jumpOffset? = some offset) :
    pc = a + c.conditionSize ∧ op = last := by
  have hlast := Expr.length_conditionCode i c ▸ hat.right
  rcases Nat.lt_or_ge pc (a + c.conditionSize) with hin | hout
  · have hmem := hat.left.mem_of_getElem? hlo (by rwa [Expr.length_conditionCode]) hop
    rw [Instr.jumpOffset?_of_onward (Instr.onward_of_computes c.computes_conditionCode op hmem)]
      at hoffset
    cases hoffset
  · obtain rfl : pc = a + c.conditionSize := by omega
    rw [hlast.head] at hop
    exact ⟨rfl, (Option.some.inj hop).symm⟩

/-- The test of a loop jumps to the end of the loop only. -/
theorem LoopKind.jump_of_testCode (kind : LoopKind) {round pc target : Nat} {op : Instr}
    {offset : Int32} (hat : CodeAt code a (kind.testCode i base (round + 1)))
    (hexit : ∀ d ∈ kind.exitDemands round, i.Meets d) (hlo : a ≤ pc) (hhi : pc < a + kind.testSize)
    (hop : code[pc]? = some op) (hoffset : op.jumpOffset? = some offset)
    (htarget : (pc : Int) + offset.toInt = target) : target = a + kind.testSize + round + 1 := by
  cases kind with
  | times count =>
    have hn : round + 2 < 2147483648 := hexit _ (List.mem_singleton.mpr rfl)
    rw [testSize] at hhi ⊢
    obtain rfl : pc = a := by omega
    rw [hat.head] at hop
    cases hop
    cases hoffset
    rw [toInt_forward hn] at htarget
    omega
  | forever => exact absurd hhi (Nat.not_lt.mpr hlo)
  | «until» c | «while» c | waitUntil c =>
    have hn : round + 2 < 2147483648 := hexit _ (List.mem_singleton.mpr rfl)
    rw [testSize] at hhi ⊢
    obtain ⟨rfl, rfl⟩ := c.jump_of_conditionCode hat hlo (by omega) hop hoffset
    cases hoffset
    rw [toInt_forward hn] at htarget
    omega

/-- The test of a loop counts in the slot of its rounds at most. -/
theorem LoopKind.slot_of_testCode (kind : LoopKind) {rest : Nat} {op : Instr} {c : UInt16}
    (hop : op ∈ kind.testCode i base rest) (hmet : ∀ d ∈ kind.countDemands base, i.Meets d)
    (hc : op.slot? = some c) : c.toNat < base + kind.slots := by
  cases kind with
  | times count =>
    have hslot : base < 65535 := hmet (.slot base) (by simp [countDemands])
    rw [List.mem_singleton.mp hop] at hc
    cases hc
    rw [toNat_localSlot hslot]
    exact Nat.lt_succ_self base
  | forever => cases hop
  | «until» e | «while» e | waitUntil e =>
    rcases List.mem_append.mp hop with hop | hop
    · have hplain := Instr.isPlain_of_computes (e.computes_conditionCode op hop)
      simp [Instr.isPlain, hc] at hplain
    · rw [List.mem_singleton.mp hop] at hc
      cases hc

namespace Stmt

/-- Statements jump inside their code or to its end, and count in slots of their own, wherever the
code stands. -/
theorem keeps_of_allCode {ts : List Stmt} (hat : CodeAt code a (allCode s i base ts))
    (hmet : ∀ d ∈ allDemands s base ts, i.Meets d) {pc : Nat} {op : Instr} (hlo : a ≤ pc)
    (hhi : pc < a + allSize s ts) (hop : code[pc]? = some op) :
    (∀ offset (target : Nat), op.jumpOffset? = some offset → (pc : Int) + offset.toInt = target →
      a ≤ target ∧ target ≤ a + allSize s ts)
    ∧ ∀ c, op.slot? = some c → base ≤ c.toNat := by
  have hlength := length_allCode s i base ts
  obtain ⟨n, rfl⟩ := Nat.exists_eq_add_of_le hlo
  rw [hat.getElem?_add (by omega)] at hop
  -- The code by itself begins on an empty stack.
  have halone : CodeAt (allCode s i base ts) 0 (allCode s i base ts) := ⟨[], [], by simp, rfl⟩
  have henclosed :=
    enclosed_allCode (x := ⟨0, allSize s ts, base, base + allSlots s ts⟩) ts halone hmet
      (heightAt?_zero _) ⟨Nat.le_refl _, by simp, Nat.le_refl _, Nat.le_refl _⟩
  have hkeeps := henclosed n op (Nat.zero_le n) (by omega) hop
  refine ⟨fun offset target hoffset htarget => ?_, fun c hc => (hkeeps.slot c hc).1⟩
  obtain ⟨-, target', htarget', -, hle, -⟩ := hkeeps.jump offset hoffset
  have hle : target' ≤ allSize s ts := hle
  omega

/-- **The code of a loop that looks at the deadline** is of this form. -/
theorem PlacedAt.watchAt {kind : LoopKind} {body : List Stmt} {warpSafe : Bool} {interval : UInt32}
    (h : (Stmt.loop kind body warpSafe interval).PlacedAt s i code a base)
    (hchecks : s.checksDeadline warpSafe = true) :
    WatchAt code a (a + kind.countSize) (a + kind.countSize + 2 + kind.testSize)
      (a + kind.countSize + 2 + kind.testSize + allSize s body) (localSlot (base + kind.slots))
      (max interval 1) := by
  obtain ⟨hwarp, htimer⟩ := (Bool.and_eq_true _ _).mp hchecks
  have hloop := loopAt h.codeAt
  have hmet := h.met
  simp only [demands, List.forall_mem_append, List.forall_mem_cons] at hmet
  obtain ⟨⟨⟨⟨hcount, hdeadline⟩, -⟩, hbody⟩, hback, hexit⟩ := hmet
  have hslots : s.deadlineSlots warpSafe = 1 := by rw [CodeSettings.deadlineSlots, if_pos hchecks]
  have hends : s.roundEndSize warpSafe = 1 := by
    rw [CodeSettings.roundEndSize, if_pos hwarp, if_pos htimer]
  rw [if_pos hchecks] at hdeadline
  have hslot : base + kind.slots < 65535 := hdeadline _ (List.mem_singleton.mpr rfl)
  rw [hends] at hback hexit
  rw [hslots, hends] at hloop
  have hstart := hloop.deadlineAt
  rw [deadlineStart, if_pos hchecks] at hstart
  have hend := hloop.roundEndAt
  rw [roundEnd, if_pos hwarp, if_pos htimer] at hend
  have hbodyAt := hloop.bodyAt
  rw [hslots] at hbodyAt hbody
  have hin : ∀ {pc : Nat} {op : Instr}, a + kind.countSize + 2 + kind.testSize ≤ pc →
      pc < a + kind.countSize + 2 + kind.testSize + allSize s body → code[pc]? = some op → _ :=
    fun hlo hhi hop => keeps_of_allCode hbodyAt hbody hlo hhi hop
  have htest : ∀ {pc : Nat} {op : Instr}, a + kind.countSize + 2 ≤ pc →
      pc < a + kind.countSize + 2 + kind.testSize → code[pc]? = some op →
      op ∈ kind.testCode i base (allSize s body + 1 + 1) := fun hlo hhi hop =>
    hloop.testAt.mem_of_getElem? hlo (by rwa [LoopKind.length_testCode]) hop
  refine
    { reset_ge := Nat.le_add_right _ _
      first_ge := Nat.le_add_right _ _
      check_ge := Nat.le_add_right _ _
      zeroAt := hstart.head
      storeAt := hstart.tail.head
      checkAt := hend.head
      backAt := ⟨_, hloop.backAt, ?back⟩
      count := ?count
      jump := ?jump
      slot := ?kept
      quiet := ?quiet }
  case back =>
    rw [toInt_backward hback]
    omega
  case count =>
    intro pc op hlo hhi hop
    have hmem := hloop.countAt.mem_of_getElem? hlo (by rwa [LoopKind.length_countCode]) hop
    exact (kind.quiet_countCode hmem).1
  case jump =>
    intro pc target op offset hlo hhi hop hoffset htarget
    rcases Nat.lt_or_ge pc (a + kind.countSize + 2 + kind.testSize) with hlt | hge
    · have hleaves := kind.jump_of_testCode hloop.testAt hexit hlo hlt hop hoffset htarget
      omega
    · have hstays := (hin hge hhi hop).1 offset target hoffset htarget
      omega
  case kept =>
    -- The slot lies between those of the test and those of the body.
    intro pc op c hlo hhi hop hc
    rw [toNat_localSlot hslot]
    rcases Nat.lt_or_ge pc (a + kind.countSize + 2 + kind.testSize) with hlt | hge
    · exact Nat.ne_of_lt (kind.slot_of_testCode (htest hlo hlt hop) hcount hc)
    · have hown := (hin hge hhi hop).2 c hc
      omega
  case quiet =>
    intro pc op hlo hhi hop
    rcases Nat.lt_or_ge pc (a + kind.countSize) with hlt | hge
    · have hmem := hloop.countAt.mem_of_getElem? hlo (by rwa [LoopKind.length_countCode]) hop
      exact (kind.quiet_countCode hmem).2
    rcases Nat.lt_or_ge pc (a + kind.countSize + 2) with hlt | hge'
    · have hmem := hstart.mem_of_getElem? hge hlt hop
      rcases List.mem_pair.mp hmem with rfl | rfl
      · rfl
      · rfl
    · exact kind.quiet_testCode (htest hge' hhi hop)

end Stmt

end

theorem WatchAt.reset_le {code : List Instr} {a reset first check : Nat} {c : UInt16} {k : UInt32}
    (h : WatchAt code a reset first check c k) : reset + 2 ≤ check :=
  Nat.le_trans h.first_ge h.check_ge

theorem WatchAt.interval_pos {l : Linked} {a reset first check : Nat} {c : UInt16} {k : UInt32}
    (h : WatchAt l.image.ops a reset first check c k) : 0 < k.toNat := by
  have hinterval := (Option.or_eq_none_iff.mp (Linked.flawless h.checkAt).2).2
  rw [Nat.pos_iff_ne_zero]
  intro hzero
  rw [if_pos (UInt32.toNat_inj.mp hzero)] at hinterval
  cases hinterval

/-- The slot of the count is there. -/
theorem Frame.Confined.slot_lt {f : Frame} (hf : f.Confined) {pc : Nat} {op : Instr} {c : UInt16}
    (hop : f.routine.image.ops[pc]? = some op) (hslot : op.slot? = some c) :
    c.toNat < f.locals.size := by
  rw [hf.slots]
  have hflaw := (Linked.flawless hop).2
  cases op with
  | storeLocal | countdown =>
    cases hslot
    exact Image.lt_of_indexFlaw? hflaw
  | checkDeadline =>
    cases hslot
    exact Image.lt_of_indexFlaw? (Option.or_eq_none_iff.mp hflaw).1
  | _ => cases hslot

theorem WatchAt.slot_lt {f : Frame} {a reset first check : Nat} {c : UInt16} {k : UInt32}
    (h : WatchAt f.routine.image.ops a reset first check c k) (hf : f.Confined) :
    c.toNat < f.locals.size :=
  hf.slot_lt h.storeAt rfl

/-! ## Counting rounds -/

/-- The round after the `n`-th is the last one before the count starts again, or it is counted. -/
theorem succ_mod_cases {k : Nat} (hk : 0 < k) (n : Nat) :
    (k ∣ n + 1 ∧ k ≤ n % k + 1 ∧ (n + 1) % k = 0)
      ∨ (¬ k ∣ n + 1 ∧ n % k + 1 < k ∧ (n + 1) % k = n % k + 1) := by
  have hlt := Nat.mod_lt n hk
  have hmod := Nat.mod_add_mod n k 1
  rw [Nat.dvd_iff_mod_eq_zero]
  rcases Nat.lt_or_ge (n % k + 1) k with hless | hge
  · rw [Nat.mod_eq_of_lt hless] at hmod
    exact Or.inr ⟨by omega, hless, hmod.symm⟩
  · have heq : n % k + 1 = k := Nat.le_antisymm hlt hge
    rw [heq, Nat.mod_self] at hmod
    exact Or.inl ⟨hmod.symm, hge, hmod.symm⟩

namespace Frame

variable {σ : Type} {h : Host σ} {s : Setting} {callers : List Frame} {w : World σ} {f f' : Frame}
  {op : Instr} {effect : Effect} {c : UInt16} {k : UInt32}

/-- An instruction stays, goes on to the next one or jumps. -/
theorem Executes.pc_cases (hexec : f.Executes h s callers w op f' effect) :
    f'.pc = f.pc ∨ f'.pc = f.pc + 1
      ∨ ∃ offset, op.jumpOffset? = some offset ∧ (f.pc : Int) + offset.toInt = f'.pc := by
  cases hexec with
  | fails hat | waits hat => exact Or.inl hat.pc
  | moves hleads hat =>
    rw [hat.pc]
    cases hleads with
    | falls | stores | counts | early => exact Or.inr (Or.inl rfl)
    | jumps hoffset htarget => exact Or.inr (Or.inr ⟨_, hoffset, htarget⟩)
  | asks _ _ hat | yields hat | enters hat => exact Or.inr (Or.inl hat.pc)
  | leaves => exact Or.inl rfl

/-- An instruction changes no slot but its own. -/
theorem Executes.getElem?_locals (hexec : f.Executes h s callers w op f' effect) {n : Nat}
    (hslot : ∀ c, op.slot? = some c → c.toNat ≠ n) : f'.locals[n]? = f.locals[n]? := by
  have hset : ∀ {c : UInt16} {v : Value}, op.slot? = some c →
      (f.locals.toList.set c.toNat v)[n]? = f.locals.toList[n]? := fun hc =>
    List.getElem?_set_ne (hslot _ hc)
  rw [← Array.getElem?_toList, ← Array.getElem?_toList]
  cases hexec with
  | fails hat | waits hat | yields hat | enters hat => rw [hat.locals]
  | moves hleads hat =>
    rw [hat.locals]
    cases hleads with
    | falls | jumps => rfl
    | stores | counts | early => exact hset rfl
  | asks _ _ hat =>
    rw [hat.locals]
    exact hset rfl
  | leaves => rfl

/-- A thread gives way softly with an instruction that says so. -/
theorem Executes.pauses_of_soft (hexec : f.Executes h s callers w op f' (.suspend .soft)) :
    op.pauses = true := by
  generalize heffect : Effect.suspend .soft = effect at hexec
  cases hexec with
  | fails | waits | enters | leaves => cases heffect
  | moves _ _ _ hmoves => rcases hmoves with rfl | rfl <;> cases heffect
  | asks | yields => rfl

theorem getElem?_setLocal (f : Frame) {c : UInt16} (h : c.toNat < f.locals.size) (v : Value) :
    (f.setLocal c v).locals[c.toNat]? = some v := by
  rw [← Array.getElem?_toList, toList_setLocal]
  exact List.getElem?_set_self h

/-- What a look at the deadline does with the count. -/
theorem exec_checkDeadline {j : Nat} (hcount : f.locals[c.toNat]? = some (.number (.ofNat j)))
    (hj : j < 4294967296) :
    f.exec h s callers w (.checkDeadline c k) =
      if k.toNat ≤ j + 1 then
        ((f.setLocal c (.number (.ofNat 0))).advance, w.after (h.deadlineElapsed w.host),
          if (h.deadlineElapsed w.host).answer then .suspend .soft else .next)
      else ((f.setLocal c (.number (.ofNat (j + 1)))).advance, w, .next) := by
  -- Below 2 ^ 53 adding one to a number and comparing it are exact.
  have h53 : Nat.pow 2 53 = 9007199254740992 := by decide
  have hk := UInt32.toNat_lt k
  have hadd : (Value.number (.ofNat j)).toNumber.add 1 = .ofNat (j + 1) := by
    rw [Value.toNumber_ofNat (by omega), Number.ofNat_add_one (by omega)]
  rw [exec, checkDeadline, withLocal, hcount]
  simp only [hadd, Number.ofNat_zero]
  by_cases hdue : k.toNat ≤ j + 1
  · rw [if_pos hdue, if_pos (Number.le_ofNat hdue (by omega))]
  · rw [if_neg hdue, if_neg fun hle => hdue (Number.le_of_le_ofNat (by omega) (by omega) hle)]

/-- The frame has counted its rounds: so many are over in this activation of its loop, and after so
many of them it has gone back to the test. The slot has what is left of the number by the
interval. -/
structure Tallies (reset check : Nat) (c : UInt16) (k rounds backs : Nat) (f : Frame) : Prop where
  unbegun : f.pc ≤ reset + 1 → rounds = 0
  fresh : f.pc = reset + 1 → f.stack.back? = some (.number .zero)
  count : reset + 2 ≤ f.pc → f.locals[c.toNat]? = some (.number (.ofNat (rounds % k)))
  backs : backs + (if f.pc = check + 1 then 1 else 0) = rounds

namespace Tallies

variable {a reset first check rounds backs : Nat}

/-- No round has begun. -/
theorem of_le (hcheck : reset + 2 ≤ check) {n : Nat} (hpc : f.pc ≤ reset) :
    f.Tallies reset check c n 0 0 where
  unbegun _ := rfl
  fresh h := by omega
  count h := by omega
  backs := by rw [if_neg (by omega)]

/-- The rounds have begun. -/
theorem of_ge {n : Nat} (hpc : reset + 2 ≤ f.pc)
    (hcount : f.locals[c.toNat]? = some (.number (.ofNat (rounds % n))))
    (hbacks : backs + (if f.pc = check + 1 then 1 else 0) = rounds) :
    f.Tallies reset check c n rounds backs where
  unbegun h := by omega
  fresh h := by omega
  count _ := hcount
  backs := hbacks

theorem unbegun_backs {n : Nat} (hf : f.Tallies reset check c n rounds backs)
    (hpc : f.pc ≤ reset + 1) : rounds = 0 ∧ backs = 0 := by
  have hrounds := hf.unbegun hpc
  have hbacks := hf.backs
  omega

section

variable (hwatch : WatchAt f.routine.image.ops a reset first check c k)
  (hf : f.Tallies reset check c k.toNat rounds backs)
include hwatch hf

/-- **At the end of a round one more is counted.** -/
theorem exec_check (h : Host σ) (s : Setting) (callers : List Frame) (w : World σ)
    (hconfined : f.Confined) (hpc : f.pc = check) :
    (f.exec h s callers w (.checkDeadline c k)).1.Tallies reset check c k.toNat
      (rounds + 1) backs := by
  have hcheck := hwatch.reset_le
  have hlt := Nat.mod_lt rounds hwatch.interval_pos
  have hk := UInt32.toNat_lt k
  have hbacks := hf.backs
  rw [if_neg (by omega)] at hbacks
  have hnext : ∀ n, n = (rounds + 1) % k.toNat →
      ((f.setLocal c (.number (.ofNat n))).advance).Tallies reset check c k.toNat
        (rounds + 1) backs := by
    rintro n rfl
    have hpc' : (f.setLocal c (.number (.ofNat ((rounds + 1) % k.toNat)))).advance.pc = check + 1 :=
      congrArg (· + 1) hpc
    exact of_ge (by omega) (f.getElem?_setLocal (hwatch.slot_lt hconfined) _)
      (by rw [if_pos hpc']; omega)
  rw [exec_checkDeadline (hf.count (by omega)) (by omega)]
  rcases succ_mod_cases hwatch.interval_pos rounds with ⟨-, hdue, hmod⟩ | ⟨-, hearly, hmod⟩
  · rw [if_pos hdue]
    exact hnext 0 hmod.symm
  · rw [if_neg (Nat.not_le.mpr hearly)]
    exact hnext _ hmod.symm

/-- The count is set to zero before the first round. -/
theorem exec_store (hconfined : f.Confined) (hpc : f.pc = reset + 1) :
    (f.exec h s callers w (.storeLocal c)).1.Tallies reset check c k.toNat rounds backs := by
  have hcheck := hwatch.reset_le
  obtain ⟨rfl, rfl⟩ := hf.unbegun_backs (Nat.le_of_eq hpc)
  have hslot := hwatch.slot_lt hconfined
  rw [exec, withValue, hf.fresh hpc]
  dsimp only
  rw [if_pos hslot]
  have hpc' : (({ f with stack := f.stack.pop }.setLocal c (.number .zero)).advance).pc
      = reset + 2 :=
    congrArg (· + 1) hpc
  refine of_ge (Nat.le_of_eq hpc'.symm) ?_ (by rw [hpc', if_neg (by omega)])
  rw [Nat.zero_mod, Number.ofNat_zero]
  exact getElem?_setLocal _ hslot _

/-- After a round the test is made again. -/
theorem exec_back {offset : Int32} (hop : f.routine.image.ops[f.pc]? = some (.jump offset))
    (hpc : f.pc = check + 1) :
    (f.exec h s callers w (.jump offset)).1.Tallies reset check c k.toNat rounds (backs + 1) := by
  have hcheck := hwatch.reset_le
  have hinside := (List.getElem?_eq_some_iff.mp hwatch.checkAt).1
  obtain ⟨offset', hback, htarget⟩ := hwatch.backAt
  rw [hpc, hback] at hop
  cases hop
  rw [← hpc] at htarget
  have hbacks := hf.backs
  rw [if_pos hpc] at hbacks
  rw [exec, f.jumpBy_eq htarget (by omega)]
  refine of_ge (Nat.le_refl _) (hf.count (by omega)) ?_
  rw [if_neg (by dsimp only; omega)]
  exact hbacks

/-- The test and the body leave the count alone. -/
theorem exec_round (hexec : f.Executes h s callers w op f' effect)
    (hop : f.routine.image.ops[f.pc]? = some op) (hlo : reset + 2 ≤ f.pc) (hhi : f.pc < check) :
    f'.Tallies reset check c k.toNat rounds backs := by
  have hbacks := hf.backs
  rw [if_neg (by omega)] at hbacks
  obtain ⟨hlo', hne⟩ : reset + 2 ≤ f'.pc ∧ f'.pc ≠ check + 1 := by
    rcases hexec.pc_cases with hstays | hnext | ⟨offset, hoffset, htarget⟩
    · omega
    · omega
    · exact hwatch.jump hlo hhi hop hoffset htarget
  refine of_ge hlo' ?_ (by rw [if_neg hne, hbacks])
  rw [hexec.getElem?_locals fun c' hc' => hwatch.slot hlo hhi hop hc']
  exact hf.count hlo

/-- **The count is kept** by all but the look at the deadline. -/
theorem exec_of_ne (h : Host σ) (s : Setting) (callers : List Frame) (w : World σ)
    (hconfined : f.Confined) (hop : f.routine.image.ops[f.pc]? = some op) (hlo : a ≤ f.pc)
    (hhi : f.pc < check + 2) (hne : f.pc ≠ check) :
    (f.exec h s callers w op).1.Tallies reset check c k.toNat rounds
      (backs + if f.pc = check + 1 then 1 else 0) := by
  have hcheck := hwatch.reset_le
  have hexec : f.Executes h s callers w op _ _ := executes_exec h s callers w f op
  -- The positions of the loop, one after the other.
  rcases Nat.lt_or_ge f.pc reset with hcount | hge
  · obtain ⟨rfl, rfl⟩ := hf.unbegun_backs (by omega)
    rw [if_neg (by omega)]
    refine of_le hcheck ?_
    rcases hexec.pc_cases with hstays | hnext | ⟨offset, hoffset, -⟩
    · omega
    · omega
    · rw [hwatch.count hlo hcount hop] at hoffset
      cases hoffset
  rcases Nat.eq_or_lt_of_le hge with hreset | hgt
  · obtain ⟨rfl, rfl⟩ := hf.unbegun_backs (by omega)
    rw [← hreset, hwatch.zeroAt] at hop
    cases hop
    rw [if_neg (by omega)]
    refine ⟨fun _ => rfl, fun _ => by simp [exec, Frame.push, advance], fun hle => ?_, ?_⟩
    · have hle : reset + 2 ≤ f.pc + 1 := hle
      omega
    · have hpc : (f.exec h s callers w (.push (.number .zero))).1.pc = f.pc + 1 := rfl
      rw [hpc, if_neg (by omega)]
  rcases Nat.eq_or_lt_of_le (Nat.succ_le_of_lt hgt) with hstore | hround
  · rw [if_neg (by omega)]
    rw [← hstore, hwatch.storeAt] at hop
    cases hop
    exact hf.exec_store hwatch hconfined hstore.symm
  rcases Nat.lt_or_ge f.pc check with hlt | hend
  · rw [if_neg (by omega)]
    exact hf.exec_round hwatch hexec hop (by omega) hlt
  · have hpc : f.pc = check + 1 := by omega
    obtain ⟨offset, hback, -⟩ := hwatch.backAt
    rw [hpc, hback] at hop
    cases hop
    rw [if_pos hpc]
    exact hf.exec_back hwatch (hpc ▸ hback) hpc

/-- The result of a call leaves the count alone. -/
theorem resume (hconfined : f.Confined) {id : PendingId} (hid : f.pending = some id) (v : Value) :
    ({ f with pending := none }.push v).advance.Tallies reset check c k.toNat rounds backs := by
  have hcheck := hwatch.reset_le
  obtain ⟨i, argc, hop⟩ := hconfined.waiting (by rw [hid]; rfl)
  -- The call stands at none of the positions where the count changes.
  have hne : ∀ {pc : Nat} {op : Instr}, f.routine.image.ops[pc]? = some op →
      (∀ i argc, op ≠ .callHost i argc) → f.pc ≠ pc := by
    rintro pc op hop' hcall rfl
    rw [hop] at hop'
    exact hcall i argc (Option.some.inj hop').symm
  have hreset := hne hwatch.zeroAt (by simp)
  have hstore := hne hwatch.storeAt (by simp)
  have hlook := hne hwatch.checkAt (by simp)
  obtain ⟨offset, hback, -⟩ := hwatch.backAt
  have hback := hne hback (by simp)
  have hbacks := hf.backs
  rw [if_neg hback] at hbacks
  have hpc : (({ f with pending := none }.push v).advance).pc = f.pc + 1 := rfl
  refine ⟨fun hle => hf.unbegun (by omega), fun heq => by omega, fun hle => hf.count (by omega), ?_⟩
  rw [if_neg (by omega), hbacks]

end

end Tallies

end Frame

/-! ## Looks at the deadline -/

namespace Moment

/-- The host is asked about the deadline, and the thread gives way softly if it answers that the
time is used up. -/
def Looks (m : Moment) : Prop :=
  ∃ elapsed, m.calls = [.called (.deadline elapsed)]
    ∧ m.flow = if elapsed then .suspend .soft else .next

/-- No call is made, and the thread goes on. -/
def Passes (m : Moment) : Prop := m.calls = [] ∧ m.flow = .next

end Moment

/-- Of these moments those are looks at the deadline whose number, counted from one, is a multiple
of the interval. -/
inductive Paced (k : Nat) : List Moment → Prop
  | nil : Paced k []
  | concat {ms : List Moment} {m : Moment} : Paced k ms →
    (if k ∣ ms.length + 1 then m.Looks else m.Passes) → Paced k (ms ++ [m])

namespace Paced

variable {k n : Nat} {ms : List Moment} {m : Moment}

theorem getElem? (h : Paced k ms) (hm : ms[n]? = some m) :
    if k ∣ n + 1 then m.Looks else m.Passes := by
  induction h with
  | nil => cases hm
  | @concat ms last _ hlast ih =>
    rcases Nat.lt_or_ge n ms.length with hlt | hge
    · rw [List.getElem?_append_left hlt] at hm
      exact ih hm
    · have hn := (List.getElem?_eq_some_iff.mp hm).1
      rw [List.length_append, List.length_singleton] at hn
      obtain rfl : n = ms.length := by omega
      rw [List.getElem?_concat_length] at hm
      cases hm
      exact hlast

/-- The host is asked once in every so many rounds. -/
theorem countP (h : Paced k ms) : ms.countP (fun m => !m.calls.isEmpty) = ms.length / k := by
  induction h with
  | nil => simp
  | @concat ms last _ hlast ih =>
    rw [List.countP_append, ih, List.countP_singleton, List.length_append, List.length_singleton]
    by_cases hdvd : k ∣ ms.length + 1
    · rw [if_pos hdvd] at hlast
      obtain ⟨elapsed, hcalls, -⟩ := hlast
      rw [Nat.succ_div_of_dvd hdvd, hcalls]
      rfl
    · rw [if_neg hdvd] at hlast
      rw [Nat.succ_div_of_not_dvd hdvd, hlast.1]
      rfl

end Paced

namespace Frame

variable {σ : Type} {h : Host σ} {s : Setting} {callers : List Frame} {w : World σ} {f : Frame}
  {op : Instr} {c : UInt16} {k : UInt32}

/-- What is seen of a look at the deadline. -/
theorem act_checkDeadline (h : Host σ) (s : Setting) (callers : List Frame) (w : World σ) {j : Nat}
    (hcount : f.locals[c.toNat]? = some (.number (.ofNat j)))
    (hj : j < 4294967296) :
    if k.toNat ≤ j + 1 then (f.act h s callers w (.checkDeadline c k)).Looks
    else (f.act h s callers w (.checkDeadline c k)).Passes := by
  split
  · next hdue =>
    refine ⟨(h.deadlineElapsed w.host).answer, ?_, ?_⟩
    · rw [act, exec_checkDeadline hcount hj, if_pos hdue]
      simp [World.after, Host.recorded, Reply.noting]
    · rw [act]
      dsimp only
      rw [exec_checkDeadline hcount hj, if_pos hdue]
      cases (h.deadlineElapsed w.host).answer <;> rfl
  · next hearly =>
    constructor
    · rw [act, exec_checkDeadline hcount hj, if_neg hearly]
    · rw [act]
      dsimp only
      rw [exec_checkDeadline hcount hj, if_neg hearly]
      rfl

/-- A frame gives way softly only with an instruction that says so. -/
theorem pauses_of_act (hsoft : (f.act h s callers w op).flow = .suspend .soft) :
    op.pauses = true := by
  have hexec : f.Executes h s callers w op _ _ := executes_exec h s callers w f op
  rw [act] at hsoft
  dsimp only at hsoft
  generalize f.exec h s callers w op = r at hsoft hexec
  obtain ⟨f', w', effect⟩ := r
  cases effect with
  | suspend kind =>
    cases hsoft
    exact hexec.pauses_of_soft
  | nextUnlessStopped =>
    simp only [Execution.applyEffect, Execution.flowAfterCall] at hsoft
    split at hsoft <;> cases hsoft
  | leave =>
    simp only [Execution.applyEffect] at hsoft
    split at hsoft <;> cases hsoft
  | next | enter | fail => cases hsoft

/-- A loop that looks at the deadline, while it is active: it counts its rounds, looks at the
deadline in every so many of them, and gives way softly only there or in its body. -/
structure Watches (depth reset first check : Nat) (c : UInt16) (k : Nat) (seen : List Moment)
    (f : Frame) : Prop where
  tallies : f.Tallies reset check c k (momentsAt depth check seen).length
    (momentsAt depth (check + 1) seen).length
  paced : Paced k (momentsAt depth check seen)
  soft : ∀ m ∈ seen, ∀ pc, m.place = some (depth, pc) → m.flow = .suspend .soft →
    first ≤ pc ∧ pc ≤ check

namespace Watches

variable {a reset first check : Nat} {seen : List Moment}

theorem exec (hf : f.Watches callers.length reset first check c k.toNat seen)
    (hwatch : WatchAt f.routine.image.ops a reset first check c k) (hconfined : f.Confined)
    (hop : f.routine.image.ops[f.pc]? = some op) (hlo : a ≤ f.pc) (hhi : f.pc < check + 2) :
    (f.exec h s callers w op).1.Watches callers.length reset first check c k.toNat
      (seen ++ [f.act h s callers w op]) := by
  have hcheck := hwatch.reset_le
  have hplace : (f.act h s callers w op).place = some (callers.length, f.pc) := rfl
  have hother : ∀ {pc}, f.pc ≠ pc → (f.act h s callers w op).place ≠ some (callers.length, pc) := by
    intro pc hne heq
    rw [hplace] at heq
    exact hne (Prod.mk.inj (Option.some.inj heq)).2
  have hsoft : ∀ m ∈ seen ++ [f.act h s callers w op], ∀ pc, m.place = some (callers.length, pc) →
      m.flow = .suspend .soft → first ≤ pc ∧ pc ≤ check := by
    intro m hm pc hpc hflow
    rcases List.mem_append.mp hm with hm | hm
    · exact hf.soft m hm pc hpc hflow
    · rw [List.mem_singleton.mp hm] at hpc hflow
      rw [hplace] at hpc
      obtain rfl := (Prod.mk.inj (Option.some.inj hpc)).2
      have hpauses := pauses_of_act hflow
      -- Neither what comes before the body nor the jump back gives way.
      rcases Nat.lt_or_ge f.pc first with hlt | hge
      · rw [hwatch.quiet hlo hlt hop] at hpauses
        cases hpauses
      rcases Nat.eq_or_lt_of_le (Nat.le_of_lt_succ hhi) with hback | hlt
      · obtain ⟨offset, hjump, -⟩ := hwatch.backAt
        rw [hback, hjump] at hop
        cases hop
        cases hpauses
      · exact ⟨hge, Nat.le_of_lt_succ hlt⟩
  by_cases hpc : f.pc = check
  · rw [hpc, hwatch.checkAt] at hop
    cases hop
    have hlt := Nat.mod_lt (momentsAt callers.length check seen).length hwatch.interval_pos
    have hk := UInt32.toNat_lt k
    have hact := act_checkDeadline (k := k) h s callers w (hf.tallies.count (by omega)) (by omega)
    have hrounds :
        momentsAt callers.length check (seen ++ [f.act h s callers w (.checkDeadline c k)])
        = _ ++ [_] := momentsAt_concat (hpc ▸ hplace)
    refine ⟨?_, ?_, hsoft⟩
    · rw [hrounds, momentsAt_concat_of_ne (hother (by omega)), List.length_append,
        List.length_singleton]
      exact hf.tallies.exec_check hwatch h s callers w hconfined hpc
    · rw [hrounds]
      refine .concat hf.paced ?_
      rcases succ_mod_cases hwatch.interval_pos (momentsAt callers.length check seen).length with
        ⟨hdvd, hdue, -⟩ | ⟨hdvd, hearly, -⟩
      · rw [if_pos hdvd]
        rwa [if_pos hdue] at hact
      · rw [if_neg hdvd]
        rwa [if_neg (Nat.not_le.mpr hearly)] at hact
  · have hnext := hf.tallies.exec_of_ne hwatch h s callers w hconfined hop hlo hhi hpc
    refine ⟨?_, ?_, hsoft⟩
    · rw [momentsAt_concat_of_ne (hother hpc)]
      by_cases hback : f.pc = check + 1
      · rw [momentsAt_concat (hback ▸ hplace), List.length_append, List.length_singleton]
        rwa [if_pos hback] at hnext
      · rw [momentsAt_concat_of_ne (hother hback)]
        rwa [if_neg hback] at hnext
    · rw [momentsAt_concat_of_ne (hother hpc)]
      exact hf.paced

/-- The ticks of other frames and those that execute nothing are of no account. -/
theorem idle (hf : f.Watches callers.length reset first check c k.toNat seen) {m : Moment}
    (hm : ∀ pc, m.place ≠ some (callers.length, pc)) :
    f.Watches callers.length reset first check c k.toNat (seen ++ [m]) := by
  refine ⟨?_, ?_, fun m' hm' pc hpc => ?_⟩
  · rw [momentsAt_concat_of_ne (hm _), momentsAt_concat_of_ne (hm _)]
    exact hf.tallies
  · rw [momentsAt_concat_of_ne (hm _)]
    exact hf.paced
  · rcases List.mem_append.mp hm' with hm' | hm'
    · exact hf.soft m' hm' pc hpc
    · rw [List.mem_singleton.mp hm'] at hpc
      exact absurd hpc (hm pc)

end Watches

/-- **A loop counts its rounds during each of its activations.** -/
def watching (s : Setting) (callers : List Frame) {image : Image} {a reset first check : Nat}
    {c : UInt16} {k : UInt32} (hwatch : WatchAt image.ops a reset first check c k) :
    ActivationInvariant s image callers a (check + 2) where
  Holds := Watches callers.length reset first check c k.toNat
  enter := by
    rintro f - - rfl
    have hcheck := hwatch.reset_le
    exact ⟨.of_le hcheck hwatch.reset_ge, .nil, fun _ hm => by cases hm⟩
  idle hf hm := hf.idle hm
  resume := by
    rintro seen f id v hf hconfined rfl - - hid
    exact ⟨hf.tallies.resume hwatch hconfined hid v, hf.paced, hf.soft⟩
  exec := by
    rintro σ h w seen f op hf hconfined rfl hlo hhi - hop
    exact hf.exec hwatch hconfined hop hlo hhi

end Frame

/-! ## Compiled routines -/

namespace Routine

variable {r : Routine} {p : Program} {config : CompilerConfig} {image : Image} {kind : LoopKind}
  {body : List Stmt} {interval : UInt32}

/-- The last two instructions of a loop in warp are a look at the deadline and the jump back to the
test, if the routine looks at the deadline. The body stands before them. -/
theorem exists_watchAt (hwarp : r.warp = true) (htimer : config.warpTimer = true)
    {a base check : Nat}
    (hat : (Stmt.loop kind body true interval).PlacedAt (r.settings config) (r.imports config)
      image.ops a base)
    (hcheck : check + 2 = a + Stmt.size (r.settings config) (.loop kind body true interval)) :
    ∃ reset first, first + Stmt.allSize (r.settings config) body = check
      ∧ WatchAt image.ops a reset first check (localSlot (base + kind.slots)) (max interval 1) := by
  have hruns : (r.settings config).runsWarp true = true := by
    rw [CodeSettings.runsWarp, settings, hwarp]
    rfl
  have hchecks : (r.settings config).checksDeadline true = true := by
    rw [CodeSettings.checksDeadline, hruns, settings, htimer]
    rfl
  have hend : (r.settings config).roundEndSize true = 1 := by
    rw [CodeSettings.roundEndSize, if_pos hruns, settings, if_pos htimer]
  rw [Stmt.size, CodeSettings.deadlineSlots, if_pos hchecks, hend] at hcheck
  obtain rfl :
      check = a + kind.countSize + 2 + kind.testSize + Stmt.allSize (r.settings config) body := by
    omega
  exact ⟨_, _, rfl, hat.watchAt hchecks⟩

/-- **A loop in warp counts its rounds during each of its activations**, if the routine looks at the
deadline. -/
theorem watches_of_activation (hwarp : r.warp = true) (htimer : config.warpTimer = true)
    {a base first check : Nat}
    (hat : (Stmt.loop kind body true interval).PlacedAt (r.settings config) (r.imports config)
      image.ops a base)
    (hcheck : check + 2 = a + Stmt.size (r.settings config) (.loop kind body true interval))
    (hfirst : first + Stmt.allSize (r.settings config) body = check) {s : Setting} {entry : Linked}
    {callers : List Frame} {e : Execution} {seen : List Moment}
    (he : Execution.Activation s entry image callers a (check + 2) e seen) :
    ∃ (f : Frame) (reset : Nat),
      f.Watches callers.length reset first check (localSlot (base + kind.slots))
      (max interval 1).toNat seen := by
  obtain ⟨reset, first', hfirst', hwatch⟩ := exists_watchAt hwarp htimer hat hcheck
  obtain rfl : first' = first := by omega
  have hreset := hwatch.reset_ge
  have hcheck := hwatch.reset_le
  obtain ⟨inner, f, -, -, -, -, -, hf⟩ := (Frame.watching s callers hwatch).activation (by omega) he
  exact ⟨f, reset, hf⟩

/--
**In one activation of a loop the deadline is looked at in every so many rounds.**

Take any loop that is safe in warp, in a routine in warp that was compiled with looks at the
deadline. Its code stands somewhere in the code of the routine. The last two instructions are a look
at the deadline, with the interval of the loop, and the jump back to the test; before them stands
the body. Take any activation of this code, in any thread and on any hosts, up to any point. Then
the look that ends the round with number `n + 1` asks the host exactly if `n + 1` is a multiple of
the interval, and the thread gives way there exactly if the host answers that the time is used up.
So after so many rounds the host has been asked so many times as the interval goes into their
number. After each look comes the jump back to the test. With instructions of its own the loop gives
way softly nowhere else; its body may.
-/
theorem looks_of_compile (h : r.compile p config = .ok image) (hwarp : r.warp = true)
    (htimer : config.warpTimer = true)
    (hloop : Stmt.loop kind body true interval ∈ Stmt.allNodes r.stack) :
    (∃ a base, (Stmt.loop kind body true interval).PlacedAt (r.settings config) (r.imports config)
      image.ops a base)
    ∧ ∀ a base first check, (Stmt.loop kind body true interval).PlacedAt (r.settings config)
        (r.imports config) image.ops a base →
      check + 2 = a + Stmt.size (r.settings config) (.loop kind body true interval) →
      first + Stmt.allSize (r.settings config) body = check →
      image.ops[check]? = some (.checkDeadline (localSlot (base + kind.slots)) (max interval 1))
      ∧ ∀ (s : Setting) (entry : Linked) (callers : List Frame) (e : Execution)
        (seen : List Moment), Execution.Activation s entry image callers a (check + 2) e seen →
        (∀ n m, (momentsAt callers.length check seen)[n]? = some m →
          if (max interval 1).toNat ∣ n + 1 then m.Looks else m.Passes)
        ∧ (momentsAt callers.length check seen).countP (fun m => !m.calls.isEmpty)
          = (momentsAt callers.length check seen).length / (max interval 1).toNat
        ∧ (momentsAt callers.length (check + 1) seen).length
          ≤ (momentsAt callers.length check seen).length
        ∧ (momentsAt callers.length check seen).length
          ≤ (momentsAt callers.length (check + 1) seen).length + 1
        ∧ ∀ m ∈ seen, ∀ pc, m.place = some (callers.length, pc) → m.flow = .suspend .soft →
          first ≤ pc ∧ pc ≤ check := by
  refine ⟨exists_placedAt h _ hloop, fun a base first check hat hcheck hfirst => ?_⟩
  obtain ⟨_, _, -, hwatch⟩ := exists_watchAt hwarp htimer hat hcheck
  refine ⟨hwatch.checkAt, fun s entry callers e seen he => ?_⟩
  obtain ⟨f, reset, hf⟩ := watches_of_activation hwarp htimer hat hcheck hfirst he
  have hbacks := hf.tallies.backs
  refine ⟨fun n m hm => hf.paced.getElem? hm, hf.paced.countP, by omega, ?_, hf.soft⟩
  split at hbacks <;> omega

/-- The first statement of a routine stands at the beginning. -/
theorem placedAt_head (h : r.compile p config = .ok image) {n : Stmt} {ns : List Stmt}
    (hstack : r.stack = n :: ns) :
    n.PlacedAt (r.settings config) (r.imports config) image.ops 0 0 := by
  obtain ⟨rfl, -, hmet⟩ := compile_eq_ok h
  have hat : CodeAt (r.image config).ops 0
      (Stmt.allCode (r.settings config) (r.imports config) 0 r.stack) :=
    .whole _ _
  rw [hstack, Stmt.allCode] at hat
  refine ⟨hat.left, fun d hd => hmet d ?_⟩
  rw [demands, hstack, Stmt.allDemands]
  exact List.mem_append_left _ hd

/-- A routine that counts to five in warp, and looks at the deadline in every other round. -/
def counter : Routine where
  script := ⟨"counter", {}, none, true⟩
  stack := [.loop (.times (.const (.number 5))) [.change "x" (.const (.number 1))] true 2]

/-- Five rounds are over, and the host was asked at the end of the second one and of the fourth
one. -/
theorem looks_of_compile_counter :
    ∃ image l e seen, counter.compile ⟨counter, {}⟩ {} = .ok image ∧ l.image = image
      ∧ Execution.Activation {} l image [] 0 12 e seen ∧ (momentsAt 0 10 seen).length = 5
      ∧ (momentsAt 0 10 seen).countP (fun m => !m.calls.isEmpty) = 2
      ∧ ∃ m, (momentsAt 0 10 seen)[3]? = some m ∧ m.Looks := by
  have hrun : (counter.compile ⟨counter, {}⟩ {}).toOption.bind (fun image =>
      (image.link {}).toOption.bind fun l =>
        ((Execution.start l).linger ScriptedHost.host {} 0 12 39
          ⟨{ deadlines := [false, true] }, false⟩).map fun r => (momentsAt 0 10 r.2).length)
      = some 5 := by
    decide +kernel
  obtain ⟨image, himage, hrun⟩ := Option.bind_eq_some_iff.mp hrun
  obtain ⟨l, hl, hrun⟩ := Option.bind_eq_some_iff.mp hrun
  obtain ⟨⟨e, seen⟩, hlinger, hrounds⟩ := Option.map_eq_some_iff.mp hrun
  have himage := eq_ok_of_toOption himage
  have hl := Image.image_of_link (eq_ok_of_toOption hl)
  have hactive : Execution.Activation {} l image [] 0 12 e seen :=
    .linger 39 (.enters .start rfl hl rfl rfl) hlinger
  have hrounds : (momentsAt 0 10 seen).length = 5 := hrounds
  obtain ⟨hpaced, hcount, -⟩ := ((looks_of_compile himage rfl rfl List.mem_cons_self).2 0 0 6 10
    (placedAt_head himage rfl) rfl rfl).2 {} l [] e seen hactive
  have hfourth : ∃ m, (momentsAt 0 10 seen)[3]? = some m := ⟨_, List.getElem?_eq_getElem (by omega)⟩
  obtain ⟨m, hm⟩ := hfourth
  have hlooks := hpaced 3 m hm
  rw [if_pos (by decide)] at hlooks
  refine ⟨image, l, e, seen, himage, hl, hactive, hrounds, ?_, m, hm, hlooks⟩
  rw [List.length_nil, hrounds] at hcount
  exact hcount

end Routine

end BlockScript
