import BlockScript.Proofs.Confinement
import BlockScript.Proofs.Effects
import BlockScript.Proofs.Naturals
import BlockScript.Proofs.Verification
import BlockScript.Proofs.Warp

/-!
# Counting towards the deadline

A loop that looks at the deadline counts its rounds in a local slot. The slot is used for nothing
else: a value is stored there only before the first round, and that value is zero
(`Linked.KeepsCount`).

So whatever a thread does, such a slot holds a natural number that is small enough to be counted on
(`Frame.Counting`). This is an invariant of frames (`Frame.counting`).
-/

namespace BlockScript

/-! ## The slots that loops count in -/

namespace Stmt

mutual

/-- The slots in which the loops of a statement count towards the deadline. -/
def watchSlots (s : CodeSettings) (base : Nat) : Stmt → List Nat
  | .branch _ yes no => allWatchSlots s base yes ++ allWatchSlots s (base + allSlots s yes) no
  | .loop kind body warpSafe _ =>
    (if s.checksDeadline warpSafe then [base + kind.slots] else [])
      ++ allWatchSlots s (base + kind.slots + s.deadlineSlots warpSafe) body
  | _ => []

/-- The slots in which the loops of statements count towards the deadline. -/
def allWatchSlots (s : CodeSettings) (base : Nat) : List Stmt → List Nat
  | [] => []
  | t :: ts => watchSlots s base t ++ allWatchSlots s (base + slots s t) ts

end

variable {s : CodeSettings}

mutual

/-- A statement counts in its own slots. -/
theorem watchSlots_bounds : ∀ {t : Stmt} {base n : Nat}, n ∈ watchSlots s base t →
    base ≤ n ∧ n < base + slots s t
  | .branch c yes no, base, n, h => by
    rw [watchSlots, List.mem_append] at h
    rw [slots]
    rcases h with h | h
    · have hyes := allWatchSlots_bounds h
      omega
    · have hno := allWatchSlots_bounds h
      omega
  | .loop kind body warpSafe interval, base, n, h => by
    rw [watchSlots, List.mem_append] at h
    rw [slots]
    rcases h with h | h
    · rw [CodeSettings.deadlineSlots]
      split at h
      · next hchecks =>
        rw [if_pos hchecks]
        cases List.mem_singleton.mp h
        omega
      · cases h
    · have hbody := allWatchSlots_bounds h
      omega
  | .call _ _ _, _, _, h | .set _ _, _, _, h | .change _ _, _, _, h | .wait _, _, _, h
  | .host _ _, _, _, h | .done, _, _, h | .escape _ _ _, _, _, h => by
    simp only [watchSlots, List.not_mem_nil] at h

theorem allWatchSlots_bounds : ∀ {ts : List Stmt} {base n : Nat}, n ∈ allWatchSlots s base ts →
    base ≤ n ∧ n < base + allSlots s ts
  | [], _, _, h => by cases h
  | t :: ts, base, n, h => by
    rw [allWatchSlots, List.mem_append] at h
    rw [allSlots]
    rcases h with h | h
    · have ht := watchSlots_bounds h
      omega
    · have hts := allWatchSlots_bounds h
      omega

end

end Stmt

/-- A piece of code counts in the slots of `C` only: it looks at the deadline there, no counted loop
counts its rounds there, and nothing but a zero is stored there. -/
structure TidyIn (C : Nat → Prop) (piece : List Instr) : Prop where
  check : ∀ {c k}, .checkDeadline c k ∈ piece → C c.toNat
  countdown : ∀ {c e}, .countdown c e ∈ piece → ¬ C c.toNat
  store : ∀ {n : Nat} {c}, piece[n]? = some (.storeLocal c) → C c.toNat →
    ∃ m, n = m + 1 ∧ piece[m]? = some (.push (.number .zero))

/-- The instruction uses none of the local slots. -/
def Instr.slotFree : Instr → Bool
  | .storeLocal _ | .loadLocal _ | .countdown _ _ | .checkDeadline _ _ => false
  | _ => true

theorem Instr.slotFree_of_computes {op : Instr} (h : op.computes = true) : op.slotFree = true := by
  cases op with
  | storeLocal | loadLocal | countdown | checkDeadline => cases h
  | _ => rfl

namespace TidyIn

variable {C : Nat → Prop} {piece piece' : List Instr}

theorem of_slotFree (h : ∀ op ∈ piece, op.slotFree = true) : TidyIn C piece where
  check hmem := by cases h _ hmem
  countdown hmem := by cases h _ hmem
  store hn _ := by cases h _ (List.mem_of_getElem? hn)

theorem of_computes (h : ∀ op ∈ piece, op.computes = true) : TidyIn C piece :=
  .of_slotFree fun op hop => Instr.slotFree_of_computes (h op hop)

theorem nil : TidyIn C [] := .of_slotFree fun _ h => by cases h

theorem append (h : TidyIn C piece) (h' : TidyIn C piece') : TidyIn C (piece ++ piece') where
  check hmem := (List.mem_append.mp hmem).elim h.check h'.check
  countdown hmem := (List.mem_append.mp hmem).elim h.countdown h'.countdown
  store {n c} hn hc := by
    rcases Nat.lt_or_ge n piece.length with hlt | hge
    · rw [List.getElem?_append_left hlt] at hn
      obtain ⟨m, rfl, hm⟩ := h.store hn hc
      refine ⟨m, rfl, ?_⟩
      rw [List.getElem?_append_left (by omega), hm]
    · rw [List.getElem?_append_right hge] at hn
      obtain ⟨m, hnm, hm⟩ := h'.store hn hc
      refine ⟨piece.length + m, by omega, ?_⟩
      rw [List.getElem?_append_right (by omega), Nat.add_sub_cancel_left, hm]

theorem cons {op : Instr} (hop : op.slotFree = true) (h : TidyIn C piece) :
    TidyIn C (op :: piece) :=
  (of_slotFree (List.forall_mem_singleton.mpr hop)).append h

/-- The storing of a value in a slot that is not one of those. -/
theorem storeLocal {c : UInt16} (hc : ¬ C c.toNat) : TidyIn C [.storeLocal c] where
  check hmem := by cases List.mem_singleton.mp hmem
  countdown hmem := by cases List.mem_singleton.mp hmem
  store {n c'} hn hc' := by
    cases List.mem_singleton.mp (List.mem_of_getElem? hn)
    exact absurd hc' hc

theorem countCode {i : Imports} {kind : LoopKind} {base : Nat}
    (hbase : kind.slots = 1 → base < 65535 ∧ ¬ C base) : TidyIn C (kind.countCode i base) := by
  cases kind with
  | times count =>
    obtain ⟨hlt, hC⟩ := hbase rfl
    have hstore : TidyIn C [.storeLocal (localSlot base)] := by
      refine storeLocal ?_
      rw [toNat_localSlot hlt]
      exact hC
    exact (of_computes count.computes_code).append (.cons rfl hstore)
  | forever | «until» c | «while» c | waitUntil c => exact .nil

theorem testCode {i : Imports} {kind : LoopKind} {base rest : Nat}
    (hbase : kind.slots = 1 → base < 65535 ∧ ¬ C base) : TidyIn C (kind.testCode i base rest) := by
  cases kind with
  | times count =>
    obtain ⟨hlt, hC⟩ := hbase rfl
    refine ⟨fun hmem => ?_, fun hmem => ?_, fun hn => ?_⟩
    · cases List.mem_singleton.mp hmem
    · cases List.mem_singleton.mp hmem
      rw [toNat_localSlot hlt]
      exact hC
    · cases List.mem_singleton.mp (List.mem_of_getElem? hn)
  | forever => exact .nil
  | «until» c | «while» c | waitUntil c =>
    exact (of_computes c.computes_conditionCode).append (.cons rfl .nil)

theorem deadlineStart {s : CodeSettings} {warpSafe : Bool} {slot : Nat} :
    TidyIn C (Stmt.deadlineStart s warpSafe slot) := by
  unfold Stmt.deadlineStart
  split
  · refine ⟨fun hmem => by simp at hmem, fun hmem => by simp at hmem, fun {n c} hn _ => ?_⟩
    rcases n with _ | _ | n
    · cases hn
    · exact ⟨0, rfl, rfl⟩
    · cases hn
  · exact .nil

theorem roundEnd {s : CodeSettings} {warpSafe : Bool} {slot : Nat} {interval : UInt32}
    (hslot : s.checksDeadline warpSafe = true → slot < 65535 ∧ C slot) :
    TidyIn C (Stmt.roundEnd s warpSafe slot interval) := by
  unfold Stmt.roundEnd
  split
  · next hwarp =>
    split
    · next htimer =>
      obtain ⟨hlt, hC⟩ := hslot (by rw [CodeSettings.checksDeadline, hwarp, htimer]; rfl)
      refine ⟨fun hmem => ?_, fun hmem => ?_, fun hn => ?_⟩
      · cases List.mem_singleton.mp hmem
        rw [toNat_localSlot hlt]
        exact hC
      · cases List.mem_singleton.mp hmem
      · cases List.mem_singleton.mp (List.mem_of_getElem? hn)
    · exact .nil
  · exact .cons rfl .nil

end TidyIn

namespace Stmt

variable {s : CodeSettings} {i : Imports} {C : Nat → Prop}

mutual

/-- **The code of a statement counts in the slots of its own loops only.** -/
theorem tidyIn_code : ∀ {base : Nat} (t : Stmt), base + slots s t ≤ 65535 →
    (∀ n, base ≤ n → n < base + slots s t → (C n ↔ n ∈ watchSlots s base t)) →
    TidyIn C (code s i base t)
  | base, .branch c yes no, hslots, hC => by
    simp only [slots, watchSlots, List.mem_append] at hslots hC
    have hcondition : TidyIn C (c.conditionCode i) := .of_computes c.computes_conditionCode
    have hyes : TidyIn C (allCode s i base yes) := by
      refine tidyIn_allCode yes (by omega) fun n hlo hhi => ?_
      rw [hC n hlo (by omega)]
      refine or_iff_left fun hn => ?_
      have hbounds := allWatchSlots_bounds hn
      omega
    have hno : TidyIn C (allCode s i (base + allSlots s yes) no) := by
      refine tidyIn_allCode no (by omega) fun n hlo hhi => ?_
      rw [hC n (by omega) (by omega)]
      refine or_iff_right fun hn => ?_
      have hbounds := allWatchSlots_bounds hn
      omega
    rw [code]
    split
    · exact hcondition.append (.cons rfl hyes)
    · exact (hcondition.append (.cons rfl hyes)).append (.cons rfl hno)
  | base, .loop kind body warpSafe interval, hslots, hC => by
    simp only [slots, watchSlots, List.mem_append] at hslots hC
    have hbody : TidyIn C (allCode s i (base + kind.slots + s.deadlineSlots warpSafe) body) := by
      refine tidyIn_allCode body (by omega) fun n hlo hhi => ?_
      rw [hC n (by omega) (by omega)]
      refine or_iff_right fun hn => ?_
      rw [CodeSettings.deadlineSlots] at hlo
      split at hn
      · next hchecks =>
        rw [if_pos hchecks] at hlo
        cases List.mem_singleton.mp hn
        omega
      · cases hn
    have hcount : kind.slots = 1 → base < 65535 ∧ ¬ C base := by
      intro hone
      refine ⟨by omega, fun hbase => ?_⟩
      rcases (hC base (Nat.le_refl _) (by omega)).mp hbase with hn | hn
      · split at hn
        · have heq := List.mem_singleton.mp hn
          omega
        · cases hn
      · have hbounds := allWatchSlots_bounds hn
        omega
    have hend : TidyIn C (roundEnd s warpSafe (base + kind.slots) interval) := by
      refine TidyIn.roundEnd fun hchecks => ?_
      rw [CodeSettings.deadlineSlots, if_pos hchecks] at hslots
      refine ⟨by omega, (hC _ (by omega) ?_).mpr (Or.inl ?_)⟩
      · rw [CodeSettings.deadlineSlots, if_pos hchecks]
        omega
      · rw [if_pos hchecks]
        exact List.mem_singleton.mpr rfl
    rw [code]
    exact ((((TidyIn.countCode hcount).append .deadlineStart).append (.testCode hcount)).append
      (hbody.append hend)).append (.cons rfl .nil)
  | base, .call key args yieldFirst, _, _ => by
    have hargs : TidyIn C (Expr.allCode i args) := .of_computes (Expr.computes_allCode args)
    have hyield : TidyIn C (if yieldFirst then [.yield .soft] else []) := by
      split
      · exact .cons rfl .nil
      · exact .nil
    exact (hyield.append hargs).append (.cons rfl .nil)
  | base, .set name e, _, _ => (TidyIn.of_computes e.computes_code).append (.cons rfl .nil)
  | base, .change name e, _, _ =>
    .cons rfl ((TidyIn.of_computes e.computes_code).append (.cons rfl (.cons rfl .nil)))
  | base, .wait e, _, _ =>
    (TidyIn.of_computes e.computes_code).append
      (.cons rfl (.cons rfl (.cons rfl (.cons rfl .nil))))
  | base, .host opcode args, _, _ =>
    (TidyIn.of_computes (Expr.computes_allCode args)).append (.cons rfl (.cons rfl .nil))
  | base, .done, _, _ => .cons rfl .nil
  | base, .escape block opcode inputs, _, _ =>
    (TidyIn.of_computes (Expr.computes_inputCode inputs)).append (.cons rfl (.cons rfl .nil))

theorem tidyIn_allCode : ∀ {base : Nat} (ts : List Stmt), base + allSlots s ts ≤ 65535 →
    (∀ n, base ≤ n → n < base + allSlots s ts → (C n ↔ n ∈ allWatchSlots s base ts)) →
    TidyIn C (allCode s i base ts)
  | base, [], _, _ => .nil
  | base, t :: ts, hslots, hC => by
    simp only [allSlots, allWatchSlots, List.mem_append] at hslots hC
    rw [allCode]
    refine TidyIn.append (tidyIn_code t (by omega) fun n hlo hhi => ?_)
      (tidyIn_allCode ts (by omega) fun n hlo hhi => ?_)
    · rw [hC n hlo (by omega)]
      refine or_iff_left fun hn => ?_
      have hbounds := allWatchSlots_bounds hn
      omega
    · rw [hC n (by omega) (by omega)]
      refine or_iff_right fun hn => ?_
      have hbounds := watchSlots_bounds hn
      omega

end

end Stmt

/-! ## Linked routines -/

namespace Linked

/-- The routine counts towards the deadline in the slot. -/
def Counts (l : Linked) (n : Nat) : Prop :=
  ∃ c k, .checkDeadline c k ∈ l.image.ops ∧ c.toNat = n

/-- The slots in which the routine counts are used for nothing else: no counted loop counts its
rounds there, and a value is stored there only right after a zero has been put on the stack. Jumps
do not lead between the two. -/
structure KeepsCount (l : Linked) : Prop where
  countdown : ∀ {c e}, .countdown c e ∈ l.image.ops → ¬ l.Counts c.toNat
  store : ∀ {pc : Nat} {c}, l.image.ops[pc]? = some (.storeLocal c) → l.Counts c.toNat →
    ∃ m, pc = m + 1 ∧ l.image.ops[m]? = some (.push (.number .zero))
  jump : ∀ {pc target : Nat} {op : Instr} {offset c}, l.image.ops[pc]? = some op →
    op.jumpOffset? = some offset → (pc : Int) + offset.toInt = target →
    l.image.ops[target]? ≠ some (.storeLocal c)

/-- **The slots in which a compiled routine counts are used for nothing else.** -/
theorem keepsCount_of_compile {t : Target} {warp : Bool} {r : Routine} {p : Program}
    {config : CompilerConfig} {l : Linked} (h : r.compile p config = .ok l.image)
    (hproper : ∀ n ∈ Stmt.allNodes r.stack, n.ProperIn t warp r.arguments) : l.KeepsCount := by
  obtain ⟨himage, hfits⟩ := Routine.fitsImage_of_compile h hproper
  have hops : l.image.ops = r.code config := by rw [himage]; rfl
  have htidy : TidyIn (· ∈ Stmt.allWatchSlots (r.settings config) 0 r.stack) l.image.ops := by
    rw [hops, Routine.code]
    refine TidyIn.append (Stmt.tidyIn_allCode r.stack ?_ fun _ _ _ => Iff.rfl) (.cons rfl .nil)
    rw [Nat.zero_add]
    exact hfits.slots
  have hcounts : ∀ {n}, l.Counts n → n ∈ Stmt.allWatchSlots (r.settings config) 0 r.stack := by
    rintro n ⟨c, k, hmem, rfl⟩
    exact htidy.check hmem
  refine ⟨fun hmem hc => htidy.countdown hmem (hcounts hc),
    fun hop hc => htidy.store hop (hcounts hc), ?_⟩
  intro pc target op offset c hop hoffset htarget hstore
  -- A value is on the stack where it is stored, and none where a jump leads to.
  rw [hops] at hop hstore
  obtain ⟨target', htarget', -, hempty, -⟩ := (hfits.fine pc op hop).jump offset hoffset
  obtain rfl : target' = target := by omega
  have hnumber := (hfits.fine target' _ hstore).operands.2
  rw [hempty] at hnumber
  cases hnumber

end Linked

/-! ## The invariant -/

/-- The slots in which the routine counts hold natural numbers, which are not too large to be
counted on. -/
def Linked.CountsIn (l : Linked) (locals : List Value) : Prop :=
  ∀ n, l.Counts n → ∀ v, locals[n]? = some v → ∃ j, v = .number (.ofNat j) ∧ j < 4294967296

namespace Linked.CountsIn

variable {l : Linked} {locals : List Value}

theorem set (h : l.CountsIn locals) {n : Nat} {v : Value}
    (hv : l.Counts n → n < locals.length → ∃ j, v = .number (.ofNat j) ∧ j < 4294967296) :
    l.CountsIn (locals.set n v) := by
  intro m hm u hu
  by_cases heq : n = m
  · subst heq
    have hlt : n < locals.length := by simpa using (List.getElem?_eq_some_iff.mp hu).1
    rw [List.getElem?_set_self hlt] at hu
    cases hu
    exact hv hm hlt
  · rw [List.getElem?_set_ne heq] at hu
    exact h m hm u hu

theorem zero : ∃ j, Value.number .zero = .number (.ofNat j) ∧ j < 4294967296 :=
  ⟨0, by rw [Number.ofNat_zero], by decide⟩

end Linked.CountsIn

/-- **If a loop does not look at the deadline yet, it has counted one round more**, and there are
fewer than its interval. -/
theorem Number.add_one_of_early {j k : Nat} (hj : j < 4294967296)
    (hearly : (Number.ofNat k).le ((Value.number (.ofNat j)).toNumber.add 1) = false) :
    j + 1 < k ∧ (Value.number (.ofNat j)).toNumber.add 1 = .ofNat (j + 1) := by
  have h53 : Nat.pow 2 53 = 9007199254740992 := by decide
  have hcount : (Value.number (.ofNat j)).toNumber.add 1 = .ofNat (j + 1) := by
    rw [Value.toNumber_ofNat (by omega), Number.ofNat_add_one (by omega)]
  refine ⟨?_, hcount⟩
  by_contra hle
  rw [hcount, Number.le_ofNat (Nat.le_of_not_lt hle) (by omega)] at hearly
  cases hearly

namespace Frame

/-- The slots in which the frame's routine counts hold small natural numbers, and where a value is
about to be stored there it is zero. -/
structure Counting (f : Frame) : Prop extends f.Confined where
  small : f.routine.CountsIn f.locals.toList
  fresh : ∀ c, f.routine.image.ops[f.pc]? = some (.storeLocal c) → f.routine.Counts c.toNat →
    f.stack.back? = some (.number .zero)

namespace Counting

variable {f f' : Frame} {op : Instr}

theorem start (l : Linked) (args : List Value) (hl : l.KeepsCount) :
    (Frame.start l args).Counting where
  toConfined := .start l args
  small := by
    intro n _ v hv
    rw [Frame.start, Array.toList_replicate, List.getElem?_replicate] at hv
    split at hv
    · cases hv
      exact Linked.CountsIn.zero
    · cases hv
  fresh := by
    intro c hop hc
    obtain ⟨m, hm, -⟩ := hl.store hop hc
    cases hm

/-- At the next instruction nothing is about to be stored, unless a zero has been put on the
stack. -/
theorem fresh_next (hl : f.routine.KeepsCount) (hop : f.routine.image.ops[f.pc]? = some op)
    (hpush : ∀ v, op = .push v → f'.stack.back? = some v) {c : UInt16}
    (hstore : f.routine.image.ops[f.pc + 1]? = some (.storeLocal c))
    (hc : f.routine.Counts c.toNat) :
    f'.stack.back? = some (.number .zero) := by
  obtain ⟨m, hm, hzero⟩ := hl.store hstore hc
  obtain rfl : f.pc = m := by omega
  rw [hop] at hzero
  exact hpush _ (Option.some.inj hzero)

/-- What an instruction leads to. -/
theorem leads (hf : f.Counting) (hl : f.routine.KeepsCount)
    (hop : f.routine.image.ops[f.pc]? = some op) {pc : Nat} {locals : List Value}
    (hleads : op.Leads f.pc f.locals.toList pc locals)
    (hpush : ∀ v, op = .push v → f'.stack.back? = some v)
    (hstore : ∀ c v, op = .storeLocal c → locals[c.toNat]? = some v → f.stack.back? = some v) :
    f.routine.CountsIn locals ∧ ∀ c, f.routine.image.ops[pc]? = some (.storeLocal c) →
      f.routine.Counts c.toNat → f'.stack.back? = some (.number .zero) := by
  have hmem : op ∈ f.routine.image.ops := List.mem_of_getElem? hop
  cases hleads with
  | falls => exact ⟨hf.small, fun c => fresh_next hl hop hpush⟩
  | jumps hoffset htarget =>
    exact ⟨hf.small, fun c hstored => absurd hstored (hl.jump hop hoffset htarget)⟩
  | @stores c v =>
    refine ⟨hf.small.set fun hc hlt => ?_, fun c => fresh_next hl hop hpush⟩
    -- The stored value is the zero on top of the stack.
    have hback := hstore c v rfl (List.getElem?_set_self hlt)
    rw [hf.fresh c hop hc] at hback
    cases hback
    exact Linked.CountsIn.zero
  | counts =>
    exact ⟨hf.small.set fun hc _ => absurd hc (hl.countdown hmem), fun c => fresh_next hl hop hpush⟩
  | @early c v _ k _ hv hearly =>
    refine ⟨hf.small.set fun _ _ => ?_, fun c => fresh_next hl hop hpush⟩
    obtain ⟨j, rfl, hj⟩ := hf.small _ ⟨c, k, hmem, rfl⟩ v hv
    obtain ⟨hlt, hcount⟩ := Number.add_one_of_early hj hearly
    rw [hcount]
    have hk := UInt32.toNat_lt k
    exact ⟨j + 1, rfl, by omega⟩

/-- The slot of an instruction that stores is there. -/
theorem slot (hf : f.Counting) {c : UInt16}
    (hop : f.routine.image.ops[f.pc]? = some (.storeLocal c)) : c.toNat < f.locals.size := by
  rw [hf.slots]
  exact Image.lt_of_indexFlaw? (Linked.flawless hop).2

theorem of_isAt (hconfined : f'.Confined) {pc : Nat} {locals : List Value}
    (hat : f.IsAt f' pc locals) (hsmall : f.routine.CountsIn locals)
    (hfresh : ∀ c, f.routine.image.ops[pc]? = some (.storeLocal c) →
      f.routine.Counts c.toNat → f'.stack.back? = some (.number .zero)) : f'.Counting := by
  refine ⟨hconfined, ?_, ?_⟩
  · rw [hat.routine, hat.locals]
    exact hsmall
  · rw [hat.routine, hat.pc]
    exact hfresh

/-- **An instruction keeps the counts of its frame.** -/
theorem executes {σ : Type} {h : Host σ} {s : Setting} {callers : List Frame} {w : World σ}
    (hf : f.Counting) (hl : f.routine.KeepsCount) (hop : f.routine.image.ops[f.pc]? = some op)
    (hconfined : f'.Confined) {effect : Effect} (hexec : f.Executes h s callers w op f' effect) :
    f'.Counting := by
  cases hexec with
  | fails hat _ hstack =>
    refine of_isAt hconfined hat hf.small fun c hstored hc => ?_
    rw [hop] at hstored
    obtain rfl := Option.some.inj hstored
    rw [hstack c rfl (hf.slot hop)]
    exact hf.fresh c hop hc
  | waits hat hstore =>
    refine of_isAt hconfined hat hf.small fun c hstored _ => ?_
    rw [hop] at hstored
    exact absurd (Option.some.inj hstored) (hstore c)
  | moves hleads hat _ _ hpush hstore =>
    obtain ⟨hsmall, hfresh⟩ := hf.leads hl hop hleads hpush hstore
    exact of_isAt hconfined hat hsmall hfresh
  | asks _ _ hat =>
    exact of_isAt hconfined hat (hf.small.set fun _ _ => Linked.CountsIn.zero) fun c =>
      fresh_next hl hop (by simp)
  | yields hat | enters hat =>
    exact of_isAt hconfined hat hf.small fun c => fresh_next hl hop (by simp)
  | leaves => exact hf

end Counting

/-- **Counts are kept in every frame that a thread ever has**, if all its routines keep them. -/
def counting (s : Setting) {R : Linked → Prop}
    (hvariants : ∀ k l, s.variants.find? k = some l → R l) (hkeeps : ∀ l, R l → l.KeepsCount) :
    FrameInvariant s where
  Holds f := f.Counting ∧ R f.routine
  Admits _ _ := True
  exec := by
    rintro σ h callers w f ⟨hf, hroutine⟩ hnone
    obtain ⟨op, hop⟩ : ∃ op, f.routine.image.ops[f.pc]? = some op :=
      ⟨_, List.getElem?_eq_getElem hf.inside⟩
    have hconfined := hf.toConfined.exec (w := w) hnone hop h s callers
    have hexec := executes_exec h s callers w f op
    refine ⟨op, by rw [f.routine.code_eq, List.getElem?_toArray, hop], ?_⟩
    generalize f.exec h s callers w op = r at hconfined hexec
    obtain ⟨f', w', effect⟩ := r
    have hkept : f'.Confined → f'.Counting ∧ R f'.routine := by
      intro hf'
      refine ⟨hf.executes (hkeeps _ hroutine) hop hf' hexec, ?_⟩
      rw [hexec.routine]
      exact hroutine
    cases effect with
    | next | nextUnlessStopped | suspend => exact hkept hconfined
    | leave => trivial
    | fail fault => exact ⟨hkept hconfined.1, trivial⟩
    | enter callee args =>
      obtain ⟨key, -, hfind⟩ := hexec.exists_variant
      have hcallee := hvariants key callee hfind
      exact ⟨hkept hconfined.1, .start callee args (hkeeps callee hcallee), hcallee⟩
  resume := by
    rintro f id v ⟨hf, hroutine⟩ hid
    obtain ⟨i, argc, hop⟩ := hf.waiting (by rw [hid]; rfl)
    refine ⟨?_, hroutine⟩
    exact .of_isAt ((confinement s).resume v hf.toConfined hid) ⟨rfl, rfl, rfl⟩ hf.small
      fun c => Counting.fresh_next (hkeeps _ hroutine) hop (by simp)

end Frame

end BlockScript
