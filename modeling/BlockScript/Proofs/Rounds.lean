import BlockScript.Proofs.Counters

/-!
# Rounds come to an end

A piece of code is *passed* if every way through it comes to its end, gives way or leaves the
routine, however often it goes round in loops on its way (`Linked.Passage`). Code without loops is
passed because it leads forward only. A loop that gives way after each round is passed because it
does so. A loop that looks at the deadline is passed because it counts its rounds: each one leaves
fewer of them until the next look, and the loops in its body count in other slots.

Main statement: in the code of a compiled routine every way from every position comes to an end, if
each of its loops gives way or looks at the deadline (`Linked.settles_of_compile`).
-/

namespace BlockScript

/-! ## Ways through code -/

namespace Instr

/-- The instruction leads to the next one, with the slots as they are, or nowhere. -/
def onward : Instr → Bool
  | .storeLocal _ | .jump _ | .jumpIfFalse _ | .jumpIfTrue _ | .countdown _ _
  | .checkDeadline _ _ => false
  | _ => true

variable {op : Instr} {pc pc' : Nat} {locals locals' : List Value}

theorem onward_of_computes {piece : List Instr} (h : ∀ op ∈ piece, op.computes = true) :
    ∀ op ∈ piece, op.onward = true := by
  intro op hop
  have hcomputes := h op hop
  cases op with
  | storeLocal | jump | jumpIfFalse | jumpIfTrue | countdown | checkDeadline => cases hcomputes
  | _ => rfl

theorem jumpOffset?_of_onward (h : op.onward = true) : op.jumpOffset? = none := by
  cases op with
  | jump | jumpIfFalse | jumpIfTrue | countdown => cases h
  | _ => rfl

theorem Leads.of_onward (hleads : op.Leads pc locals pc' locals') (h : op.onward = true) :
    pc' = pc + 1 ∧ locals' = locals := by
  cases hleads with
  | falls => exact ⟨rfl, rfl⟩
  | jumps hoffset =>
    rw [Instr.jumpOffset?_of_onward h] at hoffset
    cases hoffset
  | stores | counts | early => cases h

end Instr

namespace Linked

/-- Every way from the position comes to an end, with these values in the slots. It is enough that
this is so if the routine counts in its slots as it should. -/
inductive Settles (l : Linked) : (pc : Nat) → (locals : List Value) → Prop
  | intro {pc locals} : (∀ {op pc' locals'}, l.CountsIn locals → l.image.ops[pc]? = some op →
    op.Leads pc locals pc' locals' → Settles l pc' locals') → Settles l pc locals

variable {l : Linked} {op : Instr} {pc : Nat} {locals : List Value}

namespace Settles

theorem of_countsIn (h : l.CountsIn locals → l.Settles pc locals) : l.Settles pc locals := by
  refine .intro fun hcounts hop hleads => ?_
  cases h hcounts with
  | intro hnext => exact hnext hcounts hop hleads

theorem of_op (hop : l.image.ops[pc]? = some op)
    (h : ∀ {pc' locals'}, op.Leads pc locals pc' locals' → l.Settles pc' locals') :
    l.Settles pc locals := by
  refine .intro fun _ hop' hleads => ?_
  rw [hop] at hop'
  cases hop'
  exact h hleads

/-- A jump that is always taken. -/
theorem of_jump {offset : Int32} (hop : l.image.ops[pc]? = some (.jump offset)) {target : Nat}
    (htarget : (pc : Int) + offset.toInt = target) (h : l.Settles target locals) :
    l.Settles pc locals := by
  refine of_op hop fun hleads => ?_
  cases hleads with
  | falls hfalls => cases hfalls
  | jumps hoffset htarget' =>
    cases hoffset
    obtain rfl := Int.natCast_inj.mp (htarget.symm.trans htarget')
    exact h

end Settles

/-- Every way from one position to another one gets there or comes to an end before. On the way only
the slots from `lo` to `hi` change. -/
structure Passage (l : Linked) (a b lo hi : Nat) : Prop where
  le : a ≤ b
  settles : ∀ {locals}, (∀ {locals'}, AgreeOutside lo hi locals locals' → l.Settles b locals') →
    ∀ pc, a ≤ pc → pc ≤ b → l.Settles pc locals

namespace Passage

variable {a b c lo hi lo' hi' : Nat}

theorem refl : l.Passage a a lo hi where
  le := Nat.le_refl a
  settles h pc hlo hhi := by
    obtain rfl : pc = a := Nat.le_antisymm hhi hlo
    exact h .refl

theorem trans (h : l.Passage a b lo hi) (h' : l.Passage b c lo hi) : l.Passage a c lo hi where
  le := Nat.le_trans h.le h'.le
  settles hc pc hlo hhi := by
    rcases Nat.le_total b pc with hb | hb
    · exact h'.settles hc pc hb hhi
    · refine h.settles (fun hagree => ?_) pc hlo hb
      exact h'.settles (fun hagree' => hc (hagree.trans hagree')) b (Nat.le_refl b) h'.le

theorem mono (h : l.Passage a b lo hi) (hlo : lo' ≤ lo) (hhi : hi ≤ hi') :
    l.Passage a b lo' hi' where
  le := h.le
  settles hb := h.settles fun hagree => hb (hagree.mono hlo hhi)

/-- One instruction that leads to the next one only. -/
theorem one (hop : l.image.ops[a]? = some op)
    (hleads : ∀ {locals pc' locals'}, op.Leads a locals pc' locals' →
      pc' = a + 1 ∧ AgreeOutside lo hi locals locals') : l.Passage a (a + 1) lo hi where
  le := Nat.le_succ a
  settles h pc hlo hhi := by
    rcases Nat.eq_or_lt_of_le hhi with rfl | hlt
    · exact h .refl
    · obtain rfl : pc = a := by omega
      refine .of_op hop fun hlead => ?_
      obtain ⟨rfl, hagree⟩ := hleads hlead
      exact h hagree

theorem storeLocal {slot : Nat} (hop : l.image.ops[a]? = some (.storeLocal (localSlot slot)))
    (hslot : slot < 65535) (hlo : lo ≤ slot) (hhi : slot < hi) : l.Passage a (a + 1) lo hi := by
  refine one hop fun hleads => ?_
  cases hleads with
  | falls hfalls => cases hfalls
  | jumps hoffset => cases hoffset
  | stores =>
    rw [toNat_localSlot hslot]
    exact ⟨rfl, .set hlo hhi _⟩

/-- **Code that leads onward only is passed.** -/
theorem of_onward : ∀ {piece : List Instr} {a : Nat}, CodeAt l.image.ops a piece →
    (∀ op ∈ piece, op.onward = true) → l.Passage a (a + piece.length) lo hi
  | [], _, _, _ => .refl
  | op :: piece, a, hat, honward => by
    obtain ⟨hop, hpiece⟩ := List.forall_mem_cons.mp honward
    have hone : l.Passage a (a + 1) lo hi := by
      refine one hat.head fun hleads => ?_
      obtain ⟨rfl, rfl⟩ := hleads.of_onward hop
      exact ⟨rfl, .refl⟩
    have hrest := of_onward hat.tail hpiece
    rw [List.length_cons, Nat.add_comm piece.length, ← Nat.add_assoc]
    exact hone.trans hrest

theorem of_computes {piece : List Instr} (hat : CodeAt l.image.ops a piece)
    (h : ∀ op ∈ piece, op.computes = true) : l.Passage a (a + piece.length) lo hi :=
  of_onward hat (Instr.onward_of_computes h)

end Passage

end Linked

/-! ## Conditions and branches -/

theorem AgreeOutside.eq {n : Nat} {as bs : List Value} (h : AgreeOutside n n as bs) : bs = as :=
  List.ext_getElem? fun m => h.same m (by omega)

section

variable {l : Linked} {s : CodeSettings} {i : Imports} {a base pc : Nat} {locals : List Value}

/-- A condition and a jump on it. -/
theorem Expr.settles_conditionJump (c : Expr) {op : Instr} {n : Nat}
    (hat : CodeAt l.image.ops a (c.conditionCode i ++ [op]))
    (hop : op = .jumpIfFalse (forward n) ∨ op = .jumpIfTrue (forward n)) (hn : n < 2147483648)
    (hnext : l.Settles (a + c.conditionSize + 1) locals)
    (htarget : l.Settles (a + c.conditionSize + n) locals) (hlo : a ≤ pc)
    (hhi : pc ≤ a + c.conditionSize) : l.Settles pc locals := by
  have hat' := Expr.length_conditionCode i c ▸ hat.right
  have hlast : l.Settles (a + c.conditionSize) locals := by
    refine .of_op hat'.head fun hleads => ?_
    rcases hop with rfl | rfl
    all_goals
      cases hleads with
      | falls => exact hnext
      | jumps hoffset htarget' =>
        cases hoffset
        rw [toInt_forward hn] at htarget'
        obtain rfl := Int.natCast_inj.mp htarget'
        exact htarget
  have hcode : l.Passage a _ 0 0 := .of_computes hat.left c.computes_conditionCode
  rw [Expr.length_conditionCode] at hcode
  refine hcode.settles (fun hagree => ?_) pc hlo hhi
  rw [hagree.eq]
  exact hlast

namespace Stmt

/-- A branch is passed if both its stacks are. -/
theorem passage_branch {c : Expr} {yes no : List Stmt}
    (hat : CodeAt l.image.ops a (Stmt.code s i base (.branch c yes no)))
    (hmeets : ∀ d ∈ demands s base (.branch c yes no), i.Meets d)
    (hyes : ∀ {b}, CodeAt l.image.ops b (allCode s i base yes) →
      l.Passage b (b + allSize s yes) base (base + allSlots s yes))
    (hno : no.isEmpty = false → ∀ {b},
      CodeAt l.image.ops b (allCode s i (base + allSlots s yes) no) →
      l.Passage b (b + allSize s no) (base + allSlots s yes)
        (base + allSlots s yes + allSlots s no)) :
    l.Passage a (a + size s (.branch c yes no)) base (base + slots s (.branch c yes no)) := by
  simp only [demands, List.forall_mem_append] at hmeets
  simp only [size, slots]
  cases hempty : no.isEmpty with
  | true =>
    obtain ⟨hcond, hyesAt⟩ := branchAt_of_isEmpty hempty hat
    simp only [hempty, if_true, Nat.add_zero] at hmeets ⊢
    refine ⟨by omega, fun {locals} hend pc hlo hhi => ?_⟩
    simp only [← Nat.add_assoc] at hend hhi
    have hpass := hyes hyesAt
    have hthen := hpass.settles fun hagree => hend (hagree.mono (Nat.le_refl base) (by omega))
    rcases Nat.lt_or_ge pc (a + c.conditionSize + 1) with hin | hout
    · have htarget : l.Settles (a + c.conditionSize + (allSize s yes + 1)) locals := by
        rw [Nat.add_comm (allSize s yes), ← Nat.add_assoc]
        exact hend .refl
      exact c.settles_conditionJump hcond (Or.inl rfl) (hmeets.2 _ (List.mem_singleton.mpr rfl))
        (hthen _ (Nat.le_refl _) hpass.le) htarget hlo (by omega)
    · exact hthen pc hout hhi
  | false =>
    obtain ⟨hcond, hyesAt, hoverAt, hnoAt⟩ := branchAt_of_not_isEmpty hempty hat
    simp only [hempty, Bool.false_eq_true, if_false, List.forall_mem_cons, List.forall_mem_append]
      at hmeets ⊢
    obtain ⟨-, hmeetsJump, -, hmeetsOver⟩ := hmeets
    have hover : allSize s no + 1 < 2147483648 := hmeetsOver.1
    refine ⟨by omega, fun {locals} hend pc hlo hhi => ?_⟩
    simp only [← Nat.add_assoc] at hend hhi
    have hpass := hyes hyesAt
    have hpass' := hno hempty hnoAt
    have helse := hpass'.settles fun hagree => hend (hagree.mono (by omega) (Nat.le_refl _))
    -- The end of the first stack leads over the second one.
    have hskip : ∀ {locals'}, AgreeOutside base (base + allSlots s yes) locals locals' →
        l.Settles (a + c.conditionSize + 1 + allSize s yes) locals' := fun hagree => by
      refine .of_jump hoverAt ?_ (hend (hagree.mono (Nat.le_refl base) (by omega)))
      rw [toInt_forward hover]
      omega
    have hthen := hpass.settles hskip
    rcases Nat.lt_or_ge pc (a + c.conditionSize + 1) with hin | hout
    · have hpast : a + c.conditionSize + 1 + allSize s yes + 1
          = a + c.conditionSize + (allSize s yes + 2) := by omega
      have htarget : l.Settles (a + c.conditionSize + (allSize s yes + 2)) locals :=
        hpast ▸ helse _ (Nat.le_refl _) hpass'.le
      exact c.settles_conditionJump hcond (Or.inl rfl) hmeetsJump
        (hthen _ (Nat.le_refl _) hpass.le) htarget hlo (by omega)
    · rcases Nat.lt_or_ge (a + c.conditionSize + 1 + allSize s yes) pc with hafter | hbefore
      · exact helse pc hafter (by omega)
      · exact hthen pc hout hbefore

end Stmt

end

/-! ## Loops -/

section

variable {l : Linked} {s : CodeSettings} {i : Imports} {a base pc : Nat} {locals : List Value}

/-- What a loop does before its rounds is passed. -/
theorem LoopKind.passage_count (kind : LoopKind)
    (hat : CodeAt l.image.ops a (kind.countCode i base))
    (hmeets : ∀ d ∈ kind.countDemands base, i.Meets d) :
    l.Passage a (a + kind.countSize) base (base + kind.slots) := by
  cases kind with
  | times count =>
    have hslot : base < 65535 := hmeets (.slot base) (by simp [countDemands])
    have hcount : CodeAt l.image.ops (a + count.size)
        ([i.callSupport .repeatCount 1] ++ [.storeLocal (localSlot base)]) :=
      Expr.length_code i count ▸ hat.right
    have hcode : l.Passage a _ base (base + 1) := .of_computes hat.left count.computes_code
    have hcall : l.Passage (a + count.size) _ base (base + 1) :=
      .of_onward hcount.left (List.forall_mem_singleton.mpr rfl)
    rw [Expr.length_code] at hcode
    exact (hcode.trans hcall).trans
      (.storeLocal hcount.tail.head hslot (Nat.le_refl base) (Nat.lt_succ_self base))
  | forever | «until» c | «while» c | waitUntil c => exact .refl

/-- The test before a round of `round` instructions leads to the round or to the end of the loop. -/
theorem LoopKind.settles_test (kind : LoopKind) {round : Nat}
    (hat : CodeAt l.image.ops a (kind.testCode i base (round + 1)))
    (hcount : ∀ d ∈ kind.countDemands base, i.Meets d)
    (hexit : ∀ d ∈ kind.exitDemands round, i.Meets d)
    (hround : ∀ {locals'}, AgreeOutside base (base + kind.slots) locals locals' →
      l.Settles (a + kind.testSize) locals')
    (hend : l.Settles (a + kind.testSize + round + 1) locals) (hlo : a ≤ pc)
    (hhi : pc ≤ a + kind.testSize) : l.Settles pc locals := by
  rcases Nat.eq_or_lt_of_le hhi with rfl | hlt
  · exact hround .refl
  cases kind with
  | times count =>
    have hslot : base < 65535 := hcount (.slot base) (by simp [countDemands])
    have hn : round + 2 < 2147483648 := hexit _ (List.mem_singleton.mpr rfl)
    obtain rfl : pc = a := Nat.le_antisymm (Nat.le_of_lt_succ hlt) hlo
    refine .of_op hat.head fun hleads => ?_
    cases hleads with
    | falls hfalls => cases hfalls
    | jumps hoffset htarget =>
      cases hoffset
      rw [toInt_forward hn] at htarget
      have hsum : pc + (round + 2) = pc + 1 + round + 1 := by omega
      rw [← Int.natCast_inj.mp htarget, hsum]
      exact hend
    | counts =>
      rw [toNat_localSlot hslot]
      exact hround (.set (Nat.le_refl base) (Nat.lt_succ_self base) _)
  | forever => exact absurd hlo (Nat.not_le.mpr hlt)
  | «until» c | waitUntil c | «while» c =>
    have htarget : a + c.conditionSize + (round + 2) = a + (c.conditionSize + 1) + round + 1 := by
      omega
    exact c.settles_conditionJump hat (by simp) (hexit _ (List.mem_singleton.mpr rfl))
      (hround .refl) (htarget ▸ hend) hlo (Nat.le_of_lt_succ hlt)

namespace Stmt

theorem passage_deadlineStart {warpSafe : Bool} {slot : Nat}
    (hat : CodeAt l.image.ops a (deadlineStart s warpSafe slot))
    (hmeets : ∀ d ∈ if s.checksDeadline warpSafe then [Demand.slot slot] else [], i.Meets d) :
    l.Passage a (a + 2 * s.deadlineSlots warpSafe) slot (slot + s.deadlineSlots warpSafe) := by
  unfold deadlineStart at hat
  unfold CodeSettings.deadlineSlots
  split at hat
  · next hchecks =>
    rw [if_pos hchecks] at hmeets ⊢
    have hat : CodeAt l.image.ops a ([.push (.number .zero)] ++ [.storeLocal (localSlot slot)]) :=
      hat
    have hpush : l.Passage a _ slot (slot + 1) :=
      .of_onward hat.left (List.forall_mem_singleton.mpr rfl)
    exact hpush.trans (.storeLocal hat.tail.head (hmeets _ (List.mem_singleton.mpr rfl))
      (Nat.le_refl slot) (Nat.lt_succ_self slot))
  · next hchecks =>
    rw [if_neg hchecks]
    exact .refl

section

/-! ### Rounds -/

variable {kind : LoopKind} {body : List Stmt} {warpSafe : Bool} {interval : UInt32} {test : Nat}

/-- A loop whose test stands at `test` and whose body is passed. -/
structure LoopPassed (l : Linked) (a : Nat) (s : CodeSettings) (i : Imports) (base : Nat)
    (kind : LoopKind) (body : List Stmt) (warpSafe : Bool) (interval : UInt32) (test : Nat) : Prop
    extends LoopAt l.image.ops a s i base kind body warpSafe interval test
      (allSize s body + s.roundEndSize warpSafe) where
  meets : ∀ d ∈ demands s base (.loop kind body warpSafe interval), i.Meets d
  body : l.Passage (test + kind.testSize) (test + kind.testSize + allSize s body)
    (base + kind.slots + s.deadlineSlots warpSafe)
    (base + kind.slots + s.deadlineSlots warpSafe + allSlots s body)

namespace LoopPassed

/-- The test and the body lead to the end of a round or to the end of the loop, and leave the count
of rounds alone. -/
theorem settles_of_roundEnd (h : LoopPassed l a s i base kind body warpSafe interval test)
    (hround : ∀ {locals'},
      AgreeOutside base (base + slots s (.loop kind body warpSafe interval)) locals locals' →
      (s.checksDeadline warpSafe = true →
        locals'[base + kind.slots]? = locals[base + kind.slots]?) →
      l.Settles (test + kind.testSize + allSize s body) locals')
    (hend : l.Settles
      (test + kind.testSize + (allSize s body + s.roundEndSize warpSafe) + 1) locals)
    (hlo : test ≤ pc) (hhi : pc ≤ test + kind.testSize + allSize s body) : l.Settles pc locals := by
  have hmeets := h.meets
  simp only [demands, List.forall_mem_append, List.forall_mem_cons] at hmeets
  obtain ⟨⟨⟨⟨hcount, -⟩, -⟩, -⟩, -, hexit⟩ := hmeets
  rw [slots] at hround
  -- The slot of the count lies between those of the test and those of the body.
  have hbody : ∀ {locals₁}, AgreeOutside base (base + kind.slots) locals locals₁ →
      ∀ pc, test + kind.testSize ≤ pc → pc ≤ test + kind.testSize + allSize s body →
      l.Settles pc locals₁ := by
    intro locals₁ hagree
    refine h.body.settles fun hagree' => hround ?_ fun hchecks => ?_
    · exact (hagree.mono (Nat.le_refl _) (by omega)).trans (hagree'.mono (by omega) (by omega))
    · rw [CodeSettings.deadlineSlots, if_pos hchecks] at hagree'
      rw [hagree'.same _ (Or.inl (Nat.lt_succ_self _)), hagree.same _ (Or.inr (Nat.le_refl _))]
  rcases Nat.le_total pc (test + kind.testSize) with hbefore | hafter
  · exact kind.settles_test h.testAt hcount hexit
      (fun hagree => hbody hagree _ (Nat.le_refl _) h.body.le) hend hlo hbefore
  · exact hbody .refl pc hafter hhi

/-- After a round the test is made again. -/
theorem settles_back (h : LoopPassed l a s i base kind body warpSafe interval test)
    (htest : l.Settles test locals) :
    l.Settles (test + kind.testSize + (allSize s body + s.roundEndSize warpSafe)) locals := by
  have hback := h.meets (.backward (kind.testSize + (allSize s body + s.roundEndSize warpSafe)))
    (by simp [demands])
  refine .of_jump h.backAt ?_ htest
  rw [toInt_backward hback]
  omega

/-- The look at the deadline after a round. -/
theorem checkAt (h : LoopPassed l a s i base kind body warpSafe interval test)
    (hchecks : s.checksDeadline warpSafe = true) :
    base + kind.slots < 65535 ∧ s.roundEndSize warpSafe = 1
      ∧ l.image.ops[test + kind.testSize + allSize s body]?
        = some (.checkDeadline (localSlot (base + kind.slots)) (max interval 1)) := by
  have hslot := h.meets (.slot (base + kind.slots)) (by simp [demands, hchecks])
  obtain ⟨hwarp, htimer⟩ := (Bool.and_eq_true _ _).mp hchecks
  have hat := h.roundEndAt
  rw [roundEnd, if_pos hwarp, if_pos htimer] at hat
  refine ⟨hslot, ?_, hat.head⟩
  rw [CodeSettings.roundEndSize, if_pos hwarp, if_pos htimer]

/-- If the deadline is not looked at yet, one more is counted. -/
theorem settles_of_next (h : LoopPassed l a s i base kind body warpSafe interval test)
    (hchecks : s.checksDeadline warpSafe = true) {j : Nat}
    (hj : locals[base + kind.slots]? = some (.number (.ofNat j))) (hlt : j < 4294967296)
    (hnext : j + 1 < (max interval 1).toNat →
      l.Settles (test + kind.testSize + allSize s body + 1)
        (locals.set (base + kind.slots) (.number (.ofNat (j + 1))))) :
    l.Settles (test + kind.testSize + allSize s body) locals := by
  obtain ⟨hslot, -, hop⟩ := h.checkAt hchecks
  refine .of_op hop fun hleads => ?_
  cases hleads with
  | falls hfalls => cases hfalls
  | jumps hoffset => cases hoffset
  | early hv hearly =>
    rw [toNat_localSlot hslot] at hv ⊢
    rw [hj] at hv
    cases hv
    obtain ⟨hcount, hadd⟩ := Number.add_one_of_early hlt hearly
    rw [hadd]
    exact hnext hcount

/-- **A loop that counts its rounds comes to look at the deadline.** There are `left` rounds until
then at most. -/
theorem settles_check (h : LoopPassed l a s i base kind body warpSafe interval test)
    (hchecks : s.checksDeadline warpSafe = true)
    (hend : ∀ {locals'},
      AgreeOutside base (base + slots s (.loop kind body warpSafe interval)) locals locals' →
      l.Settles (test + kind.testSize + (allSize s body + s.roundEndSize warpSafe) + 1) locals')
    (left : Nat) : ∀ {j : Nat} {locals' : List Value},
      AgreeOutside base (base + slots s (.loop kind body warpSafe interval)) locals locals' →
      locals'[base + kind.slots]? = some (.number (.ofNat j)) → j < 4294967296 →
      (max interval 1).toNat ≤ j + left →
      l.Settles (test + kind.testSize + allSize s body) locals' := by
  have hslots : base + kind.slots < base + slots s (.loop kind body warpSafe interval) := by
    rw [slots, CodeSettings.deadlineSlots, if_pos hchecks]
    omega
  induction left with
  | zero =>
    intro j locals' _ hj hlt hleft
    refine h.settles_of_next hchecks hj hlt fun hcount => ?_
    omega
  | succ left ih =>
    intro j locals' hagree hj hlt hleft
    refine h.settles_of_next hchecks hj hlt fun hcount => ?_
    have hmax := UInt32.toNat_lt (max interval 1)
    have hlength := (List.getElem?_eq_some_iff.mp hj).1
    have hagree₁ := hagree.trans (.set (Nat.le_add_right _ _) hslots (.number (.ofNat (j + 1))))
    -- The test and the body keep the count, so in the next round there is one less left.
    have htest : l.Settles test _ := h.settles_of_roundEnd
      (fun hagree₂ hsame => ih (hagree₁.trans hagree₂)
        (by rw [hsame hchecks, List.getElem?_set_self hlength]) (by omega) (by omega))
      (hend hagree₁) (Nat.le_refl _) (by omega)
    have hback := h.settles_back htest
    rw [(h.checkAt hchecks).2.1, ← Nat.add_assoc] at hback
    exact hback

/-- The end of a round gives way, or looks at the deadline in time. -/
theorem settles_roundEnd (h : LoopPassed l a s i base kind body warpSafe interval test)
    (hwarp : s.warp = true → s.timer = true)
    (hend : ∀ {locals'},
      AgreeOutside base (base + slots s (.loop kind body warpSafe interval)) locals locals' →
      l.Settles (test + kind.testSize + (allSize s body + s.roundEndSize warpSafe) + 1) locals')
    {locals' : List Value}
    (hagree : AgreeOutside base (base + slots s (.loop kind body warpSafe interval))
      locals locals') :
    l.Settles (test + kind.testSize + allSize s body) locals' := by
  by_cases hruns : s.runsWarp warpSafe = true
  · have htimer := hwarp ((Bool.and_eq_true _ _).mp hruns).1
    have hchecks : s.checksDeadline warpSafe = true := (Bool.and_eq_true _ _).mpr ⟨hruns, htimer⟩
    obtain ⟨hslot, -, hop⟩ := h.checkAt hchecks
    refine .of_countsIn fun hcounts => ?_
    cases hv : locals'[base + kind.slots]? with
    | none =>
      refine .of_op hop fun hleads => ?_
      cases hleads with
      | falls hfalls => cases hfalls
      | jumps hoffset => cases hoffset
      | early hv' =>
        rw [toNat_localSlot hslot, hv] at hv'
        cases hv'
    | some v =>
      obtain ⟨j, rfl, hj⟩ := hcounts _ ⟨_, _, List.mem_of_getElem? hop, toNat_localSlot hslot⟩ v hv
      exact h.settles_check hchecks hend (max interval 1).toNat hagree hv hj (Nat.le_add_left _ _)
  · have hat := h.roundEndAt
    rw [roundEnd, if_neg hruns] at hat
    refine .of_op hat.head fun hleads => ?_
    cases hleads with
    | falls hfalls => cases hfalls
    | jumps hoffset => cases hoffset

end LoopPassed

/-- A loop is passed if its body is, and it gives way or looks at the deadline after each round. -/
theorem passage_loop (hwarp : s.warp = true → s.timer = true)
    (hat : CodeAt l.image.ops a (Stmt.code s i base (.loop kind body warpSafe interval)))
    (hmeets : ∀ d ∈ demands s base (.loop kind body warpSafe interval), i.Meets d)
    (hbody : ∀ {b},
      CodeAt l.image.ops b (allCode s i (base + kind.slots + s.deadlineSlots warpSafe) body) →
      l.Passage b (b + allSize s body) (base + kind.slots + s.deadlineSlots warpSafe)
        (base + kind.slots + s.deadlineSlots warpSafe + allSlots s body)) :
    l.Passage a (a + size s (.loop kind body warpSafe interval)) base
      (base + slots s (.loop kind body warpSafe interval)) := by
  have hloop := loopAt hat
  have h : LoopPassed l a s i base kind body warpSafe interval _ :=
    ⟨hloop, hmeets, hbody hloop.bodyAt⟩
  have hdemands := hmeets
  simp only [demands, List.forall_mem_append] at hdemands
  obtain ⟨⟨⟨⟨hcount, hdeadline⟩, -⟩, -⟩, -⟩ := hdemands
  have hslots : kind.slots + s.deadlineSlots warpSafe
      ≤ slots s (.loop kind body warpSafe interval) := by
    rw [slots]
    omega
  have hstart : l.Passage a (a + kind.countSize + 2 * s.deadlineSlots warpSafe) base
      (base + slots s (.loop kind body warpSafe interval)) :=
    ((kind.passage_count hloop.countAt hcount).mono (Nat.le_refl _) (by omega)).trans
      ((passage_deadlineStart hloop.deadlineAt hdeadline).mono (by omega) (by omega))
  refine ⟨by omega, fun {locals} hend pc hlo hhi => ?_⟩
  have hsize : a + size s (.loop kind body warpSafe interval)
      = a + kind.countSize + 2 * s.deadlineSlots warpSafe + kind.testSize
        + (allSize s body + s.roundEndSize warpSafe) + 1 := by
    rw [size]
    omega
  rw [hsize] at hend hhi
  generalize a + kind.countSize + 2 * s.deadlineSlots warpSafe = test at *
  -- From the test every way comes to the end of a round.
  have htest : ∀ {locals'},
      AgreeOutside base (base + slots s (.loop kind body warpSafe interval)) locals locals' →
      ∀ pc, test ≤ pc → pc ≤ test + kind.testSize + allSize s body → l.Settles pc locals' := by
    intro locals' hagree pc hlo hhi
    exact h.settles_of_roundEnd
      (fun hagree' _ => h.settles_roundEnd hwarp hend (hagree.trans hagree')) (hend hagree) hlo hhi
  have hagain : ∀ {locals'},
      AgreeOutside base (base + slots s (.loop kind body warpSafe interval)) locals locals' →
      l.Settles test locals' := fun hagree => htest hagree test (Nat.le_refl _) (by omega)
  rcases Nat.le_total pc test with hbefore | hafter
  · exact hstart.settles hagain pc hlo hbefore
  rcases Nat.lt_or_ge (test + kind.testSize + allSize s body) pc with hout | hround
  · rcases Nat.eq_or_lt_of_le hhi with rfl | hlt
    · exact hend .refl
    · have hone : s.roundEndSize warpSafe ≤ 1 := by
        unfold CodeSettings.roundEndSize
        split_ifs <;> simp
      obtain rfl :
          pc = test + kind.testSize + (allSize s body + s.roundEndSize warpSafe) := by omega
      exact h.settles_back (hagain .refl)
  · exact htest .refl pc hafter hround

end

/-! ## Statements and routines -/

theorem passage_of_onward {t : Stmt} (hat : CodeAt l.image.ops a (t.code s i base))
    (h : ∀ op ∈ t.code s i base, op.onward = true) :
    l.Passage a (a + t.size s) base (base + t.slots s) := by
  rw [← length_code s i base]
  exact .of_onward hat h

mutual

/-- **Every way through a statement comes to its end or ends before.** -/
theorem passage_code (hwarp : s.warp = true → s.timer = true) : ∀ (t : Stmt) {base a : Nat},
    CodeAt l.image.ops a (t.code s i base) → (∀ d ∈ t.demands s base, i.Meets d) →
    l.Passage a (a + t.size s) base (base + t.slots s)
  | .branch c yes no, base, a, hat, hmeets => by
    have hdemands := hmeets
    simp only [demands, List.forall_mem_append] at hdemands
    refine passage_branch hat hmeets (fun hat' => passage_allCode hwarp yes hat' hdemands.1.2)
      fun hempty _ hat' => ?_
    rw [hempty] at hdemands
    simp only [Bool.false_eq_true, if_false, List.forall_mem_cons, List.forall_mem_append]
      at hdemands
    exact passage_allCode hwarp no hat' hdemands.2.2.1
  | .loop kind body warpSafe interval, base, a, hat, hmeets => by
    have hdemands := hmeets
    simp only [demands, List.forall_mem_append] at hdemands
    exact passage_loop hwarp hat hmeets fun hat' => passage_allCode hwarp body hat' hdemands.1.2
  | .call key args yieldFirst, base, a, hat, _ => by
    refine passage_of_onward hat ?_
    rw [code, List.forall_mem_append, List.forall_mem_append, List.forall_mem_singleton]
    refine ⟨⟨?_, Instr.onward_of_computes (Expr.computes_allCode args)⟩, rfl⟩
    cases yieldFirst <;> simp [Instr.onward]
  | .set name e, base, a, hat, _ => by
    refine passage_of_onward hat ?_
    rw [code, List.forall_mem_append, List.forall_mem_singleton]
    exact ⟨Instr.onward_of_computes e.computes_code, rfl⟩
  | .change name e, base, a, hat, _ => by
    refine passage_of_onward hat ?_
    rw [code, List.forall_mem_cons, List.forall_mem_append]
    exact ⟨rfl, Instr.onward_of_computes e.computes_code,
      by simp [Imports.callSupport, Instr.onward]⟩
  | .wait e, base, a, hat, _ => by
    refine passage_of_onward hat ?_
    rw [code, List.forall_mem_append]
    exact ⟨Instr.onward_of_computes e.computes_code, by simp [Imports.callSupport, Instr.onward]⟩
  | .host opcode args, base, a, hat, _ => by
    refine passage_of_onward hat ?_
    rw [code, List.forall_mem_append]
    exact ⟨Instr.onward_of_computes (Expr.computes_allCode args),
      by simp [Imports.callHost, Instr.onward]⟩
  | .done, base, a, hat, _ => passage_of_onward hat (List.forall_mem_singleton.mpr rfl)
  | .escape block opcode inputs, base, a, hat, _ => by
    refine passage_of_onward hat ?_
    rw [code, List.forall_mem_append]
    exact ⟨Instr.onward_of_computes (Expr.computes_inputCode inputs), by simp [Instr.onward]⟩

theorem passage_allCode (hwarp : s.warp = true → s.timer = true) :
    ∀ (ts : List Stmt) {base a : Nat}, CodeAt l.image.ops a (allCode s i base ts) →
      (∀ d ∈ allDemands s base ts, i.Meets d) →
    l.Passage a (a + allSize s ts) base (base + allSlots s ts)
  | [], _, _, _, _ => .refl
  | t :: ts, base, a, hat, hmeets => by
    rw [allCode] at hat
    rw [allDemands, List.forall_mem_append] at hmeets
    rw [allSize, allSlots, ← Nat.add_assoc, ← Nat.add_assoc]
    have hfirst := passage_code hwarp t hat.left hmeets.1
    have hrest := passage_allCode hwarp ts (length_code s i base t ▸ hat.right) hmeets.2
    exact (hfirst.mono (Nat.le_refl _) (by omega)).trans (hrest.mono (by omega) (Nat.le_refl _))

end

end Stmt

end

/-- **In the code of a routine every way comes to an end**, if in warp its loops look at the
deadline. -/
theorem Linked.settles_of_compile {l : Linked} {r : Routine} {p : Program} {config : CompilerConfig}
    (h : r.compile p config = .ok l.image) (hwarp : r.warp = true → config.warpTimer = true)
    {pc : Nat} (hpc : pc < l.image.ops.length) (locals : List Value) : l.Settles pc locals := by
  obtain ⟨himage, -, hmeets⟩ := Routine.compile_eq_ok h
  have hops : l.image.ops = r.code config := by rw [himage]; rfl
  have hat :
      CodeAt l.image.ops 0 (Stmt.allCode (r.settings config) (r.imports config) 0 r.stack) := by
    rw [hops]
    exact .whole _ _
  have hpass := Stmt.passage_allCode hwarp r.stack hat hmeets
  rw [hops, Routine.code, List.length_append, Stmt.length_allCode, List.length_singleton] at hpc
  rw [Nat.zero_add] at hpass
  refine hpass.settles (fun _ => ?_) pc (Nat.zero_le pc) (Nat.le_of_lt_succ hpc)
  -- The last instruction leaves the routine.
  refine .of_op (hops ▸ Routine.code_getElem?_allSize) fun hleads => ?_
  cases hleads with
  | falls hfalls => cases hfalls
  | jumps hoffset => cases hoffset

end BlockScript
