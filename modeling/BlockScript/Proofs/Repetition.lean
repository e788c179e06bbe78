import BlockScript.Proofs.Countdown

/-!
# A counted loop runs as often as its count says

Main statement: `Routine.repeats_of_compile`. An activation of a counted loop is followed through
all ticks, whatever other frames do in between. In each state as many rounds have begun and ended as
the thread has passed the test and the end of the round, and `Frame.Counts` ties both numbers to
what is left of the count. So the loop can only be left when the count is used up, and with each
round there is one less to begin.

Apart from its body the loop gives way softly at the end of its rounds only: `Frame.showing` says
that each instruction shows what it can do, and the code of the loop has no other instruction that
gives way.
-/

namespace BlockScript

/-! ## One activation -/

/-- As long as the count is not computed, nothing after it is executed. -/
def Frame.preparing (s : Setting) (callers : List Frame) {image : Image}
    {a ready test close b : Nat} {c : UInt16} (hat : RepeatAt image a ready test close b c) :
    ActivationInvariant s image callers a b where
  Holds seen f := f.pc ≤ ready → ∀ m ∈ seen, ∀ pc, m.place = some (callers.length, pc) → pc ≤ ready
  enter := fun _ _ _ _ _ hm => by cases hm
  idle := by
    intro seen m f hf hm hpc m' hm' pc hplace
    rcases List.mem_append.mp hm' with hm' | hm'
    · exact hf hpc m' hm' pc hplace
    · rw [List.mem_singleton.mp hm'] at hplace
      exact absurd hplace (hm pc)
  resume := by
    intro seen f id v hf _ _ _ _ _ hpc
    have hpc : f.pc + 1 ≤ ready := hpc
    exact hf (by omega)
  exec := by
    rintro σ h w seen f op hf - rfl hlo hhi - hop hpc
    have hexec : f.Executes h s callers w op _ _ := f.executes_exec h s callers w op
    have hle : f.pc ≤ ready := by
      by_contra hgt
      rcases hexec.pc_cases with hstays | hnext | ⟨offset, hoffset, htarget⟩
      · omega
      · omega
      · have hlate := hat.target_gt hop (by omega) hhi hoffset htarget
        omega
    intro m hm pc hplace
    rcases List.mem_append.mp hm with hm | hm
    · exact hf hle m hm pc hplace
    · rw [List.mem_singleton.mp hm] at hplace
      have hpc := (Prod.mk.inj (Option.some.inj hplace)).2
      omega

namespace Timeline

variable {s : Setting} {T : Timeline s} {entry : Linked} {image : Image} {callers : List Frame}
  {a ready test close b n : Nat} {c : UInt16} {before : List Moment} {v : Value} {N : Int}

/-- The ticks go on with an activation of a loop, the count of which has just been computed. -/
structure Counted (T : Timeline s) (entry : Linked) (image : Image) (callers : List Frame)
    (a ready b : Nat) (before : List Moment) (v : Value) : Prop where
  activation : Execution.Activation s entry image callers a b (T.state 0) before
  value : ∃ f, (T.state 0).frames = f :: callers ∧ f.pc = ready ∧ f.stack.back? = some v

/-- In the state `n` the loop is active, and its rounds have been counted. -/
def Rounds (T : Timeline s) (image : Image) (callers : List Frame) (ready test close b : Nat)
    (c : UInt16) (before : List Moment) (v : Value) (N : Int) (n : Nat) : Prop :=
  ∃ inner f, (T.state n).frames = inner ++ f :: callers ∧ f.routine.image = image
    ∧ ready ≤ f.pc ∧ f.pc < b
    ∧ f.Counts ready test close c v N (T.passes callers before test n)
      (T.passes callers before close n)

/-- After the state `n` the loop is over: all rounds were begun and ended. -/
structure Over (T : Timeline s) (image : Image) (callers : List Frame) (test close b : Nat)
    (before : List Moment) (rounds n : Nat) : Prop where
  leaves : T.At image callers b (n + 1)
  started : T.passes callers before test n = rounds
  ended : T.passes callers before close n = rounds
  flow : (T.moment n).flow = .next

/-- After the state `n` the routine is left from within the body. -/
structure Returned (T : Timeline s) (image : Image) (callers : List Frame) (test close n : Nat) :
    Prop where
  frames : (T.state (n + 1)).frames = callers
  inside : ∃ pc, test < pc ∧ pc < close ∧ (T.moment n).place = some (callers.length, pc)
    ∧ image.ops[pc]? = some .ret

section

variable (hat : RepeatAt image a ready test close b c)
  (h : T.Counted entry image callers a ready b before v)
include hat h

theorem Counted.rounds_zero : T.Rounds image callers ready test close b c before v N 0 := by
  have htest := hat.test_ge
  have hclose := hat.close_gt
  have hend := hat.end_eq
  have ha := hat.ready_ge
  obtain ⟨f, hframes, hpc, hback⟩ := h.value
  obtain ⟨inner, f', hframes', himage, -, -, -, hprepared⟩ :=
    (Frame.preparing s callers hat).activation (by omega) h.activation
  have hsame : [] ++ f :: callers = inner ++ f' :: callers := hframes.symm.trans hframes'
  obtain rfl := Execution.frame_inj [] hsame
  -- Neither the test nor the end of a round has been executed yet.
  have hnone : ∀ pc, ready < pc → T.passes callers before pc 0 = 0 := by
    intro pc hlt
    rw [passes, seen, List.range_zero, List.map_nil, List.append_nil, List.length_eq_zero_iff,
      momentsAt, List.filter_eq_nil_iff]
    intro m hm hplace
    exact Nat.not_le.mpr hlt (hprepared (Nat.le_of_eq hpc) m hm pc (of_decide_eq_true hplace))
  refine ⟨[], f, hframes, himage, Nat.le_of_eq hpc.symm, by omega, ?_⟩
  rw [hnone test (by omega), hnone close (by omega)]
  exact .of_lt (by omega) (fun _ => hback) (by omega) (by omega) (by omega)

/-- **A tick of the loop.** The loop goes on, or it is over, or the routine is left. -/
theorem Counted.rounds_succ (hN : v.toNumber.round.IsWhole N) (hbound : N ≤ (Nat.pow 2 53 : Nat))
    (hn : T.Rounds image callers ready test close b c before v N n) :
    T.Rounds image callers ready test close b c before v N (n + 1)
      ∨ T.Over image callers test close b before N.toNat n
      ∨ T.Returned image callers test close n := by
  have hclose := hat.close_gt
  obtain ⟨inner, f, hframes, himage, hlo, hhi, hcounts⟩ := hn
  have hconfined := T.confined h.activation.visits n f (by rw [hframes]; simp)
  obtain ⟨σ, host, w, hstate, hmoment⟩ := T.ticks n
  have hsame : (∀ pc, ((T.state n).moment host s w).place ≠ some (callers.length, pc)) →
      ∀ pc, T.passes callers before pc (n + 1) = T.passes callers before pc n := by
    intro hplace pc
    rw [passes_succ, hmoment, if_neg (hplace pc)]
    rfl
  cases (Execution.tickOf hframes hconfined : (T.state n).TickOf host s w callers f) with
  | @idles inner' hnext hplace =>
    refine Or.inl ⟨inner', f, hstate ▸ hnext, himage, hlo, hhi, ?_⟩
    rw [hsame hplace, hsame hplace]
    exact hcounts
  | resumes u hpending hnext hplace =>
    rw [← himage] at hat
    obtain ⟨hlt, hcounts'⟩ := hcounts.resume hat hconfined hpending hlo hhi u
    refine Or.inl ⟨[], ({ f with pending := none }.push u).advance, hstate ▸ hnext, himage,
      Nat.le_succ_of_le hlo, hlt, ?_⟩
    rw [hsame hplace, hsame hplace]
    exact hcounts'
  | @acts op inner' hpending hop hact hnext habove =>
    have hplace : ∀ pc, (T.moment n).place = some (callers.length, pc) ↔ f.pc = pc := by
      intro pc
      rw [hmoment, hact]
      exact ⟨fun heq => (Prod.mk.inj (Option.some.inj heq)).2, fun heq => by rw [Frame.act, heq]⟩
    have hroutine := (f.executes_exec host s callers w op).routine
    have himage' : (f.exec host s callers w op).1.routine.image = image := by rw [hroutine, himage]
    rw [← himage] at hat
    rcases hcounts.exec hat host s callers w hN hbound hconfined hop hlo hhi with
      ⟨hpc, hstarted, hended, hpc', heffect⟩ | ⟨hlo', hhi', hcounts'⟩
    · refine Or.inr (Or.inl ⟨?_, hstarted, hended, ?_⟩)
      · obtain ⟨exit, htest, -⟩ := hat.testAt
        rw [hpc, htest] at hop
        rcases habove with rfl | ⟨i, argc, rfl⟩
        · exact ⟨_, hstate ▸ hnext, himage', hpc'⟩
        · cases hop
      · rw [hmoment, hact, Frame.act]
        dsimp only
        rw [heffect]
        rfl
    · refine Or.inl ⟨inner', _, hstate ▸ hnext, himage', hlo', hhi', ?_⟩
      simp only [passes_succ, hplace]
      exact hcounts'
  | leaves hpending hret hact hnext =>
    rw [himage] at hret
    obtain ⟨hgt, hlt⟩ := hat.inside_of_ne hret hlo hhi rfl rfl
    exact Or.inr (Or.inr ⟨hstate ▸ hnext, f.pc, hgt, hlt, by rw [hmoment, hact]; rfl, hret⟩)

/-- **As long as the loop is active, its rounds are counted.** -/
theorem Counted.rounds (hN : v.toNumber.round.IsWhole N) (hbound : N ≤ (Nat.pow 2 53 : Nat)) :
    ∀ {n : Nat}, T.Stays callers a b n → T.Rounds image callers ready test close b c before v N n
  | 0, _ => h.rounds_zero hat
  | n + 1, hstays => by
    obtain ⟨inner, f, hframes, -, hhi⟩ := hstays (n + 1) (Nat.le_refl _)
    rcases h.rounds_succ hat hN hbound (Counted.rounds hN hbound (hstays.mono (Nat.le_succ n))) with
      hrounds | hover | hreturned
    · exact hrounds
    · obtain ⟨f', hframes', -, hpc⟩ := hover.leaves
      have hsame : [] ++ f' :: callers = inner ++ f :: callers := hframes'.symm.trans hframes
      rw [← Execution.frame_inj [] hsame] at hhi
      omega
    · have hlength := congrArg List.length (hreturned.frames.symm.trans hframes)
      rw [List.length_append, List.length_cons] at hlength
      omega

/-- The loop is left when it is over, or with the routine. -/
theorem Counted.leaves (hN : v.toNumber.round.IsWhole N) (hbound : N ≤ (Nat.pow 2 53 : Nat))
    (hstays : T.Stays callers a b n) (hleft : ¬ T.Stays callers a b (n + 1)) :
    T.Over image callers test close b before N.toNat n ∨ T.Returned image callers test close n := by
  have ha := hat.ready_ge
  refine (h.rounds_succ hat hN hbound (h.rounds hat hN hbound hstays)).resolve_left ?_
  rintro ⟨inner, f, hframes, -, hlo, hhi, -⟩
  exact hleft (hstays.succ inner hframes (Nat.le_trans ha hlo) hhi)

end

/-! ## The loop ends -/

/-- Each round that begins comes to its end, as long as the loop is active. -/
def Completes (T : Timeline s) (image : Image) (callers : List Frame)
    (a b first close : Nat) : Prop :=
  ∀ n, T.Stays callers a b n → T.At image callers first n →
    ∃ m, n ≤ m ∧ T.Stays callers a b m ∧ T.At image callers close m

section

variable (hat : RepeatAt image a ready test close b c)
  (h : T.Counted entry image callers a ready b before v) (hthrives : T.Thrives callers a b)
include hat h hthrives

/-- Outside the body the frame of the loop executes its instruction. -/
theorem Counted.exists_exec (hN : v.toNumber.round.IsWhole N) (hbound : N ≤ (Nat.pow 2 53 : Nat))
    (hstays : T.Stays callers a b n) {pc : Nat} (hpc : T.At image callers pc n) (hlo : ready ≤ pc)
    (hhi : pc < b) (hown : pc ≤ test ∨ close ≤ pc) :
    ∃ (f : Frame) (op : Instr) (σ : Type) (host : Host σ) (w : World σ),
      f.routine.image = image ∧ f.pc = pc
      ∧ f.routine.image.ops[f.pc]? = some op ∧ f.Confined
      ∧ f.Counts ready test close c v N (T.passes callers before test n)
        (T.passes callers before close n)
      ∧ T.moment n = f.act host s callers w op
      ∧ (T.state (n + 1)).frames = (Execution.applyEffect (f.exec host s callers w op).2.1
        (f.exec host s callers w op).1 callers (f.exec host s callers w op).2.2).1 := by
  obtain ⟨f, hframes, himage, rfl⟩ := hpc
  obtain ⟨inner, f', hframes', -, -, -, hcounts⟩ := h.rounds hat hN hbound hstays
  have hsame : [] ++ f :: callers = inner ++ f' :: callers := hframes.symm.trans hframes'
  obtain rfl := Execution.frame_inj [] hsame
  obtain ⟨op, hop⟩ := hat.exists_op hhi
  -- Calls of the host stand in the body only.
  have hcall : ∀ i argc, op ≠ .callHost i argc := by
    rintro i argc rfl
    have hinside := hat.inside_of_ne hop hlo hhi rfl rfl
    omega
  rw [← himage] at hop
  have hconfined := T.confined h.activation.visits n f (by rw [hframes]; exact List.mem_cons_self)
  obtain ⟨σ, host, w, hmoment, hnext⟩ :=
    Timeline.exists_exec hframes hconfined hop hcall (hthrives n hstays).2
  exact ⟨f, op, σ, host, w, himage, rfl, hop, hconfined, hcounts, hmoment, hnext⟩

/-- Its own instructions take the loop on. -/
theorem Counted.at_next (hN : v.toNumber.round.IsWhole N) (hbound : N ≤ (Nat.pow 2 53 : Nat))
    (hstays : T.Stays callers a b n) {pc : Nat} (hpc : T.At image callers pc n) (hlo : ready ≤ pc)
    (hhi : pc < b) (hown : pc < test ∨ close ≤ pc) :
    T.Stays callers a b (n + 1)
      ∧ T.At image callers (if pc + 1 = b then test else pc + 1) (n + 1) := by
  have ha := hat.ready_ge
  have htest := hat.test_ge
  have hclose := hat.close_gt
  have hend := hat.end_eq
  obtain ⟨f, op, σ, host, w, himage, rfl, hop, hconfined, hcounts, -, hnext⟩ :=
    h.exists_exec hat hthrives hN hbound hstays hpc hlo hhi (by omega)
  rw [← himage] at hat
  obtain ⟨hpc', heffect⟩ := hcounts.exec_own hat host s callers w hconfined hop hlo hhi hown
  have hroutine := (f.executes_exec host s callers w op).routine
  have hframes : (T.state (n + 1)).frames = (f.exec host s callers w op).1 :: callers := by
    rw [hnext]
    rcases heffect with heffect | ⟨kind, heffect⟩
    · rw [heffect]
      rfl
    · rw [heffect]
      rfl
  refine ⟨hstays.succ [] hframes ?_ ?_, _, hframes, by rw [hroutine, himage], hpc'⟩
  · rw [hpc']
    split <;> omega
  · rw [hpc']
    split <;> omega

/-- After a round the test is made again. -/
theorem Counted.at_test_of_close (hN : v.toNumber.round.IsWhole N)
    (hbound : N ≤ (Nat.pow 2 53 : Nat)) (hstays : T.Stays callers a b n)
    (hpc : T.At image callers close n) :
    ∃ m, n ≤ m ∧ T.Stays callers a b m ∧ T.At image callers test m := by
  have htest := hat.test_ge
  have hclose := hat.close_gt
  have hend := hat.end_eq
  obtain ⟨hstays', hpc'⟩ :=
    h.at_next hat hthrives hN hbound hstays hpc (by omega) (by omega) (Or.inr (Nat.le_refl _))
  rcases hend with hb | hb
  · rw [if_pos hb.symm] at hpc'
    exact ⟨n + 1, Nat.le_succ n, hstays', hpc'⟩
  · -- The loop has given way or has looked at the deadline, and the jump back is next.
    rw [if_neg (by omega)] at hpc'
    obtain ⟨hstays'', hpc''⟩ :=
      h.at_next hat hthrives hN hbound hstays' hpc' (by omega) (by omega) (Or.inr (Nat.le_succ _))
    rw [if_pos (by omega)] at hpc''
    exact ⟨n + 2, Nat.le_add_right n 2, hstays'', hpc''⟩

/-- With the test the loop is over, or one more round begins. -/
theorem Counted.over_or_begins (hN : v.toNumber.round.IsWhole N) (hbound : N ≤ (Nat.pow 2 53 : Nat))
    (hstays : T.Stays callers a b n) (hpc : T.At image callers test n) :
    T.Over image callers test close b before N.toNat n
      ∨ T.passes callers before test n < N.toNat
        ∧ T.passes callers before test (n + 1) = T.passes callers before test n + 1
        ∧ T.Stays callers a b (n + 1) ∧ T.At image callers (test + 1) (n + 1) := by
  have ha := hat.ready_ge
  have htest := hat.test_ge
  have hclose := hat.close_gt
  have hend := hat.end_eq
  obtain ⟨f, op, σ, host, w, himage, hpc, hop, hconfined, hcounts, hmoment, hnext⟩ :=
    h.exists_exec hat hthrives hN hbound hstays hpc (by omega) (by omega) (Or.inl (Nat.le_refl _))
  have hroutine := (f.executes_exec host s callers w op).routine
  have himage' : (f.exec host s callers w op).1.routine.image = image := by rw [hroutine, himage]
  have hplace : (T.moment n).place = some (callers.length, test) := by
    rw [hmoment, ← hpc]
    rfl
  have hpasses := T.passes_succ callers before test n
  rw [if_pos hplace] at hpasses
  rw [← himage] at hat
  rcases hcounts.exec_test hat host s callers w hbound hconfined hpc hop with
    ⟨hstarted, hended, hpc', heffect⟩ | ⟨hpc', heffect, hcounts'⟩
  · rw [heffect] at hnext
    refine Or.inl ⟨⟨_, hnext, himage', hpc'⟩, hstarted, hended, ?_⟩
    rw [hmoment, Frame.act]
    dsimp only
    rw [heffect]
    rfl
  · rw [heffect] at hnext
    have hstays' := hstays.succ [] hnext (by omega) (by omega)
    exact Or.inr ⟨hcounts'.within, hpasses, hstays', _, hnext, himage', hpc'⟩

/-- **From the test on the loop comes to its end.** With each round there is one less to begin. -/
theorem Counted.exists_over_of_test (hN : v.toNumber.round.IsWhole N)
    (hbound : N ≤ (Nat.pow 2 53 : Nat))
    (hcompletes : T.Completes image callers a b (test + 1) close) : ∀ (k : Nat) {n : Nat},
      N.toNat ≤ T.passes callers before test n + k → T.Stays callers a b n →
      T.At image callers test n →
      ∃ m, T.Stays callers a b m ∧ T.Over image callers test close b before N.toNat m
  | k, n, hk, hstays, hpc => by
    rcases h.over_or_begins hat hthrives hN hbound hstays hpc with
      hover | ⟨hlt, hpasses, hstays', hfirst⟩
    · exact ⟨n, hstays, hover⟩
    · obtain ⟨k, rfl⟩ : ∃ k', k = k' + 1 := ⟨k - 1, by omega⟩
      obtain ⟨m, hm, hstaysClose, hclosing⟩ := hcompletes (n + 1) hstays' hfirst
      obtain ⟨m', hm', hstaysTest, hagain⟩ :=
        h.at_test_of_close hat hthrives hN hbound hstaysClose hclosing
      have hmono := T.passes_mono callers before test (Nat.le_trans hm hm')
      exact Counted.exists_over_of_test hN hbound hcompletes k (by omega) hstaysTest hagain

/-- From the count on the loop comes to its test. -/
theorem Counted.at_add (hN : v.toNumber.round.IsWhole N) (hbound : N ≤ (Nat.pow 2 53 : Nat)) :
    ∀ k, ready + k ≤ test → T.Stays callers a b k ∧ T.At image callers (ready + k) k
  | 0, _ => by
    have ha := hat.ready_ge
    obtain ⟨inner, f, hframes, himage, hlo, hhi, -⟩ :
        T.Rounds image callers ready test close b c before v N 0 :=
      h.rounds_zero hat
    obtain ⟨f', hframes', hpc, -⟩ := h.value
    have hsame : [] ++ f' :: callers = inner ++ f :: callers := hframes'.symm.trans hframes
    obtain rfl := Execution.frame_inj [] hsame
    refine ⟨?_, f', hframes', himage, hpc⟩
    intro m hm
    obtain rfl := Nat.le_zero.mp hm
    exact ⟨[], f', hframes', Nat.le_trans ha hlo, hhi⟩
  | k + 1, hk => by
    have hclose := hat.close_gt
    have hend := hat.end_eq
    obtain ⟨hstays, hpc⟩ := Counted.at_add hN hbound k (by omega)
    obtain ⟨hstays', hpc'⟩ :=
      h.at_next hat hthrives hN hbound hstays hpc (by omega) (by omega) (Or.inl (by omega))
    rw [if_neg (by omega)] at hpc'
    exact ⟨hstays', hpc'⟩

/-- **The loop comes to its end**, if all its rounds do. -/
theorem Counted.exists_over (hN : v.toNumber.round.IsWhole N) (hbound : N ≤ (Nat.pow 2 53 : Nat))
    (hcompletes : T.Completes image callers a b (test + 1) close) :
    ∃ n, T.Stays callers a b n ∧ T.Over image callers test close b before N.toNat n := by
  have htest := hat.test_ge
  obtain ⟨hstays, hpc⟩ := h.at_add hat hthrives hN hbound (test - ready) (by omega)
  rw [Nat.add_sub_cancel' (by omega)] at hpc
  exact h.exists_over_of_test hat hthrives hN hbound hcompletes N.toNat (Nat.le_add_left _ _)
    hstays hpc

end

end Timeline

/-! ## Giving way -/

namespace Moment

/-- The thread gives way softly. -/
def isSoft (m : Moment) : Bool :=
  match m.flow with
  | .suspend .soft => true
  | _ => false

/-- What is seen is what the instruction can do: the thread gives way softly only with some
instructions, and always with those that say so. -/
def Shows (m : Moment) (op : Instr) : Prop :=
  (m.flow = .suspend .soft → op.pauses = true) ∧ ∀ kind, op = .yield kind → m.flow = .suspend kind

theorem isSoft_iff (m : Moment) : m.isSoft = true ↔ m.flow = .suspend .soft := by
  unfold isSoft
  split
  · next hflow => exact ⟨fun _ => hflow, fun _ => rfl⟩
  · next hne =>
    exact ⟨fun hfalse => absurd hfalse Bool.false_ne_true, fun hflow => absurd hflow hne⟩

end Moment

/-- The moments at which the frame above `depth` others gives way softly, but not in the code from
`lo` up to `hi`. -/
def softOutside (depth lo hi : Nat) (seen : List Moment) : List Moment :=
  seen.filter fun m => m.isSoft && m.place.any fun p => p.1 == depth && !(lo ≤ p.2 && p.2 < hi)

/-- **In an activation each instruction does what it can do.** -/
def Frame.showing (s : Setting) (image : Image) (callers : List Frame) (a b : Nat) :
    ActivationInvariant s image callers a b where
  Holds seen _ := ∀ m ∈ seen, ∀ pc, m.place = some (callers.length, pc) →
    a ≤ pc ∧ pc < b ∧ ∃ op, image.ops[pc]? = some op ∧ m.Shows op
  enter := fun _ _ _ _ hm => by cases hm
  idle := by
    intro seen m f hf hm m' hm' pc hplace
    rcases List.mem_append.mp hm' with hm' | hm'
    · exact hf m' hm' pc hplace
    · rw [List.mem_singleton.mp hm'] at hplace
      exact absurd hplace (hm pc)
  resume := fun _ hf _ _ _ _ _ => hf
  exec := by
    rintro σ h w seen f op hf - rfl hlo hhi - hop m hm pc hplace
    rcases List.mem_append.mp hm with hm | hm
    · exact hf m hm pc hplace
    · rw [List.mem_singleton.mp hm] at hplace ⊢
      obtain rfl := (Prod.mk.inj (Option.some.inj hplace)).2
      refine ⟨hlo, hhi, op, hop, Frame.pauses_of_act, ?_⟩
      rintro kind rfl
      rfl

theorem Execution.Activation.shows {s : Setting} {entry : Linked} {image : Image}
    {callers : List Frame} {a b : Nat} {e : Execution} {seen : List Moment}
    (he : Execution.Activation s entry image callers a b e seen) (hab : a < b) :
    ∀ m ∈ seen, ∀ pc, m.place = some (callers.length, pc) →
      a ≤ pc ∧ pc < b ∧ ∃ op, image.ops[pc]? = some op ∧ m.Shows op := by
  obtain ⟨_, _, _, _, _, _, _, hshows⟩ := (Frame.showing s image callers a b).activation hab he
  exact hshows

namespace RepeatAt

variable {image : Image} {a ready test close b : Nat} {c : UInt16} {s : Setting} {entry : Linked}
  {callers : List Frame} {e : Execution} {seen : List Moment}

/-- A loop gives way softly at the end of its rounds only, apart from its body. -/
theorem eq_close_of_soft (hat : RepeatAt image a ready test close b c)
    (he : Execution.Activation s entry image callers a b e seen) {m : Moment} (hm : m ∈ seen)
    {pc : Nat} (hplace : m.place = some (callers.length, pc)) (hsoft : m.flow = .suspend .soft)
    (hout : ¬ (test + 1 ≤ pc ∧ pc < close)) : pc = close ∧ b = close + 2 := by
  have ha := hat.ready_ge
  have htest := hat.test_ge
  have hclose := hat.close_gt
  have hend := hat.end_eq
  obtain ⟨hlo, hhi, op, hop, hpauses, -⟩ := he.shows (by omega) m hm pc hplace
  have hpauses := hpauses hsoft
  rcases Nat.lt_or_ge test pc with hgt | hle
  · rcases hat.op_cases hop (by omega) hhi with
      ⟨-, hbefore | hclosing⟩ | htested | hbody | ⟨-, offset, rfl, -⟩
    · omega
    · exact hclosing
    · omega
    · omega
    · cases hpauses
  · rw [hat.quiet hlo hle hop] at hpauses
    cases hpauses

/-- **If a round ends with giving way, the loop gives way once in each round and nowhere else.** -/
theorem softOutside_of_yield (hat : RepeatAt image a ready test close b c)
    (he : Execution.Activation s entry image callers a b e seen)
    (hyield : image.ops[close]? = some (.yield .soft)) :
    softOutside callers.length (test + 1) close seen = momentsAt callers.length close seen := by
  have ha := hat.ready_ge
  have htest := hat.test_ge
  have hclose := hat.close_gt
  have hend := hat.end_eq
  refine List.filter_congr fun m hm => ?_
  rw [Bool.eq_iff_iff, Bool.and_eq_true, Moment.isSoft_iff, Option.any_eq_true, decide_eq_true_eq]
  constructor
  · rintro ⟨hsoft, ⟨depth, pc⟩, hplace, hout⟩
    simp only [Bool.and_eq_true, beq_iff_eq, Bool.not_eq_true', Bool.and_eq_false_iff,
      decide_eq_false_iff_not] at hout
    obtain ⟨rfl, hout⟩ := hout
    rw [hplace, (hat.eq_close_of_soft he hm hplace hsoft (by omega)).1]
  · intro hplace
    obtain ⟨-, -, op, hop, -, hkind⟩ := he.shows (by omega) m hm close hplace
    rw [hyield] at hop
    cases hop
    exact ⟨hkind .soft rfl, _, hplace, by simp⟩

/-- **If a round ends with the jump back, the loop does not give way.** -/
theorem softOutside_eq_nil (hat : RepeatAt image a ready test close b c)
    (he : Execution.Activation s entry image callers a b e seen) (hb : b = close + 1) :
    softOutside callers.length (test + 1) close seen = [] := by
  refine List.filter_eq_nil_iff.mpr fun m hm hsoft => ?_
  rw [Bool.and_eq_true, Moment.isSoft_iff, Option.any_eq_true] at hsoft
  obtain ⟨hsoft, ⟨depth, pc⟩, hplace, hout⟩ := hsoft
  simp only [Bool.and_eq_true, beq_iff_eq, Bool.not_eq_true', Bool.and_eq_false_iff,
    decide_eq_false_iff_not] at hout
  obtain ⟨rfl, hout⟩ := hout
  have hclose := (hat.eq_close_of_soft he hm hplace hsoft (by omega)).2
  omega

end RepeatAt

/-! ## Compiled routines -/

namespace Routine

variable {r : Routine} {p : Program} {config : CompilerConfig} {image : Image} {count : Expr}
  {body : List Stmt} {warpSafe : Bool} {interval : UInt32}

/--
**A counted loop runs its body as often as its count says.**

Take any counted loop of a compiled routine. Its code stands somewhere in the code of the routine:
the count, the test, the body up to `close`, and the end of the round up to `b`. Take any activation
of this code, in any thread, in which the count has just been computed as `v`, and any ticks that
follow, on any hosts. If `v` is rounded to a number whose magnitude is at most `2 ^ 53`, that number
is a whole one `N`, and:

* as long as the loop is active, it has begun at most `N` rounds (none if `N` is negative), and all
  of them but the last one are over;
* it is left when as many rounds as that have begun and are over, or by a return in its body;
* if the thread is not asked to stop and comes to no limit, and each round that begins comes to its
  end, the loop comes to its end;
* in a routine that is not in warp, and if the loop is not safe in warp, the loop itself gives way
  softly at the end of each round and nowhere else; in warp without looks at the deadline it never
  does.
-/
theorem repeats_of_compile (h : r.compile p config = .ok image)
    (hloop : Stmt.loop (.times count) body warpSafe interval ∈ Stmt.allNodes r.stack) :
    (∃ a base, (Stmt.loop (.times count) body warpSafe interval).PlacedAt (r.settings config)
      (r.imports config) image.ops a base)
    ∧ ∀ a base test close b,
      (Stmt.loop (.times count) body warpSafe interval).PlacedAt (r.settings config)
        (r.imports config) image.ops a base →
      test + 1 + Stmt.allSize (r.settings config) body = close →
      close + (r.settings config).roundEndSize warpSafe + 1 = b →
      b = a + Stmt.size (r.settings config) (.loop (.times count) body warpSafe interval) →
      ∀ (s : Setting) (T : Timeline s) (entry : Linked) (callers : List Frame)
        (before : List Moment) (v : Value),
      T.Counted entry image callers a (a + count.size) b before v →
      v.toNumber.round.isFinite = true →
      v.toNumber.round.units.natAbs ≤ Nat.pow 2 53 * Number.unitsPerOne →
      ∃ N : Int, v.toNumber.round.units = N * Number.unitsPerOne
        ∧ (∀ n, T.Stays callers a b n → T.passes callers before test n ≤ N.toNat
          ∧ T.passes callers before close n ≤ T.passes callers before test n
          ∧ T.passes callers before test n ≤ T.passes callers before close n + 1)
        ∧ (∀ n, T.Stays callers a b n → ¬ T.Stays callers a b (n + 1) →
          T.Over image callers test close b before N.toNat n
            ∨ T.Returned image callers test close n)
        ∧ (T.Thrives callers a b → T.Completes image callers a b (test + 1) close →
          ∃ n, T.Stays callers a b n ∧ T.Over image callers test close b before N.toNat n)
        ∧ ∀ n, T.Stays callers a b n →
          (r.warp = false ∨ warpSafe = false →
            softOutside callers.length (test + 1) close (before ++ T.seen n)
              = momentsAt callers.length close (before ++ T.seen n))
          ∧ (r.warp = true → warpSafe = true → config.warpTimer = false →
            softOutside callers.length (test + 1) close (before ++ T.seen n) = []) := by
  refine ⟨exists_placedAt h _ hloop, ?_⟩
  intro a base test close b hplaced htest hclose hb s T entry callers before v hcounted
    hfinite hbound
  obtain ⟨rfl, -⟩ := compile_eq_ok h
  have hat := hplaced.repeatAt (fun l hl => Linked.support_of_image hl) htest hclose hb
  have hN := Number.isWhole_round hfinite
  have hle : v.toNumber.round.units / Number.unitsPerOne ≤ (Nat.pow 2 53 : Nat) := by
    have hU : (0 : Int) < Number.unitsPerOne := Int.natCast_pos.mpr Number.unitsPerOne_pos
    refine Int.ediv_le_of_le_mul hU ?_
    rw [← Int.natCast_mul]
    omega
  refine ⟨_, hN.units, fun n hstays => ?_, fun n => hcounted.leaves hat hN hle,
    fun hthrives => hcounted.exists_over hat hthrives hN hle,
    fun n hstays => ⟨fun hplain => ?_, ?_⟩⟩
  · obtain ⟨-, f, -, -, -, -, hcounts⟩ := hcounted.rounds hat hN hle hstays
    have hinside := hcounts.inside
    exact ⟨hcounts.within, by omega, by split at hinside <;> omega⟩
  · have hruns : (r.settings config).runsWarp warpSafe = false := by
      rw [CodeSettings.runsWarp, settings, Bool.and_eq_false_iff]
      exact hplain
    have hend := hplaced.roundEndAt htest hclose hb
    rw [Stmt.roundEnd, hruns] at hend
    exact hat.softOutside_of_yield (hstays.activation hcounted.activation) hend.head
  · intro hwarp hsafe htimer
    have hend : (r.settings config).roundEndSize warpSafe = 0 := by
      rw [CodeSettings.roundEndSize, CodeSettings.runsWarp, settings, hwarp, hsafe, htimer]
      rfl
    rw [hend] at hclose
    exact hat.softOutside_eq_nil (hstays.activation hcounted.activation) hclose.symm

/-- A routine whose count is a text that is rounded to three. -/
def drummer : Routine where
  script := ⟨"drummer", {}, none, false⟩
  stack := [.loop (.times (.const (.text "2.5"))) [.change "beats" (.const (.number 1))] true 1]

/-- No tick stops the thread, and the loop comes to its end: three rounds have begun and ended, and
the thread has given way after each of them. -/
theorem repeats_of_compile_drummer :
    ∃ (image : Image) (l : Linked) (T : Timeline {}) (before : List Moment) (n : Nat),
      drummer.compile ⟨drummer, {}⟩ {} = .ok image
      ∧ T.Counted l image [] 0 1 10 before (.text "2.5")
      ∧ T.Thrives [] 0 10 ∧ T.Completes image [] 0 10 4 8
      ∧ T.Stays [] 0 10 n ∧ T.Over image [] 3 8 10 before 3 n
      ∧ (softOutside 0 4 8 (before ++ T.seen n)).length = 3 := by
  have hrun : (drummer.compile ⟨drummer, {}⟩ {}).toOption.bind (fun image =>
      (image.link {}).toOption.map fun l =>
        let r := (Execution.start l).tick ScriptedHost.host {} ⟨{}, false⟩
        let T := Timeline.ofHost ScriptedHost.host {} r.2.1 r.1
        (r.1.frames.map (fun f => (f.pc, f.stack.back?)), T.positions 24,
          (T.state 24).frames.map Frame.pc,
          (List.range 24).all fun n => (T.moment n).flow.isCalm))
      = some ([(1, some (.text "2.5"))],
        [[1], [2], [3], [4], [5], [6], [7], [8], [9], [3], [4], [5], [6], [7], [8], [9],
          [3], [4], [5], [6], [7], [8], [9], [3]], [10], true) := by
    decide +kernel
  obtain ⟨image, himage, hrun⟩ := Option.bind_eq_some_iff.mp hrun
  obtain ⟨l, hl, hrun⟩ := Option.map_eq_some_iff.mp hrun
  have himage := eq_ok_of_toOption himage
  have hl := Image.image_of_link (eq_ok_of_toOption hl)
  generalize hfirst : (Execution.start l).tick ScriptedHost.host {} ⟨{}, false⟩ = first at hrun
  obtain ⟨hready, hrun⟩ := Prod.mk.inj hrun
  obtain ⟨hpositions, hrun⟩ := Prod.mk.inj hrun
  obtain ⟨hlast, hcalm⟩ := Prod.mk.inj hrun
  obtain ⟨f, hframes, hf⟩ := List.map_eq_singleton_iff.mp hready
  obtain ⟨hpc, hback⟩ := Prod.mk.inj hf
  generalize hT : Timeline.ofHost ScriptedHost.host {} first.2.1 first.1
    = T at hpositions hlast hcalm
  have hstart : T.state 0 = first.1 := by
    rw [← hT]
    rfl
  -- After the first tick the count has been computed.
  have hcounted : T.Counted l image [] 0 1 10
      [(Execution.start l).moment ScriptedHost.host {} ⟨{}, false⟩] (.text "2.5") := by
    refine ⟨?_, f, by rw [hstart, hframes], hpc, hback⟩
    rw [hstart, ← hfirst]
    refine .tick ScriptedHost.host ⟨{}, false⟩ (.enters .start rfl hl rfl rfl)
      (?_ : _ = [] ++ f :: []) (Nat.zero_le _) (by omega)
    rw [hfirst, hframes, List.nil_append]
  generalize [(Execution.start l).moment ScriptedHost.host {} ⟨{}, false⟩] = before at hcounted
  have hleft : ¬ T.Stays [] 0 10 24 := Timeline.not_stays_of_pc hlast (by decide)
  have hthrives : T.Thrives [] 0 10 :=
    Timeline.thrives_of_left hleft fun m hm => List.all_eq_true.mp hcalm m (List.mem_range.mpr hm)
  have hcompletes : T.Completes image [] 0 10 4 8 := by
    have hstays : T.Stays [] 0 10 23 := by
      refine Timeline.stays_of_positions ?_
      rw [hpositions]
      decide
    -- The end of the round is four ticks later.
    have hround : ∀ n < 24, (T.positions 24)[n]? = some [4] →
        (T.positions 24)[n + 4]? = some [8] := by
      rw [hpositions]
      decide
    intro n hn hfirst
    have hlt := hn.lt_of_left hleft
    obtain ⟨g, hg, -, hgpc⟩ := hfirst
    have hclose := hround n hlt (by rw [T.positions_getElem? hlt, hg, List.map_singleton, hgpc])
    have hlt' : n + 4 < 24 := by
      have hlength := (List.getElem?_eq_some_iff.mp hclose).1
      rwa [hpositions] at hlength
    have hn' : T.Stays [] 0 10 (n + 4) := hstays.mono (Nat.le_of_lt_succ hlt')
    obtain ⟨inner, f, hframes, himage, -⟩ :=
      (Frame.showing {} image [] 0 10).activation (by decide) (hn'.activation hcounted.activation)
    rw [T.positions_getElem? hlt'] at hclose
    obtain ⟨f', hframes', hpc'⟩ := List.map_eq_singleton_iff.mp (Option.some.inj hclose)
    obtain rfl := Execution.frame_inj inner (hframes.symm.trans hframes' : _ = [] ++ f' :: [])
    exact ⟨n + 4, Nat.le_add_right n 4, hn', f, hframes', himage, hpc'⟩
  obtain ⟨N, hN, -, -, hends, hsoft⟩ := (repeats_of_compile himage List.mem_cons_self).2 0 0 3 8 10
    (placedAt_head himage rfl) rfl rfl rfl {} T l [] before _ hcounted (by decide +kernel)
    (by decide +kernel)
  have hthree : N = 3 := by
    have hunits : (Value.text "2.5").toNumber.round.units = 3 * Number.unitsPerOne := by
      decide +kernel
    have hU : (0 : Int) < Number.unitsPerOne := Int.natCast_pos.mpr Number.unitsPerOne_pos
    exact Int.eq_of_mul_eq_mul_right (by omega) (hN.symm.trans hunits)
  subst hthree
  obtain ⟨n, hstays, hover⟩ := hends hthrives hcompletes
  refine ⟨image, l, T, before, n, himage, hcounted, hthrives, hcompletes, hstays, hover, ?_⟩
  rw [show softOutside 0 4 8 (before ++ T.seen n) = _ from (hsoft n hstays).1 (.inl rfl)]
  exact hover.ended

end Routine

end BlockScript
