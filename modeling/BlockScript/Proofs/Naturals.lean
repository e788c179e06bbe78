import BlockScript.Proofs.Simulation

/-!
# Natural numbers as numbers

A number has a significand of 53 bits, so natural numbers below `2 ^ 53` are numbers exactly
(`Number.units_ofNat`). On them one more is one more (`Number.ofNat_add_one`) and the order is the
one of natural numbers (`Number.le_ofNat`, `Number.le_of_le_ofNat`), so that a loop can count its
rounds in numbers.
-/

namespace BlockScript

namespace Number

theorem log2_mul_pow {n : Nat} (hn : 0 < n) (u : Nat) : (n * Nat.pow 2 u).log2 = n.log2 + u := by
  have hpos : n * Nat.pow 2 u ≠ 0 := Nat.ne_of_gt (Nat.mul_pos hn (Nat.two_pow_pos u))
  rw [Nat.log2_eq_iff hpos, Nat.pow_add, Nat.add_right_comm, Nat.pow_add]
  exact ⟨Nat.mul_le_mul_right _ (Nat.log2_self_le (Nat.ne_of_gt hn)),
    Nat.mul_lt_mul_of_pos_right Nat.lt_log2_self (Nat.two_pow_pos u)⟩

theorem divNearest_mul {d : Nat} (hd : 0 < d) (q : Nat) : divNearest (q * d) d = q := by
  simp [divNearest, Nat.mul_div_cancel q hd, hd]

/-- The significand of a natural number: it is shifted until it has 53 bits. -/
def scaled (n : Nat) : Nat := n * Nat.pow 2 (52 - n.log2)

theorem scaled_bounds {n : Nat} (hn : 0 < n) (hlt : n < Nat.pow 2 53) :
    n.log2 ≤ 52 ∧ Nat.pow 2 52 ≤ scaled n ∧ scaled n < Nat.pow 2 53 := by
  have hlog : n.log2 ≤ 52 := Nat.lt_succ_iff.mp ((Nat.log2_lt (Nat.ne_of_gt hn)).mpr hlt)
  have hpos : n * Nat.pow 2 (52 - n.log2) ≠ 0 :=
    Nat.ne_of_gt (Nat.mul_pos hn (Nat.two_pow_pos _))
  have hscaled : (scaled n).log2 = 52 := by
    rw [scaled, log2_mul_pow hn]
    omega
  exact ⟨hlog, (Nat.log2_eq_iff hpos).mp hscaled⟩

theorem unitsPerOne_pos : 0 < unitsPerOne := by
  unfold unitsPerOne
  exact Nat.two_pow_pos 1074

theorem mul_unitsPerOne {n : Nat} (hlog : n.log2 ≤ 52) :
    scaled n * Nat.pow 2 (n.log2 + 1022) = n * unitsPerOne := by
  have hsum : (52 - n.log2) + (n.log2 + 1022) = 1074 := by omega
  have hsplit := Nat.pow_add 2 (52 - n.log2) (n.log2 + 1022)
  rw [hsum] at hsplit
  rw [scaled, Nat.mul_assoc]
  exact congrArg (n * ·) hsplit.symm

theorem roundUnits_natural {n : Nat} (hn : 0 < n) (hlt : n < Nat.pow 2 53) :
    roundUnits (n * unitsPerOne) 1 = (n.log2 + 1022) * Nat.pow 2 52 + scaled n := by
  obtain ⟨hlog, -, hscaled⟩ := scaled_bounds hn hlt
  have hk : (n * unitsPerOne / 1).log2 - 52 = n.log2 + 1022 := by
    rw [Nat.div_one, unitsPerOne, log2_mul_pow hn]
    omega
  unfold roundUnits
  dsimp only
  have hpos : 0 < Nat.pow 2 (n.log2 + 1022) := Nat.two_pow_pos _
  rw [hk, Nat.one_mul, ← mul_unitsPerOne hlog, divNearest_mul hpos]
  refine Nat.min_eq_left ?_
  rw [infinityPattern]
  have h53 : Nat.pow 2 53 = 2 * Nat.pow 2 52 := by decide
  have hmul : (n.log2 + 1022) * Nat.pow 2 52 ≤ 1074 * Nat.pow 2 52 :=
    Nat.mul_le_mul_right _ (by omega)
  generalize Nat.pow 2 52 = x at *
  omega

theorem signed_ofPattern_false {p : Nat} (hp : p < Nat.pow 2 63) :
    (ofPattern false p).signed = false := by
  have hsign : signBit.toNat = Nat.pow 2 63 := by decide
  have h64 : Nat.pow 2 63 ≤ 2 ^ 64 := by decide
  have htoNat : (UInt64.ofNat p).toNat = p := by
    rw [UInt64.toNat_ofNat']
    exact Nat.mod_eq_of_lt (Nat.lt_of_lt_of_le hp h64)
  simp only [ofPattern, signed, Bool.false_eq_true, if_false, decide_eq_false_iff_not,
    UInt64.le_iff_toNat_le, htoNat, hsign]
  omega

/-- The pattern of a natural number, if it fits into a significand. -/
def pattern (n : Nat) : Nat := if n = 0 then 0 else (n.log2 + 1022) * Nat.pow 2 52 + scaled n

theorem ofNat_eq_pattern {n : Nat} (hlt : n < Nat.pow 2 53) :
    ofNat n = ofPattern false (pattern n) := by
  rw [ofNat, pattern]
  split
  · next hn =>
    rw [hn, Nat.zero_mul]
    rfl
  · next hn => rw [roundUnits_natural (Nat.pos_of_ne_zero hn) hlt]

theorem ofNat_zero : ofNat 0 = zero := by
  rw [ofNat_eq_pattern (by decide), pattern, if_pos rfl]
  rfl

theorem pattern_lt {n : Nat} (hlt : n < Nat.pow 2 53) : pattern n < infinityPattern := by
  rw [pattern]
  split
  · decide
  · next hn =>
    obtain ⟨hlog, -, hscaled⟩ := scaled_bounds (Nat.pos_of_ne_zero hn) hlt
    have h53 : Nat.pow 2 53 = 2 * Nat.pow 2 52 := by decide
    have hmul : (n.log2 + 1022) * Nat.pow 2 52 ≤ 1074 * Nat.pow 2 52 :=
      Nat.mul_le_mul_right _ (by omega)
    rw [infinityPattern]
    generalize Nat.pow 2 52 = x at *
    omega

theorem unitsOfPattern_pattern {n : Nat} (hlt : n < Nat.pow 2 53) :
    unitsOfPattern (pattern n) = n * unitsPerOne := by
  rw [pattern]
  split
  · next hn =>
    rw [hn, Nat.zero_mul]
    rfl
  · next hn =>
    obtain ⟨hlog, hle, hscaled⟩ := scaled_bounds (Nat.pos_of_ne_zero hn) hlt
    have h53 : Nat.pow 2 53 = 2 * Nat.pow 2 52 := by decide
    have hpos : 0 < Nat.pow 2 52 := by decide
    have hdiv : scaled n / Nat.pow 2 52 = 1 := Nat.div_eq_of_lt_le (by omega) (by omega)
    have hquotient : ((n.log2 + 1022) * Nat.pow 2 52 + scaled n) / Nat.pow 2 52
        = n.log2 + 1022 + 1 := by
      rw [Nat.add_comm, Nat.add_mul_div_right _ _ hpos, hdiv, Nat.add_comm]
    have hrest : ((n.log2 + 1022) * Nat.pow 2 52 + scaled n) % Nat.pow 2 52
        = scaled n - Nat.pow 2 52 := by
      rw [Nat.mul_comm, Nat.mul_add_mod, Nat.mod_eq_sub_mod hle]
      exact Nat.mod_eq_of_lt (by omega)
    have hbig : ¬ (n.log2 + 1022) * Nat.pow 2 52 + scaled n < Nat.pow 2 52 := by omega
    rw [unitsOfPattern, significand, if_neg hbig, shift, hquotient, hrest,
      Nat.add_sub_cancel' hle, Nat.add_sub_cancel, mul_unitsPerOne hlog]

theorem pattern_mono {m n : Nat} (hmn : m ≤ n) (hlt : n < Nat.pow 2 53) :
    pattern m ≤ pattern n := by
  by_cases hm : m = 0
  · rw [pattern, if_pos hm]
    exact Nat.zero_le _
  · have hn : n ≠ 0 := by omega
    rw [pattern, if_neg hm, pattern, if_neg hn]
    obtain ⟨-, -, hscaled⟩ := scaled_bounds (Nat.pos_of_ne_zero hm) (Nat.lt_of_le_of_lt hmn hlt)
    obtain ⟨-, hle, -⟩ := scaled_bounds (Nat.pos_of_ne_zero hn) hlt
    have hlog : m.log2 ≤ n.log2 :=
      (Nat.le_log2 hn).mpr (Nat.le_trans (Nat.log2_self_le hm) hmn)
    rcases Nat.eq_or_lt_of_le hlog with heq | hlog
    · rw [scaled, scaled, heq]
      exact Nat.add_le_add_left (Nat.mul_le_mul_right _ hmn) _
    · have h53 : Nat.pow 2 53 = 2 * Nat.pow 2 52 := by decide
      have hmul : (m.log2 + 1022 + 1) * Nat.pow 2 52 ≤ (n.log2 + 1022) * Nat.pow 2 52 :=
        Nat.mul_le_mul_right _ (by omega)
      rw [Nat.succ_mul] at hmul
      omega

/-- **A natural number below `2 ^ 53` is a number exactly.** -/
theorem units_ofNat {n : Nat} (hlt : n < Nat.pow 2 53) :
    (ofNat n).units = (n * unitsPerOne : Nat) := by
  have hpattern : pattern n < Nat.pow 2 63 := Nat.lt_trans (pattern_lt hlt) (by decide)
  rw [ofNat_eq_pattern hlt, units, signed_ofPattern_false hpattern,
    magnitude_ofPattern false hpattern, unitsOfPattern_pattern hlt]
  rfl

theorem isFinite_ofNat {n : Nat} (hlt : n < Nat.pow 2 53) :
    (ofNat n).isNaN = false ∧ (ofNat n).isInfinite = false := by
  have hpattern := pattern_lt hlt
  have hmagnitude : (ofNat n).magnitude = pattern n := by
    rw [ofNat_eq_pattern hlt, magnitude_ofPattern false (Nat.lt_trans hpattern (by decide))]
  rw [isNaN, isInfinite, hmagnitude]
  refine ⟨decide_eq_false (by omega), beq_eq_false_iff_ne.mpr (by omega)⟩

/-- **Counting is exact.** -/
theorem ofNat_add_one {n : Nat} (hlt : n + 1 < Nat.pow 2 53) : (ofNat n).add 1 = ofNat (n + 1) := by
  have hn : n < Nat.pow 2 53 := Nat.lt_of_succ_lt hlt
  have hone : (1 : Number).units = (unitsPerOne : Int) := by
    have hexact := units_ofNat (n := 1) (by decide)
    rw [Nat.one_mul] at hexact
    exact hexact
  obtain ⟨hnan, hinfinite⟩ := isFinite_ofNat hn
  obtain ⟨hnan₁, hinfinite₁⟩ : (1 : Number).isNaN = false ∧ (1 : Number).isInfinite = false :=
    isFinite_ofNat (by decide)
  have hsum : (ofNat n).units + (1 : Number).units = ((n + 1) * unitsPerOne : Nat) := by
    rw [units_ofNat hn, hone, Nat.succ_mul, Int.natCast_add]
  have hpos : 0 < (n + 1) * unitsPerOne := Nat.mul_pos (Nat.succ_pos n) unitsPerOne_pos
  have hne : ¬ (((n + 1) * unitsPerOne : Nat) : Int) = 0 := by omega
  have hsign : ¬ (((n + 1) * unitsPerOne : Nat) : Int) < 0 := by omega
  rw [add, hnan, hnan₁, hinfinite, hinfinite₁, hsum]
  simp only [Bool.or_self, Bool.false_eq_true, if_false, if_neg hne]
  rw [ofUnits, ofNat, decide_eq_false hsign, Int.natAbs_natCast]

theorem rank_ofNat {n : Nat} (hlt : n < Nat.pow 2 53) : (ofNat n).rank = pattern n := by
  have hpattern : pattern n < Nat.pow 2 63 := Nat.lt_trans (pattern_lt hlt) (by decide)
  rw [ofNat_eq_pattern hlt, rank, signed_ofPattern_false hpattern,
    magnitude_ofPattern false hpattern]
  rfl

theorem le_ofNat {m n : Nat} (hmn : m ≤ n) (hlt : n < Nat.pow 2 53) :
    (ofNat m).le (ofNat n) = true := by
  have hm : m < Nat.pow 2 53 := Nat.lt_of_le_of_lt hmn hlt
  rw [le, (isFinite_ofNat hm).1, (isFinite_ofNat hlt).1, rank_ofNat hm, rank_ofNat hlt]
  simpa using pattern_mono hmn hlt

/-- Two natural numbers are never the same number, so the order of the numbers is theirs. -/
theorem le_of_le_ofNat {m n : Nat} (hm : m < Nat.pow 2 53) (hn : n < Nat.pow 2 53)
    (hle : (ofNat m).le (ofNat n) = true) : m ≤ n := by
  rw [le, (isFinite_ofNat hm).1, (isFinite_ofNat hn).1, rank_ofNat hm, rank_ofNat hn] at hle
  have hpattern : pattern m ≤ pattern n := by simpa using hle
  by_contra hlt
  have heq : pattern m = pattern n :=
    Nat.le_antisymm hpattern (pattern_mono (Nat.le_of_not_le hlt) hm)
  have hunits : m * unitsPerOne = n * unitsPerOne := by
    rw [← unitsOfPattern_pattern hm, heq, unitsOfPattern_pattern hn]
  exact hlt (Nat.le_of_eq (Nat.eq_of_mul_eq_mul_right unitsPerOne_pos hunits))

end Number

theorem Value.toNumber_ofNat {n : Nat} (hlt : n < Nat.pow 2 53) :
    (Value.number (.ofNat n)).toNumber = .ofNat n := by
  rw [toNumber, reading, (Number.isFinite_ofNat hlt).1]
  rfl

end BlockScript
