import BlockScript.Proofs.Naturals

/-!
# Whole numbers as numbers

A finite number is as many units as its pattern says, and greater patterns stand for more units
(`Number.unitsOfPattern_mono`), so the order of numbers is the one of their units. The greatest
whole number that is not above a number is a number itself, and so is one less than a whole number
up to `2 ^ 53`: rounding goes to whole numbers exactly (`Number.isWhole_round`), and a count in
numbers goes down by ones (`Number.IsWhole.sub_one`) until less than a half is left
(`Number.IsWhole.half_le_iff`).
-/

namespace BlockScript

namespace Number

variable {x y : Number} {p q : Nat}

/-! ## Patterns and units -/

/-- A pattern is its significand, moved by its shift. -/
theorem significand_bounds (hp : Nat.pow 2 52 ≤ p) :
    p = shift p * Nat.pow 2 52 + significand p ∧ Nat.pow 2 52 ≤ significand p
      ∧ significand p < 2 * Nat.pow 2 52 := by
  have hpos : 0 < Nat.pow 2 52 := by decide
  have hsplit := Nat.div_add_mod p (Nat.pow 2 52)
  have hlt := Nat.mod_lt p hpos
  have hone : 1 ≤ p / Nat.pow 2 52 := (Nat.one_le_div_iff hpos).mpr hp
  obtain ⟨k, hk⟩ := Nat.exists_eq_add_of_le' hone
  rw [significand, if_neg (Nat.not_lt.mpr hp), shift, hk, Nat.add_sub_cancel]
  rw [hk, Nat.mul_comm, Nat.succ_mul] at hsplit
  generalize Nat.pow 2 52 = u at *
  omega

theorem unitsOfPattern_of_lt (hp : p < Nat.pow 2 52) : unitsOfPattern p = p := by
  have hshift : shift p = 0 := by rw [shift, Nat.div_eq_of_lt hp]
  rw [unitsOfPattern, hshift, significand, if_pos hp]
  exact Nat.mul_one p

theorem two_mul_pow (n k : Nat) : 2 * n * Nat.pow 2 k = n * Nat.pow 2 (k + 1) := by
  have hpow : Nat.pow 2 (k + 1) = Nat.pow 2 k * 2 := rfl
  rw [hpow, Nat.mul_comm 2, Nat.mul_assoc, Nat.mul_comm 2]

/-- **Greater patterns stand for more units.** -/
theorem unitsOfPattern_mono (hpq : p ≤ q) : unitsOfPattern p ≤ unitsOfPattern q := by
  rcases Nat.lt_or_ge q (Nat.pow 2 52) with hq | hq
  · rwa [unitsOfPattern_of_lt hq, unitsOfPattern_of_lt (Nat.lt_of_le_of_lt hpq hq)]
  obtain ⟨hq', hqle, -⟩ := significand_bounds hq
  rcases Nat.lt_or_ge p (Nat.pow 2 52) with hp | hp
  · calc unitsOfPattern p = p := unitsOfPattern_of_lt hp
      _ ≤ significand q := Nat.le_trans (Nat.le_of_lt hp) hqle
      _ ≤ unitsOfPattern q := Nat.le_mul_of_pos_right _ (Nat.two_pow_pos _)
  obtain ⟨hp', -, hplt⟩ := significand_bounds hp
  have hshift : shift p ≤ shift q := Nat.sub_le_sub_right (Nat.div_le_div_right hpq) 1
  rcases Nat.eq_or_lt_of_le hshift with heq | hlt
  · -- With the same shift the significands are in order.
    have hsignificand : significand p ≤ significand q := by
      rw [heq] at hp'
      omega
    rw [unitsOfPattern, unitsOfPattern, heq]
    exact Nat.mul_le_mul_right _ hsignificand
  · calc unitsOfPattern p ≤ 2 * Nat.pow 2 52 * Nat.pow 2 (shift p) :=
        Nat.mul_le_mul_right _ (Nat.le_of_lt hplt)
      _ = Nat.pow 2 52 * Nat.pow 2 (shift p + 1) := two_mul_pow _ _
      _ ≤ Nat.pow 2 52 * Nat.pow 2 (shift q) :=
        Nat.mul_le_mul_left _ (Nat.pow_le_pow_right (by decide) hlt)
      _ ≤ unitsOfPattern q := Nat.mul_le_mul_right _ hqle

/-- Numbers are in the order of their units. -/
theorem units_le_of_rank_le (h : x.rank ≤ y.rank) : x.units ≤ y.units := by
  have hzero : unitsOfPattern 0 = 0 := by decide
  rw [rank, rank] at h
  rw [units, units]
  by_cases hx : x.signed = true
  · rw [if_pos hx] at h ⊢
    by_cases hy : y.signed = true
    · rw [if_pos hy] at h ⊢
      have hle := unitsOfPattern_mono (show y.magnitude ≤ x.magnitude by omega)
      omega
    · rw [if_neg hy]
      omega
  · rw [if_neg hx] at h ⊢
    by_cases hy : y.signed = true
    · -- Both are zeros then.
      rw [if_pos hy] at h ⊢
      have hx0 : x.magnitude = 0 := by omega
      have hy0 : y.magnitude = 0 := by omega
      rw [hx0, hy0, hzero]
      decide
    · rw [if_neg hy] at h ⊢
      have hle := unitsOfPattern_mono (show x.magnitude ≤ y.magnitude by omega)
      omega

/-- The units of a pattern round to the pattern. -/
theorem roundUnits_unitsOfPattern (hp : Nat.pow 2 52 ≤ p) (hfinite : p < infinityPattern) :
    roundUnits (unitsOfPattern p) 1 = p := by
  obtain ⟨hsplit, hle, hlt⟩ := significand_bounds hp
  have hpos : 0 < significand p := Nat.lt_of_lt_of_le (by decide) hle
  have hlog : (significand p).log2 = 52 := by
    refine (Nat.log2_eq_iff (Nat.ne_of_gt hpos)).mpr ⟨hle, ?_⟩
    have h53 : (2 : Nat) ^ (52 + 1) = 2 * Nat.pow 2 52 := by decide
    rwa [h53]
  have hplace : (unitsOfPattern p / 1).log2 - 52 = shift p := by
    rw [Nat.div_one, unitsOfPattern, log2_mul_pow hpos, hlog, Nat.add_sub_cancel_left]
  unfold roundUnits
  dsimp only
  have hpow : 0 < Nat.pow 2 (shift p) := Nat.two_pow_pos _
  rw [hplace, Nat.one_mul, unitsOfPattern, divNearest_mul hpow, ← hsplit]
  exact Nat.min_eq_left (Nat.le_of_lt hfinite)

theorem signed_ofPattern (signed : Bool) (hp : p < Nat.pow 2 63) :
    (ofPattern signed p).signed = signed := by
  cases signed with
  | false => exact signed_ofPattern_false hp
  | true =>
    have hsign : signBit.toNat = Nat.pow 2 63 := by decide
    have h64 : Nat.pow 2 63 + Nat.pow 2 63 = 2 ^ 64 := by decide
    have hmod : p % 2 ^ 64 = p := Nat.mod_eq_of_lt (by omega)
    have htoNat : (signBit + UInt64.ofNat p).toNat = Nat.pow 2 63 + p := by
      rw [UInt64.toNat_add, UInt64.toNat_ofNat', hsign, hmod]
      exact Nat.mod_eq_of_lt (by omega)
    simp only [ofPattern, Number.signed, if_true, decide_eq_true_eq, UInt64.le_iff_toNat_le,
      htoNat, hsign]
    omega

theorem units_ofPattern (signed : Bool) (hp : p < Nat.pow 2 63) :
    (ofPattern signed p).units
      = if signed then -(unitsOfPattern p : Int) else unitsOfPattern p := by
  rw [units, signed_ofPattern signed hp, magnitude_ofPattern signed hp]

/-! ## Whole numbers -/

/-- The number is a whole one. -/
structure IsWhole (x : Number) (m : Int) : Prop where
  finite : x.isFinite = true
  units : x.units = m * unitsPerOne

theorem isWhole_ofPattern {signed : Bool} {m : Int} (hp : p < infinityPattern)
    (hunits : (if signed then -(unitsOfPattern p : Int) else unitsOfPattern p) = m * unitsPerOne) :
    (ofPattern signed p).IsWhole m := by
  have h63 : p < Nat.pow 2 63 := Nat.lt_trans hp (by decide)
  refine ⟨?_, (units_ofPattern signed h63).trans hunits⟩
  rw [isFinite, magnitude_ofPattern signed h63]
  exact decide_eq_true hp

/-- A whole number below `2 ^ 53` is a number exactly. -/
theorem isWhole_ofUnits {m : Int} (hm : m.natAbs < Nat.pow 2 53) :
    (ofUnits (m * unitsPerOne)).IsWhole m := by
  have hU : (0 : Int) < unitsPerOne := Int.natCast_pos.mpr unitsPerOne_pos
  have habs : (m * unitsPerOne).natAbs = m.natAbs * unitsPerOne := by
    rw [Int.natAbs_mul, Int.natAbs_natCast]
  have hround : roundUnits (m.natAbs * unitsPerOne) 1 = pattern m.natAbs := by
    by_cases hzero : m.natAbs = 0
    · rw [hzero, Nat.zero_mul]
      decide
    · rw [roundUnits_natural (Nat.pos_of_ne_zero hzero) hm, pattern, if_neg hzero]
  rw [ofUnits, habs, hround]
  refine isWhole_ofPattern (pattern_lt hm) ?_
  rw [unitsOfPattern_pattern hm, Int.natCast_mul]
  by_cases hneg : m < 0
  · have hlt : m * unitsPerOne < 0 := Int.mul_neg_of_neg_of_pos hneg hU
    rw [decide_eq_true hlt, if_pos rfl, ← Int.neg_mul]
    congr 1
    omega
  · have hle : ¬ m * unitsPerOne < 0 :=
      Int.not_lt.mpr (Int.mul_nonneg (Int.not_lt.mp hneg) (Int.le_of_lt hU))
    rw [decide_eq_false hle, if_neg (by decide)]
    congr 1
    omega

namespace IsWhole

variable {m : Int}

theorem not_isNaN (h : x.IsWhole m) : x.isNaN = false := by
  have hfinite := h.finite
  rw [isFinite, decide_eq_true_eq] at hfinite
  exact decide_eq_false (Nat.lt_asymm hfinite)

theorem not_isInfinite (h : x.IsWhole m) : x.isInfinite = false := by
  have hfinite := h.finite
  rw [isFinite, decide_eq_true_eq] at hfinite
  exact beq_eq_false_iff_ne.mpr (Nat.ne_of_lt hfinite)

/-- A number is one whole number at most. -/
theorem eq_ediv (h : x.IsWhole m) : m = x.units / unitsPerOne := by
  have hU : (unitsPerOne : Int) ≠ 0 := Int.natCast_ne_zero.mpr (Nat.ne_of_gt unitsPerOne_pos)
  rw [h.units, Int.mul_ediv_cancel m hU]

/-- **At least a half is left of a whole number exactly if it is positive.** -/
theorem half_le_iff (h : x.IsWhole m) : half.le x = true ↔ 1 ≤ m := by
  have hhalf : 2 * half.units = unitsPerOne := by decide +kernel
  have hnan : half.isNaN = false := by decide +kernel
  have hU : (0 : Int) < unitsPerOne := Int.natCast_pos.mpr unitsPerOne_pos
  rw [le, hnan, h.not_isNaN]
  simp only [Bool.not_false, Bool.true_and, decide_eq_true_eq]
  constructor
  · intro hrank
    have hle := units_le_of_rank_le hrank
    rw [h.units] at hle
    by_contra hneg
    have hnonpos : m * unitsPerOne ≤ 0 :=
      Int.mul_nonpos_of_nonpos_of_nonneg (by omega) (Int.le_of_lt hU)
    omega
  · intro hpos
    by_contra hrank
    have hle := units_le_of_rank_le (Int.le_of_lt (Int.not_le.mp hrank))
    rw [h.units] at hle
    have hge : 1 * (unitsPerOne : Int) ≤ m * unitsPerOne :=
      Int.mul_le_mul_of_nonneg_right hpos (Int.le_of_lt hU)
    omega

/-- **Counting down is exact.** -/
theorem sub_one (h : x.IsWhole m) (hpos : 1 ≤ m) (hm : m ≤ (Nat.pow 2 53 : Nat)) :
    (x.sub 1).IsWhole (m - 1) := by
  have hone : (neg 1).IsWhole (-1) := ⟨by decide +kernel, by decide +kernel⟩
  have hsum : x.units + (neg 1).units = (m - 1) * unitsPerOne := by
    rw [h.units, hone.units, ← Int.add_mul, Int.sub_eq_add_neg]
  rw [sub, add, h.not_isNaN, h.not_isInfinite, hone.not_isNaN, hone.not_isInfinite, hsum]
  simp only [Bool.or_self, Bool.false_eq_true, if_false]
  split
  · next hzero =>
    refine isWhole_ofPattern (by decide) (Eq.trans ?_ hzero.symm)
    have hunits : unitsOfPattern 0 = 0 := by decide
    rw [hunits, Int.natCast_zero, Int.neg_zero, ite_self]
  · refine isWhole_ofUnits ?_
    generalize Nat.pow 2 53 = bound at *
    omega

end IsWhole

/-! ## Rounding -/

/-- A pattern with a great shift stands for whole ones, and any other pattern for not so many. -/
theorem unitsOfPattern_cases (p : Nat) :
    (Nat.pow 2 52 ≤ p ∧ ∃ j : Nat, unitsOfPattern p = j * unitsPerOne)
      ∨ unitsOfPattern p < Nat.pow 2 52 * unitsPerOne := by
  rcases Nat.lt_or_ge p (Nat.pow 2 52) with hp | hp
  · refine Or.inr ?_
    rw [unitsOfPattern_of_lt hp]
    exact Nat.lt_of_lt_of_le hp (Nat.le_mul_of_pos_right _ unitsPerOne_pos)
  obtain ⟨-, -, hlt⟩ := significand_bounds hp
  rcases Nat.lt_or_ge (shift p) 1074 with hshift | hshift
  · refine Or.inr ?_
    have hpow : Nat.pow 2 (shift p + 1) ≤ unitsPerOne := by
      obtain ⟨k, hk⟩ := Nat.exists_eq_add_of_le hshift
      rw [unitsPerOne, hk]
      exact Nat.pow_le_pow_right (by decide) (Nat.le_add_right _ _)
    calc unitsOfPattern p < 2 * Nat.pow 2 52 * Nat.pow 2 (shift p) :=
        Nat.mul_lt_mul_of_pos_right hlt (Nat.two_pow_pos _)
      _ = Nat.pow 2 52 * Nat.pow 2 (shift p + 1) := two_mul_pow _ _
      _ ≤ Nat.pow 2 52 * unitsPerOne := Nat.mul_le_mul_left _ hpow
  · obtain ⟨k, hk⟩ := Nat.exists_eq_add_of_le' hshift
    have hpow : ∀ u, Nat.pow 2 (k + u) = Nat.pow 2 k * Nat.pow 2 u := Nat.pow_add 2 k
    refine Or.inl ⟨hp, significand p * Nat.pow 2 k, ?_⟩
    rw [unitsOfPattern, hk, hpow, unitsPerOne, Nat.mul_assoc]

/-- The units of a number that is whole already make that number. -/
theorem isWhole_ofUnits_units (hx : x.isFinite = true) (hp : Nat.pow 2 52 ≤ x.magnitude) {m : Int}
    (hm : x.units = m * unitsPerOne) : (ofUnits x.units).IsWhole m := by
  have hfinite : x.magnitude < infinityPattern := of_decide_eq_true hx
  have hpos : 0 < unitsOfPattern x.magnitude := by
    have hle := unitsOfPattern_mono hp
    have hleast : 0 < unitsOfPattern (Nat.pow 2 52) := by decide +kernel
    omega
  have habs : x.units.natAbs = unitsOfPattern x.magnitude := by
    unfold units
    split <;> omega
  rw [ofUnits, habs, roundUnits_unitsOfPattern hp hfinite]
  refine isWhole_ofPattern hfinite (Eq.trans ?_ hm)
  by_cases hneg : x.units < 0
  · rw [decide_eq_true hneg, if_pos rfl]
    omega
  · rw [decide_eq_false hneg, if_neg (by decide)]
    omega

/-- **The greatest whole number that is not above a finite number is a number.** -/
theorem isWhole_floor (hx : x.isFinite = true) : x.floor.IsWhole (x.units / unitsPerOne) := by
  have hU : (0 : Int) < unitsPerOne := Int.natCast_pos.mpr unitsPerOne_pos
  have hfinite : x.magnitude < infinityPattern := of_decide_eq_true hx
  have hnan : x.isNaN = false := decide_eq_false (Nat.lt_asymm hfinite)
  have hinfinite : x.isInfinite = false := beq_eq_false_iff_ne.mpr (Nat.ne_of_lt hfinite)
  have hle : x.units ≤ unitsOfPattern x.magnitude
      ∧ -(unitsOfPattern x.magnitude : Int) ≤ x.units := by
    unfold units
    split <;> omega
  rw [floor, hnan, hinfinite]
  simp only [Bool.false_eq_true, if_false, Bool.false_or]
  split
  · next hzero =>
    have hzero : x.magnitude = 0 := beq_iff_eq.mp hzero
    have hnone : unitsOfPattern 0 = 0 := by decide
    rw [hzero, hnone] at hle
    have hunits : x.units = 0 := by omega
    exact ⟨hx, by rw [hunits, Int.zero_ediv, Int.zero_mul]⟩
  · rw [Int.fdiv_eq_ediv_of_nonneg _ (Int.le_of_lt hU)]
    rcases unitsOfPattern_cases x.magnitude with ⟨hp, j, hj⟩ | hlt
    · have hdvd : (unitsPerOne : Int) ∣ x.units := by
        unfold units
        rw [hj, Int.natCast_mul]
        split
        · exact Int.dvd_neg.mpr (Int.dvd_mul_left _ _)
        · exact Int.dvd_mul_left _ _
      have hself : x.units / unitsPerOne * unitsPerOne = x.units := Int.ediv_mul_cancel hdvd
      rw [hself]
      exact isWhole_ofUnits_units hx hp hself.symm
    · have hlt :
          (unitsOfPattern x.magnitude : Int) < Nat.pow 2 52 * unitsPerOne := by exact_mod_cast hlt
      have hupper : x.units / unitsPerOne < (Nat.pow 2 52 : Nat) :=
        Int.ediv_lt_of_lt_mul hU (by omega)
      have hlower : -(Nat.pow 2 52 : Nat) ≤ x.units / unitsPerOne := by
        refine Int.le_ediv_of_mul_le hU ?_
        rw [Int.neg_mul]
        omega
      have h53 : Nat.pow 2 52 < Nat.pow 2 53 := by decide
      refine isWhole_ofUnits ?_
      generalize Nat.pow 2 53 = bound at *
      omega

/-- **Rounding a finite number goes to a whole number.** -/
theorem isWhole_round (hx : x.round.isFinite = true) :
    x.round.IsWhole (x.round.units / unitsPerOne) := by
  suffices hsum : (x.add half).isFinite = true by
    have hwhole := isWhole_floor hsum
    exact hwhole.eq_ediv ▸ hwhole
  have hround : ((x.add half).floor).isFinite = true := hx
  by_contra hsum
  unfold floor at hround
  split at hround
  · exact absurd hround (by decide +kernel)
  · next hnan =>
    have hinfinite : (x.add half).isInfinite = true := by
      rw [isFinite, decide_eq_true_eq] at hsum
      rw [isNaN, decide_eq_true_eq] at hnan
      exact beq_iff_eq.mpr (Nat.le_antisymm (Nat.not_lt.mp hnan) (Nat.not_lt.mp hsum))
    rw [hinfinite, Bool.true_or, if_pos rfl] at hround
    exact hsum hround

end Number

end BlockScript
