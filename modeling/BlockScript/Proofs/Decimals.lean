import BlockScript.Proofs.Literals
import BlockScript.Proofs.Rounding
import Mathlib.Tactic.Ring

/-!
# The shortest decimal of a number

A decimal is read as the number nearest to it, and which one that is depends on its value alone, not
on how it is split into a significand and a power of ten (`Decimal.pattern_scale`). What lies above
a number by less than half of the distance to the next one is read as that number
(`Number.roundUnits_of_near`). On a grid of eighteen digits there is such a decimal, so the search
for the shortest one never comes to its end (`Number.found_shortest`): what it finds reads back, and
has a significand of at most `10 ^ 18`.
-/

namespace BlockScript

namespace Number

/-! ## Rounding quotients -/

theorem divNearest_scale {c : Nat} (hc : 0 < c) (num den : Nat) :
    divNearest (num * c) (den * c) = divNearest num den := by
  have hlt : ∀ a b : Nat, a * c < b * c ↔ a < b := fun a b => Nat.mul_lt_mul_right hc
  simp only [divNearest, Nat.mul_div_mul_right _ _ hc, Nat.mul_mod_mul_right, ← Nat.mul_assoc, hlt]

theorem roundUnits_scale {c : Nat} (hc : 0 < c) (num den : Nat) :
    roundUnits (num * c) (den * c) = roundUnits num den := by
  have hden : ∀ k, den * c * Nat.pow 2 k = den * Nat.pow 2 k * c :=
    fun k => Nat.mul_right_comm _ _ _
  simp only [roundUnits, Nat.mul_div_mul_right _ _ hc, hden, divNearest_scale hc]

/-- Which number is nearest depends on the quotient alone. -/
theorem roundUnits_congr {num den num' den' : Nat} (hden : 0 < den) (hden' : 0 < den')
    (h : num * den' = num' * den) : roundUnits num den = roundUnits num' den' := by
  rw [← roundUnits_scale hden' num den, h, Nat.mul_comm den, roundUnits_scale hden]

/-- A pattern is its significand, moved by its shift; the significand has all its bits unless the
shift is the least one. -/
theorem pattern_split (p : Nat) :
    p = shift p * Nat.pow 2 52 + significand p ∧ significand p < 2 * Nat.pow 2 52
      ∧ (shift p = 0 ∨ Nat.pow 2 52 ≤ significand p) := by
  rcases Nat.lt_or_ge p (Nat.pow 2 52) with hp | hp
  · have hshift : shift p = 0 := by rw [shift, Nat.div_eq_of_lt hp]
    have hsignificand : significand p = p := by rw [significand, if_pos hp]
    rw [hshift, hsignificand]
    exact ⟨by omega, by omega, Or.inl rfl⟩
  · obtain ⟨hsplit, hle, hlt⟩ := significand_bounds hp
    exact ⟨hsplit, hlt, Or.inr hle⟩

/-- From the units of a pattern up to those of the next one, the significand is the place to round
at. -/
theorem log2_of_near {p w : Nat} (hle : unitsOfPattern p ≤ w)
    (hlt : w < unitsOfPattern p + Nat.pow 2 (shift p)) : w.log2 - 52 = shift p := by
  obtain ⟨-, hbits, hleast⟩ := pattern_split p
  have hupper : w < Nat.pow 2 (53 + shift p) := by
    calc w < (significand p + 1) * Nat.pow 2 (shift p) := by rw [Nat.succ_mul]; exact hlt
      _ ≤ Nat.pow 2 53 * Nat.pow 2 (shift p) := Nat.mul_le_mul_right _ hbits
      _ = Nat.pow 2 (53 + shift p) := (Nat.pow_add 2 53 (shift p)).symm
  have hlog : w.log2 < 53 + shift p := by
    by_cases hw : w = 0
    · rw [hw, Nat.log2_zero]
      omega
    · exact (Nat.log2_lt hw).mpr hupper
  rcases hleast with hzero | hfull
  · omega
  · have hlower : Nat.pow 2 (52 + shift p) ≤ w := by
      calc Nat.pow 2 (52 + shift p) = Nat.pow 2 52 * Nat.pow 2 (shift p) :=
        Nat.pow_add 2 52 (shift p)
        _ ≤ unitsOfPattern p := Nat.mul_le_mul_right _ hfull
        _ ≤ w := hle
    have hw : w ≠ 0 := Nat.ne_of_gt (Nat.lt_of_lt_of_le (Nat.two_pow_pos _) hlower)
    have hle : 52 + shift p ≤ w.log2 := (Nat.le_log2 hw).mpr hlower
    omega

/-- **What is not below a number, and above it by less than half of its last place, is rounded to
it.** -/
theorem roundUnits_of_near {p num den : Nat} (hp : p < infinityPattern) (hden : 0 < den)
    (hle : unitsOfPattern p * den ≤ num)
    (hlt : 2 * num < (2 * unitsOfPattern p + Nat.pow 2 (shift p)) * den) :
    roundUnits num den = p := by
  have hhalf : 2 * num < 2 * (unitsOfPattern p * den) + Nat.pow 2 (shift p) * den := by
    rwa [Nat.add_mul, Nat.mul_assoc] at hlt
  have hnext : num < (unitsOfPattern p + Nat.pow 2 (shift p)) * den := by
    rw [Nat.add_mul]
    omega
  have hplace : (num / den).log2 - 52 = shift p :=
    log2_of_near ((Nat.le_div_iff_mul_le hden).mpr hle) ((Nat.div_lt_iff_lt_mul hden).mpr hnext)
  -- The place counts the significand, and less than half of it is left over.
  have hscale : significand p * (den * Nat.pow 2 (shift p)) = unitsOfPattern p * den := by
    rw [unitsOfPattern, Nat.mul_comm den, Nat.mul_assoc]
  have hquotient : num / (den * Nat.pow 2 (shift p)) = significand p := by
    refine Nat.div_eq_of_lt_le (by rwa [hscale]) ?_
    rw [Nat.succ_mul, hscale, Nat.mul_comm den]
    rwa [Nat.add_mul] at hnext
  have hrest : 2 * (num % (den * Nat.pow 2 (shift p))) < den * Nat.pow 2 (shift p) := by
    have hdivision := Nat.div_add_mod num (den * Nat.pow 2 (shift p))
    rw [hquotient, Nat.mul_comm, hscale] at hdivision
    rw [Nat.mul_comm (Nat.pow 2 (shift p))] at hhalf
    omega
  have hround : divNearest num (den * Nat.pow 2 (shift p)) = significand p := by
    simp only [divNearest, hquotient, if_pos hrest]
  simp only [roundUnits, hplace, hround]
  rw [← (pattern_split p).1]
  exact Nat.min_eq_left (Nat.le_of_lt hp)

end Number

/-! ## Powers of ten -/

/-- Ten to the power of `e`, and one if that is no whole number. So `10 ^ e` is `tens e` over
`tens (-e)`. -/
def tens (e : Int) : Nat := Nat.pow 10 e.toNat

theorem tens_pos (e : Int) : 0 < tens e := Nat.pow_pos (by decide)

theorem tens_of_nonpos {e : Int} (h : e ≤ 0) : tens e = 1 :=
  congrArg (Nat.pow 10) (Int.toNat_of_nonpos h)

theorem tens_natCast (n : Nat) : tens n = Nat.pow 10 n := rfl

/-- The powers `e` and `e + j` are `j` factors of ten apart. -/
theorem tens_add (e : Int) (j : Nat) :
    tens (e + j) * tens (-e) = Nat.pow 10 j * (tens e * tens (-(e + j))) := by
  have hpow : ∀ a b, Nat.pow 10 a * Nat.pow 10 b = Nat.pow 10 (a + b) := fun a b =>
    (Nat.pow_add 10 a b).symm
  unfold tens
  rw [hpow, hpow, hpow]
  congr 1
  omega

/-- Quotients compare with a power of ten as they do, counted in a smaller one, with the factor
between. -/
theorem mul_tens_le_iff (a b : Nat) (e : Int) (j : Nat) :
    a * tens (e + j) ≤ b * tens (-(e + j)) ↔ Nat.pow 10 j * (a * tens e) ≤ b * tens (-e) := by
  have hleft : a * tens (e + j) * tens (-e) = Nat.pow 10 j * (a * tens e) * tens (-(e + j)) := by
    calc a * tens (e + j) * tens (-e) = a * (tens (e + j) * tens (-e)) := by ring
      _ = Nat.pow 10 j * (a * tens e) * tens (-(e + j)) := by rw [tens_add]; ring
  have hright : b * tens (-(e + j)) * tens (-e) = b * tens (-e) * tens (-(e + j)) := by ring
  rw [← Nat.mul_le_mul_right_iff (tens_pos (-e)), hleft, hright,
    Nat.mul_le_mul_right_iff (tens_pos _)]

namespace Decimal

open Number (unitsPerOne roundUnits roundUnits_congr unitsPerOne_pos)

theorem fraction_eq (d : Decimal) :
    d.fraction = (d.significand * (unitsPerOne * tens d.exponent), tens (-d.exponent)) := by
  unfold fraction
  split
  next h =>
    rw [tens_of_nonpos (by omega : -d.exponent ≤ 0), Nat.mul_comm unitsPerOne, ← Nat.mul_assoc]
    rfl
  next h =>
    rw [tens_of_nonpos (by omega : d.exponent ≤ 0), Nat.mul_one]
    rfl

/-- A decimal whose exponent is near to zero is rounded. -/
theorem pattern_eq {d : Decimal} (hpos : 0 < d.significand) (hleast : -400 ≤ d.exponent)
    (hgreatest : d.exponent ≤ 400) :
    d.pattern
      = roundUnits (d.significand * (unitsPerOne * tens d.exponent)) (tens (-d.exponent)) := by
  rw [pattern, if_neg (by omega), if_neg (by omega), if_neg (by omega), fraction_eq]

/-- **Zeros at the end of the significand are as good as a greater exponent.** -/
theorem pattern_scale {w z : Nat} {e : Int} (hpos : 0 < w) (hleast : -400 ≤ e - z)
    (hgreatest : e ≤ 400) :
    (⟨w * Nat.pow 10 z, e - z⟩ : Decimal).pattern = (⟨w, e⟩ : Decimal).pattern := by
  have hscaled : 0 < w * Nat.pow 10 z := Nat.mul_pos hpos (Nat.pow_pos (by decide))
  have hshift := tens_add (e - z) z
  rw [Int.sub_add_cancel] at hshift
  rw [pattern_eq hscaled hleast (by show e - z ≤ 400; omega),
    pattern_eq hpos (by show -400 ≤ e; omega) hgreatest]
  refine roundUnits_congr (tens_pos _) (tens_pos _) ?_
  calc w * Nat.pow 10 z * (unitsPerOne * tens (e - z)) * tens (-e)
      = w * unitsPerOne * (Nat.pow 10 z * (tens (e - z) * tens (-e))) := by ring
    _ = w * (unitsPerOne * tens e) * tens (-(e - z)) := by rw [← hshift]; ring

end Decimal

namespace Number

variable {p : Nat} {place : Int}

theorem onGrid_eq (u : Nat) (place : Int) :
    onGrid u place = (u * tens (-place), unitsPerOne * tens place) := by
  unfold onGrid
  split
  next h =>
    rw [tens_of_nonpos (by omega : -place ≤ 0), Nat.mul_one]
    rfl
  next h =>
    rw [tens_of_nonpos (by omega : place ≤ 0), Nat.mul_one]
    rfl

/-! ## The position of the point -/

theorem lt_pow_digitCount (n : Nat) : n < Nat.pow 10 (digitCount n) :=
  (Nat.length_toDigits_le_iff (by decide) Nat.length_toDigits_pos).mp (Nat.le_refl _)

theorem pow_digitCount_le {n : Nat} (hn : 0 < n) : Nat.pow 10 (digitCount n - 1) ≤ n := by
  by_cases hone : digitCount n - 1 = 0
  · rw [hone]
    exact hn
  · refine Nat.le_of_not_lt fun hlt => ?_
    have hle : digitCount n ≤ digitCount n - 1 :=
      (Nat.length_toDigits_le_iff (by decide) (Nat.pos_of_ne_zero hone)).mpr hlt
    omega

theorem digitCount_pos (n : Nat) : 0 < digitCount n := Nat.length_toDigits_pos

theorem digitCount_le {n k : Nat} (hk : 0 < k) (hn : n < tens k) : digitCount n ≤ k :=
  (Nat.length_toDigits_le_iff (by decide) hk).mpr hn

theorem unitsOfPattern_pos (hp : 0 < p) : 0 < unitsOfPattern p := by
  have hone : unitsOfPattern 1 = 1 := by decide
  have hle := unitsOfPattern_mono (show 1 ≤ p from hp)
  omega

/-- A number lies between two neighbouring powers of ten. -/
theorem pointPosition_bounds (hp : 0 < p) :
    unitsPerOne * tens (pointPosition p - 1) ≤ unitsOfPattern p * tens (-(pointPosition p - 1))
      ∧ unitsOfPattern p * tens (-pointPosition p) < unitsPerOne * tens (pointPosition p) := by
  have hu := unitsOfPattern_pos hp
  have hone := unitsPerOne_pos
  unfold pointPosition
  generalize unitsOfPattern p = u at *
  generalize unitsPerOne = U at *
  dsimp only
  split
  next hle =>
    have hpos := digitCount_pos (u / U)
    have hlower := pow_digitCount_le (Nat.div_pos hle hone)
    have hupper := lt_pow_digitCount (u / U)
    have hpred : ((digitCount (u / U) : Int) - 1) = (digitCount (u / U) - 1 : Nat) := by omega
    rw [tens_of_nonpos (by omega : -((digitCount (u / U) : Int) - 1) ≤ 0),
      tens_of_nonpos (by omega : -(digitCount (u / U) : Int) ≤ 0), hpred, tens_natCast,
      tens_natCast, Nat.mul_one]
    constructor
    · rw [Nat.mul_comm]
      exact (Nat.le_div_iff_mul_le hone).mp hlower
    · rw [Nat.mul_comm]
      exact (Nat.div_lt_iff_lt_mul hone).mp hupper
  next hlt =>
    have hpos := digitCount_pos ((U - 1) / u)
    have hlower := pow_digitCount_le (Nat.div_pos (by omega : u ≤ U - 1) hu)
    have hupper := lt_pow_digitCount ((U - 1) / u)
    generalize digitCount ((U - 1) / u) = d at *
    have hpred : -(1 - (d : Int)) = (d - 1 : Nat) := by omega
    have hneg : -(1 - (d : Int) - 1) = d := by omega
    rw [hneg, hpred, tens_of_nonpos (by omega : 1 - (d : Int) - 1 ≤ 0),
      tens_of_nonpos (by omega : 1 - (d : Int) ≤ 0), tens_natCast, tens_natCast, Nat.mul_one]
    have hle := (Nat.le_div_iff_mul_le hu).mp hlower
    have hlt := (Nat.div_lt_iff_lt_mul hu).mp hupper
    rw [Nat.mul_comm] at hle hlt
    omega

theorem pointPosition_range (hp : 0 < p) (hfinite : p < infinityPattern) :
    -323 ≤ pointPosition p ∧ pointPosition p ≤ 309 := by
  have hu := unitsOfPattern_pos hp
  unfold pointPosition
  dsimp only
  split
  next hle =>
    have hmax := unitsOfPattern_mono (Nat.le_sub_one_of_lt hfinite)
    have hcount : unitsOfPattern (infinityPattern - 1) / unitsPerOne < tens (309 : Nat) := by
      decide +kernel
    have hdigits : digitCount (unitsOfPattern p / unitsPerOne) ≤ 309 :=
      digitCount_le (by decide) (Nat.lt_of_le_of_lt (Nat.div_le_div_right hmax) hcount)
    omega
  next hlt =>
    have hcount : unitsPerOne - 1 < tens (324 : Nat) := by decide +kernel
    have hdigits : digitCount ((unitsPerOne - 1) / unitsOfPattern p) ≤ 324 :=
      digitCount_le (by decide) (Nat.lt_of_le_of_lt (Nat.div_le_self _ _) hcount)
    omega

/-! ## The search -/

/-- The number of steps on the grid below a number. -/
def stepsBelow (p : Nat) (place : Int) : Nat :=
  unitsOfPattern p * tens (-place) / (unitsPerOne * tens place)

/-- A number is less than ten to the power of its position, so it is few steps from zero. -/
theorem stepsBelow_lt (hp : 0 < p) (j : Nat) :
    stepsBelow p (pointPosition p - j) < Nat.pow 10 j := by
  have hupper := (pointPosition_bounds hp).2
  have hgrid := mul_tens_le_iff unitsPerOne (unitsOfPattern p) (pointPosition p - j) j
  rw [Int.sub_add_cancel] at hgrid
  rw [stepsBelow, Nat.div_lt_iff_lt_mul (Nat.mul_pos unitsPerOne_pos (tens_pos _))]
  exact Nat.lt_of_not_le fun hle => Nat.not_le_of_lt hupper (hgrid.mpr hle)

theorem nearestAt?_eq_some {d : Decimal} (h : nearestAt? p place = some d) :
    d.pattern = p ∧ d.exponent = place ∧ d.significand ≤ stepsBelow p place + 1 := by
  unfold nearestAt? at h
  rw [onGrid_eq] at h
  dsimp only at h
  rw [← stepsBelow] at h
  split at h
  next hbelow habove =>
    rw [beq_iff_eq] at hbelow habove
    split at h
    · cases h
      exact ⟨hbelow, rfl, Nat.le_succ _⟩
    · cases h
      exact ⟨habove, rfl, Nat.le_refl _⟩
  next hbelow habove =>
    cases h
    exact ⟨beq_iff_eq.mp hbelow, rfl, Nat.le_succ _⟩
  next hbelow habove =>
    cases h
    exact ⟨beq_iff_eq.mp habove, rfl, Nat.le_refl _⟩
  next => cases h

theorem isSome_nearestAt? (h : (⟨stepsBelow p place + 1, place⟩ : Decimal).pattern = p) :
    (nearestAt? p place).isSome = true := by
  unfold nearestAt?
  rw [onGrid_eq]
  dsimp only
  rw [← stepsBelow, h, BEq.rfl]
  split
  · rfl
  · rfl
  · rfl
  next heq => cases heq

/-- If there is a decimal at some place to be searched, one is found there or before. -/
theorem exists_of_searchFrom {j more : Nat} (hj : j < more)
    (hsome : (nearestAt? p (place - j)).isSome = true) :
    ∃ i ≤ j, nearestAt? p (place - i) = some (searchFrom p place more) := by
  induction more generalizing place j with
  | zero => exact absurd hj (Nat.not_lt_zero j)
  | succ more ih =>
    rw [searchFrom]
    split
    next d hd => exact ⟨0, Nat.zero_le j, by simpa using hd⟩
    next hnone =>
      cases j with
      | zero =>
        rw [Int.natCast_zero, Int.sub_zero, hnone] at hsome
        cases hsome
      | succ j =>
        have hplace : ∀ i : Nat, place - 1 - i = place - (i + 1 : Nat) := fun i => by omega
        rw [← hplace] at hsome
        obtain ⟨i, hi, hfound⟩ := ih (Nat.lt_of_succ_lt_succ hj) hsome
        rw [hplace] at hfound
        exact ⟨i + 1, Nat.succ_le_succ hi, hfound⟩

/-- At a place of eighteen digits a step of the grid is less than half of the last place of a
number. -/
theorem step_lt_half (hp : 0 < p) :
    2 * (unitsPerOne * tens (pointPosition p - 18))
      < Nat.pow 2 (shift p) * tens (-(pointPosition p - 18)) := by
  have hlower := (pointPosition_bounds hp).1
  have hgrid := mul_tens_le_iff unitsPerOne (unitsOfPattern p) (pointPosition p - 18) 17
  have hplace : pointPosition p - 18 + (17 : Nat) = pointPosition p - 1 := by omega
  rw [hplace] at hgrid
  have hsteps := hgrid.mp hlower
  generalize pointPosition p - 18 = q at *
  have hsignificand : unitsOfPattern p * tens (-q)
      ≤ 2 * Nat.pow 2 52 * (Nat.pow 2 (shift p) * tens (-q)) := by
    rw [unitsOfPattern, Nat.mul_assoc]
    exact Nat.mul_le_mul_right _ (Nat.le_of_lt (pattern_split p).2.1)
  have hpos : 0 < Nat.pow 2 (shift p) * tens (-q) := Nat.mul_pos (Nat.two_pow_pos _) (tens_pos _)
  generalize Nat.pow 2 (shift p) * tens (-q) = lastPlace at *
  generalize unitsPerOne * tens q = step at *
  have h10 : Nat.pow 10 17 = 100000000000000000 := rfl
  have h2 : Nat.pow 2 52 = 4503599627370496 := rfl
  rw [h10] at hsteps
  rw [h2] at hsignificand
  omega

/-- **The next decimal above a number on the grid of eighteen digits reads back as the number.** -/
theorem pattern_above (hp : 0 < p) (hfinite : p < infinityPattern) :
    (⟨stepsBelow p (pointPosition p - 18) + 1, pointPosition p - 18⟩ : Decimal).pattern = p := by
  obtain ⟨hleast, hgreatest⟩ := pointPosition_range hp hfinite
  have hhalf := step_lt_half hp
  rw [Decimal.pattern_eq (Nat.succ_pos _) (by show -400 ≤ pointPosition p - 18; omega)
    (by show pointPosition p - 18 ≤ 400; omega)]
  dsimp only
  generalize pointPosition p - 18 = q at *
  have hstep : 0 < unitsPerOne * tens q := Nat.mul_pos unitsPerOne_pos (tens_pos q)
  rw [stepsBelow]
  generalize unitsPerOne * tens q = step at *
  have hsplit := Nat.div_add_mod (unitsOfPattern p * tens (-q)) step
  have hrest := Nat.mod_lt (unitsOfPattern p * tens (-q)) hstep
  rw [Nat.mul_comm] at hsplit
  have habove := Nat.add_one_mul (unitsOfPattern p * tens (-q) / step) step
  have hbetween := Nat.add_mul (2 * unitsOfPattern p) (Nat.pow 2 (shift p)) (tens (-q))
  rw [Nat.mul_assoc 2] at hbetween
  refine roundUnits_of_near hfinite (tens_pos _) ?_ ?_
  · omega
  · omega

/-- What the shortest decimal of a pattern is like. -/
structure Found (p : Nat) (d : Decimal) : Prop where
  pattern : d.pattern = p
  pos : 0 < d.significand
  le : d.significand ≤ Nat.pow 10 18
  least : -341 ≤ d.exponent
  greatest : d.exponent ≤ 308

/-- **The search finds a decimal that reads back**, and one that is not long. -/
theorem found_shortest (hp : 0 < p) (hfinite : p < infinityPattern) : Found p (shortest p) := by
  obtain ⟨hleast, hgreatest⟩ := pointPosition_range hp hfinite
  have hsome := isSome_nearestAt? (pattern_above hp hfinite)
  have hplace : pointPosition p - 18 = pointPosition p - 1 - (17 : Nat) := by omega
  rw [hplace] at hsome
  obtain ⟨i, hi, hfound⟩ := exists_of_searchFrom
    (by omega : 17 < (pointPosition p - 1 + 1075).toNat) hsome
  obtain ⟨hpattern, hexponent, hsteps⟩ := nearestAt?_eq_some hfound
  rw [← shortest] at hpattern hexponent hsteps
  refine ⟨hpattern, ?_, ?_, by omega, by omega⟩
  · by_contra hzero
    rw [Decimal.pattern, if_pos (by omega)] at hpattern
    omega
  · have hlt := stepsBelow_lt hp (i + 1)
    have hgrid : pointPosition p - (i + 1 : Nat) = pointPosition p - 1 - i := by omega
    rw [hgrid] at hlt
    exact Nat.le_trans hsteps (Nat.le_trans hlt (Nat.pow_le_pow_right (by decide) (by omega)))

end Number

end BlockScript
