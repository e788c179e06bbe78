import BlockScript.Value.Order

/-!
# The three relations between values

`Value.compare` is the rule by which values compare. Blocks do not ask for an `Ordering` but whether
one value is equal to another, greater or less, and each of these questions has a short cut: finite
numbers are compared at once, equal texts and truth values are not read at all. The short cuts give
what the rule gives (`Value.equal_eq`, `Value.greater_eq`, `Value.less_eq`).

The rule looks at numbers or at texts, and which of the two does not depend on the side on which a
value stands. So turning the sides round turns the result round (`Value.swap_compare`), although the
rule as a whole is no order: numbers and texts do not fit together into one.

Main statement: the relations are the three results of the rule, exactly one of them holds, and the
rule is symmetric in its sides (`Value.relations_agree`).
-/

namespace BlockScript

/-! ## Numbers -/

namespace Number

variable {x y : Number}

theorem isNaN_eq_false_of_isFinite (h : x.isFinite = true) : x.isNaN = false := by
  rw [isFinite, decide_eq_true_eq] at h
  rw [isNaN, decide_eq_false_iff_not]
  omega

/-- Of finite numbers the ranks are compared. -/
theorem lt_of_isFinite (hx : x.isFinite = true) (hy : y.isFinite = true) :
    x.lt y = decide (x.rank < y.rank) := by
  simp [lt, isNaN_eq_false_of_isFinite hx, isNaN_eq_false_of_isFinite hy]

theorem equals_of_isFinite (hx : x.isFinite = true) (hy : y.isFinite = true) :
    x.equals y = decide (x.rank = y.rank) := by
  simp [equals, isNaN_eq_false_of_isFinite hx, isNaN_eq_false_of_isFinite hy, Bool.beq_eq_decide_eq]

theorem lt_asymm (h : x.lt y = true) : y.lt x = false := by
  simp only [lt, Bool.and_eq_true, decide_eq_true_eq] at h
  have hrank : ¬ y.rank < x.rank := by omega
  simp [lt, hrank]

theorem swap_compare (x y : Number) : (compare x y).swap = compare y x := by
  unfold compare
  by_cases hxy : x.lt y = true
  · simp [hxy, lt_asymm hxy]
  · by_cases hyx : y.lt x = true
    · simp [hxy, hyx]
    · simp [hxy, hyx]

theorem compare_self (x : Number) : compare x x = .eq := by
  have hlt : x.lt x = false := by simp [lt]
  simp [compare, hlt]

/-- **Finite numbers compare by their ranks**, so that the two zeros are equal. -/
theorem compare_of_isFinite (hx : x.isFinite = true) (hy : y.isFinite = true) :
    compare x y = if x.rank < y.rank then .lt else if y.rank < x.rank then .gt else .eq := by
  simp only [compare, lt_of_isFinite hx hy, lt_of_isFinite hy hx, decide_eq_true_eq]

end Number

/-! ## Texts -/

namespace Text

theorem compare_self : ∀ cs : List Char, compare cs cs = .eq
  | [] => rfl
  | c :: cs => by
    rw [compare, if_neg (Nat.lt_irrefl _), if_neg (Nat.lt_irrefl _)]
    exact compare_self cs

theorem swap_compare : ∀ cs ds : List Char, (compare cs ds).swap = compare ds cs
  | [], [] | [], _ :: _ | _ :: _, [] => rfl
  | c :: cs, d :: ds => by
    rw [compare, compare]
    by_cases hlt : c.toNat < d.toNat
    · rw [if_pos hlt, if_neg (Nat.lt_asymm hlt), if_pos hlt]
      rfl
    · by_cases hgt : d.toNat < c.toNat
      · rw [if_neg hlt, if_pos hgt, if_pos hgt]
        rfl
      · rw [if_neg hlt, if_neg hgt, if_neg hgt, if_neg hlt]
        exact swap_compare cs ds

end Text

/-! ## Values -/

namespace Value

variable {a b : Value}

/-- Values compare as numbers or as texts. -/
theorem compare_cases (a b : Value) :
    (a.reading.isFinite = true ∧ b.reading.isFinite = true
        ∧ compare a b = Number.compare a.reading b.reading)
      ∨ ((a.reading.isFinite = false ∨ b.reading.isFinite = false)
        ∧ compare a b = Text.compare a.folded b.folded) := by
  unfold compare comparable?
  cases a.reading.isFinite with
  | false => exact Or.inr ⟨Or.inl rfl, rfl⟩
  | true =>
    cases b.reading.isFinite with
    | false => exact Or.inr ⟨Or.inr rfl, rfl⟩
    | true => exact Or.inl ⟨rfl, rfl, rfl⟩

/-- **Turning the sides round turns the result round.** -/
theorem swap_compare (a b : Value) : (compare a b).swap = compare b a := by
  rcases compare_cases a b with ⟨ha, hb, hab⟩ | ⟨hinfinite, hab⟩
  · rcases compare_cases b a with ⟨-, -, hba⟩ | ⟨hnot, -⟩
    · rw [hab, hba, Number.swap_compare]
    · simp [ha, hb] at hnot
  · rcases compare_cases b a with ⟨hb, ha, -⟩ | ⟨-, hba⟩
    · simp [ha, hb] at hinfinite
    · rw [hab, hba, Text.swap_compare]

theorem compare_self (a : Value) : compare a a = .eq := by
  rcases compare_cases a a with ⟨-, -, h⟩ | ⟨-, h⟩
  · rw [h, Number.compare_self]
  · rw [h, Text.compare_self]

/-- Finite numbers compare as themselves. -/
theorem compare_number {x y : Number} (hx : x.isFinite = true) (hy : y.isFinite = true) :
    compare (.number x) (.number y)
      = if x.rank < y.rank then .lt else if y.rank < x.rank then .gt else .eq := by
  rw [← Number.compare_of_isFinite hx hy]
  simp [compare, comparable?, reading, hx, hy]

/-- Truth values compare as zero and one. -/
theorem compare_bool (p q : Bool) : (compare (.bool p) (.bool q) == .eq) = (p == q) := by
  cases p <;> cases q <;> decide +kernel

/-- **Values are equal if the rule says so**: the short cuts for numbers, texts and truth values
agree. -/
theorem equal_eq (a b : Value) : a.equal b = (compare a b == .eq) := by
  unfold equal
  split
  · next x y =>
    split
    · next hfinite =>
      obtain ⟨hx, hy⟩ := (Bool.and_eq_true _ _).mp hfinite
      rw [compare_number hx hy, Number.equals_of_isFinite hx hy]
      grind
    · rfl
  · next s t =>
    by_cases hst : s = t
    · simp [hst, compare_self]
    · simp [hst]
  · next p q => exact (compare_bool p q).symm
  · rfl

/-- **A value is greater if the rule says so.** -/
theorem greater_eq (a b : Value) : a.greater b = (compare a b == .gt) := by
  unfold greater
  split
  · next x y =>
    split
    · next hfinite =>
      obtain ⟨hx, hy⟩ := (Bool.and_eq_true _ _).mp hfinite
      rw [compare_number hx hy, Number.lt_of_isFinite hy hx]
      grind
    · rfl
  · rfl

/-- **A value is less if the rule says so.** -/
theorem less_eq (a b : Value) : a.less b = (compare a b == .lt) := by
  unfold less
  split
  · next x y =>
    split
    · next hfinite =>
      obtain ⟨hx, hy⟩ := (Bool.and_eq_true _ _).mp hfinite
      rw [compare_number hx hy, Number.lt_of_isFinite hx hy]
      grind
    · rfl
  · rfl

/--
**The three relations are the three results of the rule.**

For all values, whatever numbers, texts and truth values they are: each relation holds exactly if
the rule gives its result, so exactly one of the three holds. The rule gives the reverse if the
sides are turned round. So being less one way is being greater the other way, and equality is
symmetric and reflexive.
-/
theorem relations_agree (a b : Value) :
    (a.equal b = true ↔ compare a b = .eq)
    ∧ (a.greater b = true ↔ compare a b = .gt)
    ∧ (a.less b = true ↔ compare a b = .lt)
    ∧ [a.equal b, a.greater b, a.less b].count true = 1
    ∧ compare b a = (compare a b).swap
    ∧ a.less b = b.greater a
    ∧ a.equal b = b.equal a
    ∧ a.equal a = true := by
  refine ⟨?_, ?_, ?_, ?_, (swap_compare a b).symm, ?_, ?_, ?_⟩
  · rw [equal_eq, beq_iff_eq]
  · rw [greater_eq, beq_iff_eq]
  · rw [less_eq, beq_iff_eq]
  · rw [equal_eq, greater_eq, less_eq]
    cases compare a b <;> rfl
  · rw [less_eq, greater_eq, ← swap_compare a b]
    cases compare a b <;> rfl
  · rw [equal_eq, equal_eq, ← swap_compare a b]
    cases compare a b <;> rfl
  · rw [equal_eq, compare_self]
    rfl

end Value

end BlockScript
