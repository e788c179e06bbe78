import BlockScript.Proofs.Comparison
import BlockScript.Proofs.Decimals
import Mathlib.Data.List.Induction

/-!
# Written numbers that are read

What a script gets for a number is a decimal, in one of two notations, and each of them is a literal
for that decimal. `Spells` says which decimal a text is a literal for: positional notation and the
exponent form both spell the digits they lay out (`spells_writeDigits`), though positional notation
may write zeros at the end of a whole number, which the digits do not have. The reader takes a text
for the decimal that it spells (`Spells.readDecimal?`), and zeros at the end do not change which
number is nearest. So the text of a number is read as the number to which its shortest decimal is
read back.

Main statement: `lossless_text`.
-/

namespace BlockScript

namespace Number

/-! ## Digits -/

theorem digitValue_digitChar {d : Nat} (hd : d < 10) : digitValue d.digitChar = d := by
  have htable : ∀ d < 10, digitValue d.digitChar = d := by decide
  exact htable d hd

theorem isNumeral_toDigits (n : Nat) : IsNumeral 10 (Nat.toDigits 10 n) := by
  refine ⟨Nat.toDigits_ne_nil, ?_⟩
  induction n using Nat.strongRecOn with
  | ind n ih =>
    rcases Nat.lt_or_ge n 10 with hn | hn
    · rw [Nat.toDigits_of_lt_base hn]
      intro c hc
      exact ⟨n, hn, .inl (List.mem_singleton.mp hc)⟩
    · rw [Nat.toDigits_of_base_le (by decide) hn]
      intro c hc
      rcases List.mem_append.mp hc with hc | hc
      · exact ih (n / 10) (by omega) c hc
      · exact ⟨n % 10, Nat.mod_lt n (by decide), .inl (List.mem_singleton.mp hc)⟩

theorem foldl_digits (cs : List Char) (n : Nat) :
    cs.foldl (fun n c => n * 10 + digitValue c) n
      = n * Nat.pow 10 cs.length + wholeOfDigits cs := by
  induction cs generalizing n with
  | nil =>
    show n = n * 1 + 0
    omega
  | cons c cs ih =>
    have hpow : Nat.pow 10 (c :: cs).length = Nat.pow 10 cs.length * 10 := rfl
    rw [wholeOfDigits, List.foldl_cons, List.foldl_cons, ih, ih (0 * 10 + digitValue c), hpow]
    ring

theorem wholeOfDigits_append (as bs : List Char) :
    wholeOfDigits (as ++ bs) = wholeOfDigits as * Nat.pow 10 bs.length + wholeOfDigits bs := by
  rw [wholeOfDigits, List.foldl_append, foldl_digits]
  rfl

theorem wholeOfDigits_zero_cons (cs : List Char) :
    wholeOfDigits ('0' :: cs) = wholeOfDigits cs := rfl

theorem wholeOfDigits_replicate_append (k : Nat) (cs : List Char) :
    wholeOfDigits (List.replicate k '0' ++ cs) = wholeOfDigits cs := by
  induction k with
  | zero => rfl
  | succ k ih => rw [List.replicate_succ, List.cons_append, wholeOfDigits_zero_cons, ih]

/-- Zeros at the end are factors of ten. -/
theorem wholeOfDigits_append_replicate (cs : List Char) (k : Nat) :
    wholeOfDigits (cs ++ List.replicate k '0') = wholeOfDigits cs * Nat.pow 10 k := by
  have hzeros := wholeOfDigits_replicate_append k []
  rw [List.append_nil] at hzeros
  rw [wholeOfDigits_append, hzeros, List.length_replicate]
  rfl

theorem wholeOfDigits_toDigits (n : Nat) : wholeOfDigits (Nat.toDigits 10 n) = n := by
  have hdigit : ∀ d < 10, wholeOfDigits [d.digitChar] = d := fun d hd => by
    show 0 * 10 + digitValue d.digitChar = d
    rw [digitValue_digitChar hd]
    omega
  induction n using Nat.strongRecOn with
  | ind n ih =>
    rcases Nat.lt_or_ge n 10 with hn | hn
    · rw [Nat.toDigits_of_lt_base hn, hdigit n hn]
    · rw [Nat.toDigits_of_base_le (by decide) hn, wholeOfDigits_append, ih (n / 10) (by omega),
        hdigit _ (Nat.mod_lt n (by decide))]
      exact Nat.div_add_mod' n 10

/-- An exponent that is small enough is taken in whole. -/
theorem exponentOfDigits_eq (cs : List Char) (h : wholeOfDigits cs < 65536) :
    exponentOfDigits cs = wholeOfDigits cs := by
  induction cs using List.reverseRecOn with
  | nil => rfl
  | append_singleton cs c ih =>
    have hwhole : wholeOfDigits (cs ++ [c]) = wholeOfDigits cs * 10 + digitValue c := by
      rw [wholeOfDigits, List.foldl_append]
      rfl
    rw [hwhole] at h ⊢
    have hlt : wholeOfDigits cs < 65536 := by omega
    rw [exponentOfDigits, List.foldl_append, ← exponentOfDigits, ih hlt, List.foldl_cons,
      if_pos hlt]
    rfl

theorem wholeOfDigits_dropWhile (cs : List Char) :
    wholeOfDigits (cs.dropWhile (· == '0')) = wholeOfDigits cs := by
  induction cs with
  | nil => rfl
  | cons c cs ih =>
    by_cases hc : c = '0'
    · rw [hc, List.dropWhile_cons_of_pos (by decide), ih, wholeOfDigits_zero_cons]
    · rw [List.dropWhile_cons_of_neg (by simpa using hc)]

/-- Not too many digits are all taken in. -/
theorem decimalOfDigits_eq {cs : List Char} (h : cs.length ≤ significantDigits) (e : Int) :
    decimalOfDigits cs e = ⟨wholeOfDigits cs, e⟩ := by
  have hlength : (cs.dropWhile (· == '0')).length ≤ significantDigits :=
    Nat.le_trans (List.dropWhile_suffix _).length_le h
  rw [decimalOfDigits]
  dsimp only
  rw [List.drop_eq_nil_of_le hlength, wholeOfDigits_dropWhile]
  rfl

/-! ## Texts that spell decimals -/

/-- The text is a literal for the decimal: digits, perhaps with a point and more digits, perhaps
with an exponent, and not more digits than the reader takes in one by one. -/
inductive Spells : List Char → Decimal → Prop
  | whole {ds es : List Char} {e : Int} : IsNumeral 10 ds → readExponent? es = some e →
      ds.length ≤ significantDigits → Spells (ds ++ es) ⟨wholeOfDigits ds, e⟩
  | point {ds fs es : List Char} {e : Int} : IsNumeral 10 ds → (∀ c ∈ fs, IsDigit 10 c) →
      readExponent? es = some e → (ds ++ fs).length ≤ significantDigits →
      Spells (ds ++ '.' :: (fs ++ es)) ⟨wholeOfDigits (ds ++ fs), e - fs.length⟩

theorem Spells.congr {cs : List Char} {w w' : Nat} {e e' : Int} (h : Spells cs ⟨w, e⟩) (hw : w = w')
    (he : e = e') : Spells cs ⟨w', e'⟩ := by
  rwa [← hw, ← he]

theorem spells_whole {ds : List Char} (hds : IsNumeral 10 ds)
    (hlength : ds.length ≤ significantDigits) : Spells ds ⟨wholeOfDigits ds, 0⟩ := by
  have hspells := Spells.whole hds (rfl : readExponent? [] = some 0) hlength
  rwa [List.append_nil] at hspells

theorem spells_point {ds fs : List Char} (hds : IsNumeral 10 ds) (hfs : ∀ c ∈ fs, IsDigit 10 c)
    (hlength : (ds ++ fs).length ≤ significantDigits) :
    Spells (ds ++ '.' :: fs) ⟨wholeOfDigits (ds ++ fs), -(fs.length : Int)⟩ := by
  have hspells := Spells.point hds hfs (rfl : readExponent? [] = some 0) hlength
  rwa [List.append_nil, Int.zero_sub] at hspells

theorem isExponent_of_readExponent? {es : List Char} {e : Int} (h : readExponent? es = some e) :
    IsExponent es := (isSome_readExponent?_iff es).mp (by rw [h]; rfl)

/-- The reader takes a text for the decimal that it spells. -/
theorem Spells.readDecimal? {cs : List Char} {d : Decimal} (h : Spells cs d) :
    Number.readDecimal? cs = some d := by
  cases h with
  | @whole ds es e hds hes hlength =>
    have hexponent := isExponent_of_readExponent? hes
    obtain ⟨htake, hdrop⟩ := span_digits hds.2 fun c hc => (hexponent.head c hc).1
    rw [Number.readDecimal?, htake, hdrop, takeFraction_of_exponent hexponent]
    simp [hds.1, hes, decimalOfDigits_eq hlength]
  | @point ds fs es e hds hfs hes hlength =>
    have hexponent := isExponent_of_readExponent? hes
    have hstop : ∀ c ∈ ('.' :: (fs ++ es)).head?, ¬ IsDigit 10 c := by
      rintro c ⟨⟩
      decide
    obtain ⟨htake, hdrop⟩ := span_digits hds.2 hstop
    rw [Number.readDecimal?, htake, hdrop, takeFraction_point hfs hexponent]
    simp [hds.1, hes, decimalOfDigits_eq hlength]

theorem Spells.head {cs : List Char} {d : Decimal} (h : Spells cs d) :
    ∃ c rest, cs = c :: rest ∧ IsDigit 10 c := by
  cases h with
  | whole hds | point hds =>
    obtain ⟨c, rest, rfl⟩ := List.exists_cons_of_ne_nil hds.1
    exact ⟨c, _, rfl, hds.2 c List.mem_cons_self⟩

theorem Spells.inDecimal {cs : List Char} {d : Decimal} (h : Spells cs d) :
    ∀ c ∈ cs, InDecimal c := by
  intro c hc
  cases h with
  | whole hds hes =>
    rcases List.mem_append.mp hc with hc | hc
    · exact (IsMantissa.whole hds).inDecimal c hc
    · exact (isExponent_of_readExponent? hes).inDecimal c hc
  | point hds hfs hes =>
    rw [← List.cons_append, ← List.append_assoc] at hc
    rcases List.mem_append.mp hc with hc | hc
    · exact (IsMantissa.point hds hfs).inDecimal c hc
    · exact (isExponent_of_readExponent? hes).inDecimal c hc

/-- No character of a decimal is a blank. -/
theorem InDecimal.isBlank_eq_false {c : Char} (h : InDecimal c) : Text.isBlank c = false := by
  rcases h with ⟨d, hd, rfl | rfl⟩ | hc
  · have htable : ∀ d < 10, Text.isBlank d.digitChar = false := by decide
    exact htable d hd
  · have htable : ∀ d < 10, Text.isBlank d.digitChar.toUpper = false := by decide
    exact htable d hd
  · simp only [List.mem_cons, List.not_mem_nil, or_false] at hc
    rcases hc with rfl | rfl | rfl | rfl | rfl
    all_goals decide

end Number

theorem Text.trim_eq_self {cs : List Char} (h : ∀ c ∈ cs, isBlank c = false) : trim cs = cs := by
  have hdrop : ∀ l : List Char, (∀ c ∈ l, isBlank c = false) → l.dropWhile isBlank = l := by
    intro l hl
    cases l with
    | nil => rfl
    | cons c l => rw [List.dropWhile_cons_of_neg (by simp [hl c List.mem_cons_self])]
  rw [trim, hdrop cs h, hdrop cs.reverse fun c hc => h c (List.mem_reverse.mp hc),
    List.reverse_reverse]

namespace Number

/-- **A literal with or without a minus sign is read as the number nearest to its decimal.** -/
theorem read?_of_spells {cs : List Char} {d : Decimal} (h : Spells cs d) (signed : Bool) :
    read? (String.ofList (if signed then '-' :: cs else cs))
      = some (ofPattern signed d.pattern) := by
  obtain ⟨c, rest, hcs, hc⟩ := h.head
  have hmem : ∀ c ∈ (if signed then '-' :: cs else cs), InDecimal c := by
    intro c hc
    cases signed with
    | false => exact h.inDecimal c hc
    | true =>
      rcases List.mem_cons.mp hc with rfl | hc
      · decide
      · exact h.inDecimal c hc
  have hne : (if signed then '-' :: cs else cs) ≠ [] := by
    cases signed with
    | false => rw [hcs]; exact List.cons_ne_nil _ _
    | true => exact List.cons_ne_nil _ _
  have hsign : takeSign (if signed then '-' :: cs else cs) = (signed, cs) := by
    cases signed with
    | false =>
      obtain ⟨hplus, hminus⟩ := ne_sign_of_mantissa (.inl hc)
      simp [takeSign, hcs, hplus, hminus]
    | true => rfl
  have hinfinity : cs ≠ "Infinity".toList := by
    rintro rfl
    exact absurd (h.inDecimal 'I' (by decide)) (by decide)
  rw [read?, String.toList_ofList, Text.trim_eq_self fun c hc => (hmem c hc).isBlank_eq_false,
    readTrimmed?_of_signed hne (basePart?_eq_none hmem), readSigned?, hsign, if_neg hinfinity,
    h.readDecimal?]
  rfl

/-! ## Digits that are laid out -/

theorem readExponent?_signed {n : Nat} (hn : n < 65536) {mark : Char} {negative : Bool}
    (hsign : takeSign (mark :: Nat.toDigits 10 n) = (negative, Nat.toDigits 10 n)) :
    readExponent? ('e' :: mark :: Nat.toDigits 10 n)
      = some (if negative then -(n : Int) else n) := by
  have hdigits := (isNumeral_iff (by decide) _).mpr (isNumeral_toDigits n)
  have hvalue : exponentOfDigits (Nat.toDigits 10 n) = n := by
    rw [exponentOfDigits_eq _ (by rwa [wholeOfDigits_toDigits]), wholeOfDigits_toDigits]
  simp only [readExponent?, hsign, hvalue]
  exact if_pos (by rw [Bool.and_assoc]; exact hdigits)

theorem readExponent?_exponentText {e : Int} (h : e.natAbs < 65536) :
    readExponent? ('e' :: Digits.exponentText ['+'] e) = some e := by
  unfold Digits.exponentText
  split
  next hneg =>
    rw [readExponent?_signed (by omega) (rfl : _ = (true, _)), if_pos rfl]
    congr 1
    omega
  next hpos =>
    rw [List.cons_append, List.nil_append, readExponent?_signed (by omega) (rfl : _ = (false, _)),
      if_neg Bool.false_ne_true]
    congr 1
    omega

variable {ds : List Char} {point : Int}

/-- **Positional notation** spells the digits, or the digits with the zeros that reach up to the
point. -/
theorem spells_positional (hds : IsNumeral 10 ds) (hlength : ds.length ≤ 19) (hleast : -5 ≤ point)
    (hgreatest : point ≤ 21) :
    ∃ z : Nat, Spells (Digits.positional [] ⟨ds, point⟩)
        ⟨wholeOfDigits ds * Nat.pow 10 z, point - ds.length - z⟩
      ∧ (z = 0 ∨ point - ds.length - z = 0) := by
  have hzeros : ∀ k, ∀ c ∈ List.replicate k '0', IsDigit 10 c := fun k c hc => by
    rw [List.eq_of_mem_replicate hc]
    decide
  have hbound : significantDigits = 800 := rfl
  have hone : Nat.pow 10 0 = 1 := rfl
  unfold Digits.positional
  dsimp only
  split
  next hpoint =>
    -- Zeros stand between the point and the digits.
    have hfs : ∀ c ∈ List.replicate (-point).toNat '0' ++ ds, IsDigit 10 c := fun c hc =>
      (List.mem_append.mp hc).elim (hzeros _ c) (hds.2 c)
    have hfraction : (List.replicate (-point).toNat '0' ++ ds).length
        = (-point).toNat + ds.length := by
      rw [List.length_append, List.length_replicate]
    have hlength : (['0'] ++ (List.replicate (-point).toNat '0' ++ ds)).length
        ≤ significantDigits := by
      rw [List.length_append, List.length_singleton, hfraction, hbound]
      omega
    have hspells : Spells (['0'] ++ '.' :: (List.replicate (-point).toNat '0' ++ ds)) _ :=
      spells_point ⟨List.cons_ne_nil _ _, hzeros 1⟩ hfs hlength
    refine ⟨0, hspells.congr ?_ ?_, Or.inl rfl⟩
    · rw [List.singleton_append, wholeOfDigits_zero_cons, wholeOfDigits_replicate_append, hone,
        Nat.mul_one]
    · omega
  next hpoint =>
    split
    next hwhole =>
      rw [List.append_nil]
      refine ⟨point.toNat - ds.length, (spells_whole ⟨?_, ?_⟩ ?_).congr ?_ ?_, Or.inr (by omega)⟩
      · exact List.append_ne_nil_of_left_ne_nil hds.1 _
      · exact fun c hc => (List.mem_append.mp hc).elim (hds.2 c) (hzeros _ c)
      · rw [List.length_append, List.length_replicate, hbound]
        omega
      · exact wholeOfDigits_append_replicate ds _
      · omega
    next hwhole =>
      have hsplit := List.take_append_drop point.toNat ds
      refine ⟨0, (spells_point ⟨?_, ?_⟩ ?_ ?_).congr ?_ ?_, Or.inl rfl⟩
      · rw [← List.length_pos_iff, List.length_take]
        omega
      · exact fun c hc => hds.2 c (List.mem_of_mem_take hc)
      · exact fun c hc => hds.2 c (List.mem_of_mem_drop hc)
      · rw [hsplit, hbound]
        omega
      · rw [hsplit, hone, Nat.mul_one]
      · rw [List.length_drop]
        omega

/-- **The exponent form** spells the digits. -/
theorem spells_exponential (hds : IsNumeral 10 ds) (hlength : ds.length ≤ 19)
    (hpoint : (point - 1).natAbs < 65536) :
    Spells (Digits.exponential ['+'] ⟨ds, point⟩) ⟨wholeOfDigits ds, point - ds.length⟩ := by
  have hexponent := readExponent?_exponentText hpoint
  have hbound : significantDigits = 800 := rfl
  obtain ⟨c, cs, rfl⟩ := List.exists_cons_of_ne_nil hds.1
  have hfirst : IsNumeral 10 [c] := by
    refine ⟨List.cons_ne_nil _ _, fun d hd => hds.2 d ?_⟩
    rw [List.mem_singleton.mp hd]
    exact List.mem_cons_self
  rw [List.length_cons] at *
  cases cs with
  | nil =>
    refine (Spells.whole hfirst hexponent ?_).congr rfl (by simp)
    rw [hbound, List.length_singleton]
    decide
  | cons d cs =>
    have hrest : ∀ e ∈ d :: cs, IsDigit 10 e := fun e he => hds.2 e (List.mem_cons_of_mem _ he)
    refine (Spells.point hfirst hrest hexponent ?_).congr rfl ?_
    · rw [List.length_append, hbound, List.length_singleton]
      omega
    · omega

/-- What a script gets for digits spells them. -/
theorem spells_writeDigits (hds : IsNumeral 10 ds) (hlength : ds.length ≤ 19)
    (hpoint : (point - 1).natAbs < 65536) :
    ∃ z : Nat, Spells (Layout.script.writeDigits ⟨ds, point⟩)
        ⟨wholeOfDigits ds * Nat.pow 10 z, point - ds.length - z⟩
      ∧ (z = 0 ∨ point - ds.length - z = 0) := by
  unfold Layout.writeDigits
  split
  next hrange =>
    rw [Bool.and_eq_true, decide_eq_true_eq, decide_eq_true_eq] at hrange
    exact spells_positional hds hlength hrange.1 hrange.2
  next =>
    have hspells := spells_exponential hds hlength hpoint
    exact ⟨0, hspells.congr (Nat.mul_one _).symm (by omega), Or.inl rfl⟩

end Number

/-! ## Numbers that are written and read -/

theorem exists_zeros_at_end (cs : List Char) :
    ∃ z : Nat, cs = (cs.reverse.dropWhile (· == '0')).reverse ++ List.replicate z '0' := by
  have hzeros : ∀ c ∈ cs.reverse.takeWhile (· == '0'), c = '0' := by
    intro c hc
    have hc := List.mem_takeWhile_imp hc
    exact beq_iff_eq.mp hc
  refine ⟨(cs.reverse.takeWhile (· == '0')).length, ?_⟩
  rw [← List.reverse_replicate, ← List.eq_replicate_of_mem hzeros, ← List.reverse_append,
    List.takeWhile_append_dropWhile, List.reverse_reverse]

namespace Decimal

open Number (IsNumeral wholeOfDigits)

/-- The digits of a decimal are those of its significand without the zeros at the end. -/
theorem digits_spec {d : Decimal} (hpos : 0 < d.significand) (hle : d.significand ≤ Nat.pow 10 18) :
    IsNumeral 10 d.digits.digits ∧ ∃ z : Nat,
      d.significand = wholeOfDigits d.digits.digits * Nat.pow 10 z
      ∧ d.digits.digits.length + z ≤ 19
      ∧ d.digits.point = d.digits.digits.length + z + d.exponent := by
  have hcount : (Nat.toDigits 10 d.significand).length ≤ 19 :=
    Number.digitCount_le (by decide) (Nat.lt_of_le_of_lt hle (by decide))
  have hdigits := (Number.isNumeral_toDigits d.significand).2
  have hwhole := Number.wholeOfDigits_toDigits d.significand
  obtain ⟨z, hsplit⟩ := exists_zeros_at_end (Nat.toDigits 10 d.significand)
  have hlength := congrArg List.length hsplit
  rw [List.length_append, List.length_replicate] at hlength
  have hstrip : d.digits.digits
      = ((Nat.toDigits 10 d.significand).reverse.dropWhile (· == '0')).reverse := rfl
  have hpoint : d.digits.point = (Nat.toDigits 10 d.significand).length + d.exponent := rfl
  rw [← hstrip] at hsplit hlength
  rw [hsplit] at hdigits
  rw [hsplit, Number.wholeOfDigits_append_replicate] at hwhole
  refine ⟨⟨?_, fun c hc => hdigits c (List.mem_append_left _ hc)⟩, z, hwhole.symm, by omega,
    by omega⟩
  intro hnil
  rw [hnil] at hwhole
  have hzero : wholeOfDigits [] * Nat.pow 10 z = 0 := Nat.zero_mul _
  omega

end Decimal

namespace Number

/-- A number is its sign and its pattern. -/
theorem ofPattern_signed_magnitude (x : Number) : ofPattern x.signed x.magnitude = x := by
  obtain ⟨bits⟩ := x
  have hsign : signBit.toNat = 9223372036854775808 := by decide
  have hbits := bits.toNat_lt
  have hmagnitude : (bits % signBit).toNat = bits.toNat % 9223372036854775808 := by
    rw [UInt64.toNat_mod, hsign]
  rw [ofPattern, signed, magnitude, hmagnitude]
  congr 1
  apply UInt64.toNat_inj.mp
  by_cases hle : signBit ≤ bits
  · rw [decide_eq_true hle, if_pos rfl, UInt64.toNat_add, UInt64.toNat_ofNat', hsign]
    rw [UInt64.le_iff_toNat_le, hsign] at hle
    omega
  · rw [decide_eq_false hle, if_neg Bool.false_ne_true, UInt64.toNat_ofNat']
    rw [UInt64.le_iff_toNat_le, hsign] at hle
    omega

/-- What is written for the shortest decimal of a number spells a decimal that is read as the
number. -/
theorem Found.exists_spells {p : Nat} {d : Decimal} (h : Found p d) :
    ∃ d', Spells (Layout.script.writeDigits d.digits) d' ∧ d'.pattern = p := by
  obtain ⟨hpattern, hpos, hle, hleast, hgreatest⟩ := h
  obtain ⟨hnumeral, z, hsignificand, hlength, hpoint⟩ := Decimal.digits_spec hpos hle
  have hwhole : 0 < wholeOfDigits d.digits.digits := by
    rw [hsignificand] at hpos
    exact Nat.pos_of_mul_pos_right hpos
  obtain ⟨z', hspells, hz'⟩ := spells_writeDigits hnumeral (by omega)
    (by omega : (d.digits.point - 1).natAbs < 65536)
  refine ⟨_, hspells, ?_⟩
  -- The decimal that is written and the shortest one are the same digits, with some zeros at the
  -- end.
  have hexponent : d.digits.point - d.digits.digits.length - z = d.exponent := by omega
  have hshortest := Decimal.pattern_scale (z := z) hwhole
    (by omega : -400 ≤ d.digits.point - d.digits.digits.length - z) (by omega)
  rw [hexponent, ← hsignificand] at hshortest
  rw [Decimal.pattern_scale hwhole (by omega) (by omega), ← hshortest, hpattern]

/-- **The text of a finite number that is not zero is a literal for it.** -/
theorem read?_text {x : Number} (hfinite : x.isFinite = true) (hzero : x.isZero = false) :
    read? x.text = some x := by
  have hlt : x.magnitude < infinityPattern := of_decide_eq_true hfinite
  have hpos : 0 < x.magnitude := Nat.pos_of_ne_zero (beq_eq_false_iff_ne.mp hzero)
  have hnan := isNaN_eq_false_of_isFinite hfinite
  have hbounded : x.isInfinite = false := beq_eq_false_iff_ne.mpr (Nat.ne_of_lt hlt)
  have htext : x.text = String.ofList (if x.signed
      then '-' :: Layout.script.writeDigits (shortest x.magnitude).digits
      else Layout.script.writeDigits (shortest x.magnitude).digits) := by
    simp only [text, Layout.write, hnan, hzero, hbounded, Bool.false_eq_true, if_false]
  obtain ⟨d, hspells, hpattern⟩ := (found_shortest hpos hlt).exists_spells
  rw [htext, read?_of_spells hspells, hpattern, ofPattern_signed_magnitude]

theorem isNaN_of_isZero {x : Number} (h : x.isZero = true) : x.isNaN = false := by
  rw [isZero, beq_iff_eq] at h
  rw [isNaN, h]
  decide

theorem text_of_isZero {x : Number} (h : x.isZero = true) : x.text = "0" := by
  rw [text, Layout.write, isNaN_of_isZero h, h]
  rfl

theorem read?_zero : read? "0" = some zero := by decide +kernel

theorem read?_text_of_isInfinite {x : Number} (h : x.isInfinite = true) :
    read? x.text = some x := by
  have hmagnitude : x.magnitude = infinityPattern := beq_iff_eq.mp h
  have hx : x = infinity x.signed := by
    rw [infinity, ← hmagnitude, ofPattern_signed_magnitude]
  rw [hx]
  cases x.signed with
  | false => decide +kernel
  | true => decide +kernel

/-- Each of the forms that a text can have is read back. -/
theorem read_text {x : Number} (hx : x.isNaN = false) :
    read x.text = if x.isZero then zero else x := by
  by_cases hzero : x.isZero = true
  · rw [read, text_of_isZero hzero, read?_zero, if_pos hzero]
    rfl
  · rw [if_neg hzero]
    by_cases hinfinite : x.isInfinite = true
    · rw [read, read?_text_of_isInfinite hinfinite]
      rfl
    · have hfinite : x.isFinite = true := by
        rw [isNaN, decide_eq_false_iff_not] at hx
        rw [isInfinite, beq_iff_eq] at hinfinite
        rw [isFinite, decide_eq_true_eq]
        omega
      rw [read, read?_text hfinite (Bool.eq_false_of_not_eq_true hzero)]
      rfl

/-- The text of a number is read as an equal number. -/
theorem equals_read_text {x : Number} (hx : x.isNaN = false) : (read x.text).equals x = true := by
  rw [read_text hx]
  split
  next hzero =>
    have hmagnitude : x.magnitude = 0 := beq_iff_eq.mp hzero
    have hrank : x.rank = zero.rank := by
      rw [rank, hmagnitude, Int.natCast_zero, Int.neg_zero, ite_self]
      rfl
    rw [equals, hx, hrank]
    decide
  next => simp [equals, hx]

/--
**What a script gets for a number is read back as the number.**

For every number that is not a NaN: its text is read as the same number, bit for bit, but for the
negative zero, whose text is that of zero. So the text of a number counts as the number wherever a
value is used as a number, and writing what was read gives the same text again.
-/
theorem lossless_text (x : Number) (hx : x.isNaN = false) :
    read x.text = (if x.isZero then zero else x)
    ∧ (read x.text).equals x = true
    ∧ (Value.text (Value.number x).toText).toNumber.equals (Value.number x).toNumber = true
    ∧ (read x.text).text = x.text := by
  have hread := read_text hx
  have hequals := equals_read_text hx
  have hnan : (read x.text).isNaN = false := by
    rw [equals, Bool.and_assoc, Bool.and_eq_true, Bool.not_eq_true'] at hequals
    exact hequals.1
  refine ⟨hread, hequals, ?_, ?_⟩
  · simp only [Value.toNumber, Value.reading, Value.toText, hx, hnan, Bool.false_eq_true, if_false]
    exact hequals
  · rw [hread]
    split
    next hzero =>
      rw [text_of_isZero hzero]
      decide +kernel
    next => rfl

/-- The number `-1.5e-7` is written in the exponent form and read back. -/
theorem lossless_text_tiny :
    Number.isNaN ⟨0xbe8421f5f40d8376⟩ = false ∧ text ⟨0xbe8421f5f40d8376⟩ = "-1.5e-7"
    ∧ read "-1.5e-7" = ⟨0xbe8421f5f40d8376⟩ := by
  have htext : text ⟨0xbe8421f5f40d8376⟩ = "-1.5e-7" := by decide +kernel
  refine ⟨by decide, htext, ?_⟩
  rw [← htext]
  exact (lossless_text ⟨0xbe8421f5f40d8376⟩ (by decide)).1

end Number

end BlockScript
