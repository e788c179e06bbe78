import BlockScript.Proofs.Naturals
import Mathlib.Data.List.TakeWhile

/-!
# The texts that are numbers

The grammar of number literals, said by itself: digits, signs, mantissas and exponents. The reader
accepts exactly the texts of the grammar (`isSome_readTrimmed?_iff`), and no text that it accepts is
read as a NaN (`isNaN_of_readTrimmed?`).
-/

namespace BlockScript

theorem not_of_mem_head?_dropWhile {α : Type} {p : α → Bool} {l : List α} {x : α}
    (hx : x ∈ (l.dropWhile p).head?) : p x = false := by
  have hstop := List.head?_dropWhile_not p l
  rw [Option.mem_def.mp hx] at hstop
  exact hstop

/-- What holds of the first 128 characters holds of every ASCII character. -/
theorem forall_ascii {motive : Char → Prop} (h : ∀ n < 128, motive (.ofNat n)) {c : Char}
    (hc : c.toNat < 128) : motive c := by
  have hchar := h c.toNat hc
  rw [Char.ofNat_toNat] at hchar
  exact hchar

/-! ## Blanks -/

namespace Text

/-- The text `t` is `cs` without the blanks at its two ends. -/
structure Strips (cs t : List Char) : Prop where
  between : ∃ before after, cs = before ++ t ++ after
    ∧ (∀ c ∈ before, isBlank c = true) ∧ ∀ c ∈ after, isBlank c = true
  head : ∀ c ∈ t.head?, isBlank c = false
  last : ∀ c ∈ t.getLast?, isBlank c = false

theorem strips_trim (cs : List Char) : Strips cs (trim cs) := by
  have hafter : trim cs ++ ((cs.dropWhile isBlank).reverse.takeWhile isBlank).reverse
      = cs.dropWhile isBlank := by
    rw [trim, ← List.reverse_append, List.takeWhile_append_dropWhile, List.reverse_reverse]
  refine ⟨⟨cs.takeWhile isBlank, ((cs.dropWhile isBlank).reverse.takeWhile isBlank).reverse,
    ?_, ?_, ?_⟩, ?_, ?_⟩
  · rw [List.append_assoc, hafter, List.takeWhile_append_dropWhile]
  · intro c hc
    exact List.mem_takeWhile_imp hc
  · intro c hc
    exact List.mem_takeWhile_imp (List.mem_reverse.mp hc)
  · intro c hc
    apply not_of_mem_head?_dropWhile (l := cs)
    rw [← hafter, List.head?_append, Option.mem_def.mp hc]
    rfl
  · intro c hc
    rw [trim, List.getLast?_reverse] at hc
    exact not_of_mem_head?_dropWhile hc

end Text

namespace Number

/-! ## The grammar -/

/-- A digit of a base up to sixteen. A letter may be small or capital. -/
def IsDigit (base : Nat) (c : Char) : Prop :=
  ∃ d < base, c = d.digitChar ∨ c = d.digitChar.toUpper

instance (base : Nat) : DecidablePred (IsDigit base) := fun c =>
  inferInstanceAs (Decidable (∃ d < base, c = d.digitChar ∨ c = d.digitChar.toUpper))

/-- Digits, at least one. -/
def IsNumeral (base : Nat) (cs : List Char) : Prop := cs ≠ [] ∧ ∀ c ∈ cs, IsDigit base c

/-- An optional sign. -/
inductive IsSign : List Char → Prop
  | absent : IsSign []
  | plus : IsSign ['+']
  | minus : IsSign ['-']

/-- Digits with an optional point and optional digits after it, or a point and at least one
digit. -/
inductive IsMantissa : List Char → Prop
  | whole {ds : List Char} : IsNumeral 10 ds → IsMantissa ds
  | point {ds fs : List Char} :
    IsNumeral 10 ds → (∀ c ∈ fs, IsDigit 10 c) → IsMantissa (ds ++ '.' :: fs)
  | fraction {fs : List Char} : IsNumeral 10 fs → IsMantissa ('.' :: fs)

/-- An optional exponent: a mark, an optional sign and at least one digit. -/
inductive IsExponent : List Char → Prop
  | absent : IsExponent []
  | power {mark : Char} {sign ds : List Char} :
    mark = 'e' ∨ mark = 'E' → IsSign sign → IsNumeral 10 ds → IsExponent (mark :: (sign ++ ds))

/-- The base that a letter after a leading zero announces. -/
def baseOf? : Char → Option Nat
  | 'x' | 'X' => some 16
  | 'o' | 'O' => some 8
  | 'b' | 'B' => some 2
  | _ => none

/-- A literal without blanks around it. -/
inductive IsLiteral : List Char → Prop
  | empty : IsLiteral []
  | based {mark : Char} {base : Nat} {ds : List Char} :
    baseOf? mark = some base → IsNumeral base ds → IsLiteral ('0' :: mark :: ds)
  | infinity {sign : List Char} : IsSign sign → IsLiteral (sign ++ "Infinity".toList)
  | decimal {sign mantissa exponent : List Char} :
    IsSign sign → IsMantissa mantissa → IsExponent exponent →
      IsLiteral (sign ++ (mantissa ++ exponent))

/-! ## Digits -/

theorem digitValue_of_not_ascii {c : Char} (hc : 128 ≤ c.toNat) : digitValue c = 16 := by
  have hlt : ∀ d : Char, d.toNat < 128 → ¬ c ≤ d := by
    intro d hd hle
    have hle' : c.toNat ≤ d.toNat := UInt32.le_iff_toNat_le.mp hle
    omega
  simp [digitValue, hlt '9' (by decide), hlt 'f' (by decide), hlt 'F' (by decide)]

theorem isDigit_digitValue {c : Char} (hc : digitValue c < 16) :
    c = (digitValue c).digitChar ∨ c = (digitValue c).digitChar.toUpper := by
  by_cases hascii : c.toNat < 128
  · revert hc
    exact forall_ascii
      (motive := fun c => digitValue c < 16 →
        c = (digitValue c).digitChar ∨ c = (digitValue c).digitChar.toUpper)
      (by decide +kernel) hascii
  · rw [digitValue_of_not_ascii (Nat.le_of_not_lt hascii)] at hc
    exact absurd hc (Nat.lt_irrefl 16)

theorem isDigitOf_iff {base : Nat} (hbase : base ≤ 16) (c : Char) :
    isDigitOf base c = true ↔ IsDigit base c := by
  have htable : ∀ d < 16, digitValue d.digitChar = d ∧ digitValue d.digitChar.toUpper = d := by
    decide +kernel
  rw [isDigitOf, decide_eq_true_iff]
  constructor
  · intro hlt
    exact ⟨digitValue c, hlt, isDigit_digitValue (Nat.lt_of_lt_of_le hlt hbase)⟩
  · rintro ⟨d, hd, rfl | rfl⟩
    · rw [(htable d (Nat.lt_of_lt_of_le hd hbase)).1]
      exact hd
    · rw [(htable d (Nat.lt_of_lt_of_le hd hbase)).2]
      exact hd

theorem isDecimalDigit_iff (c : Char) : isDecimalDigit c = true ↔ IsDigit 10 c :=
  isDigitOf_iff (by decide) c

theorem isNumeral_iff {base : Nat} (hbase : base ≤ 16) (cs : List Char) :
    (!cs.isEmpty && cs.all (isDigitOf base)) = true ↔ IsNumeral base cs := by
  simp [IsNumeral, isDigitOf_iff hbase]

theorem isSome_readBase?_iff {base : Nat} (hbase : base ≤ 16) (cs : List Char) :
    (readBase? base cs).isSome = true ↔ IsNumeral base cs := by
  rw [← isNumeral_iff hbase, readBase?]
  split
  next h => simp [h]
  next h => simpa using h

/-! ## The parts of a decimal -/

theorem takeSign_cases (cs : List Char) :
    (∃ rest, cs = '-' :: rest ∧ takeSign cs = (true, rest))
    ∨ (∃ rest, cs = '+' :: rest ∧ takeSign cs = (false, rest))
    ∨ takeSign cs = (false, cs) ∧ ∀ c ∈ cs.head?, c ≠ '+' ∧ c ≠ '-' := by
  rw [takeSign.eq_def]
  split
  next rest => exact .inl ⟨rest, rfl, rfl⟩
  next rest => exact .inr (.inl ⟨rest, rfl, rfl⟩)
  next hminus hplus =>
    refine .inr (.inr ⟨rfl, ?_⟩)
    cases cs with
    | nil => simp
    | cons c rest =>
      rintro d ⟨⟩
      exact ⟨fun hc => hplus rest (hc ▸ rfl), fun hc => hminus rest (hc ▸ rfl)⟩

theorem takeSign_spec (cs : List Char) : ∃ sign, IsSign sign ∧ cs = sign ++ (takeSign cs).2 := by
  obtain ⟨rest, hcs, htake⟩ | ⟨rest, hcs, htake⟩ | ⟨htake, -⟩ := takeSign_cases cs
  · exact ⟨['-'], .minus, by rw [htake, hcs]; rfl⟩
  · exact ⟨['+'], .plus, by rw [htake, hcs]; rfl⟩
  · exact ⟨[], .absent, by rw [htake]; rfl⟩

theorem takeSign_append {sign body : List Char} (hsign : IsSign sign)
    (hbody : ∀ c ∈ body.head?, c ≠ '+' ∧ c ≠ '-') : (takeSign (sign ++ body)).2 = body := by
  cases hsign with
  | plus => rfl
  | minus => rfl
  | absent =>
    cases body with
    | nil => rfl
    | cons c cs =>
      obtain ⟨hplus, hminus⟩ := hbody c rfl
      simp [takeSign, hplus, hminus]

theorem ne_sign_of_mantissa {c : Char} (hc : IsDigit 10 c ∨ c = '.') : c ≠ '+' ∧ c ≠ '-' := by
  constructor
  · rintro rfl
    exact absurd hc (by decide)
  · rintro rfl
    exact absurd hc (by decide)

theorem IsNumeral.unsigned {cs : List Char} (h : IsNumeral 10 cs) :
    ∀ c ∈ cs.head?, c ≠ '+' ∧ c ≠ '-' := by
  intro c hc
  exact ne_sign_of_mantissa (.inl (h.2 c (List.mem_of_mem_head? hc)))

theorem isSome_readExponent?_cons (c : Char) (cs : List Char) :
    (readExponent? (c :: cs)).isSome = ((c == 'e' || c == 'E')
      && (!(takeSign cs).2.isEmpty && (takeSign cs).2.all isDecimalDigit)) := by
  rw [readExponent?, ← Bool.and_assoc]
  show (if ((c == 'e' || c == 'E') && !(takeSign cs).2.isEmpty
      && (takeSign cs).2.all isDecimalDigit) = true then _ else none).isSome = _
  split
  next h => rw [h]; rfl
  next h => rw [Bool.not_eq_true] at h; rw [h]; rfl

theorem isSome_readExponent?_iff (cs : List Char) :
    (readExponent? cs).isSome = true ↔ IsExponent cs := by
  constructor
  · intro h
    cases cs with
    | nil => exact .absent
    | cons c cs =>
      obtain ⟨sign, hsign, hcs⟩ := takeSign_spec cs
      rw [isSome_readExponent?_cons, Bool.and_eq_true] at h
      rw [hcs]
      refine .power ?_ hsign ((isNumeral_iff (by decide) _).mp h.2)
      simpa using h.1
  · intro h
    cases h with
    | absent => rfl
    | @power mark sign ds hmark hsign hds =>
      rw [isSome_readExponent?_cons, takeSign_append hsign hds.unsigned, Bool.and_eq_true]
      exact ⟨by simpa using hmark, (isNumeral_iff (by decide) ds).mpr hds⟩

theorem takeFraction_cases (cs : List Char) :
    (∃ rest, cs = '.' :: rest
      ∧ takeFraction cs = (rest.takeWhile isDecimalDigit, rest.dropWhile isDecimalDigit))
    ∨ takeFraction cs = ([], cs) ∧ ∀ c ∈ cs.head?, c ≠ '.' := by
  rw [takeFraction.eq_def]
  split
  next rest => exact .inl ⟨rest, rfl, rfl⟩
  next hpoint =>
    refine .inr ⟨rfl, ?_⟩
    rintro c hc rfl
    obtain ⟨rest, rfl⟩ := List.head?_eq_some_iff.mp hc
    exact hpoint rest rfl

theorem isSome_readDecimal? (cs : List Char) :
    (readDecimal? cs).isSome = (!((cs.takeWhile isDecimalDigit).isEmpty
        && (takeFraction (cs.dropWhile isDecimalDigit)).1.isEmpty)
      && (readExponent? (takeFraction (cs.dropWhile isDecimalDigit)).2).isSome) := by
  rw [readDecimal?]
  dsimp only
  split
  next h => rw [h]; rfl
  next h => rw [Bool.not_eq_true] at h; rw [h, Option.isSome_map]; rfl

theorem isDigit_of_mem_takeWhile {cs : List Char} :
    ∀ c ∈ cs.takeWhile isDecimalDigit, IsDigit 10 c := by
  intro c hc
  exact (isDecimalDigit_iff c).mp (List.mem_takeWhile_imp hc)

theorem isMantissa_and_isExponent_of_readDecimal? {cs : List Char}
    (h : (readDecimal? cs).isSome = true) :
    ∃ mantissa exponent, cs = mantissa ++ exponent ∧ IsMantissa mantissa ∧ IsExponent exponent := by
  rw [isSome_readDecimal?, Bool.and_eq_true, isSome_readExponent?_iff] at h
  obtain ⟨hsome, hexponent⟩ := h
  have hcs := List.takeWhile_append_dropWhile (p := isDecimalDigit) (l := cs)
  have hwhole : ∀ c ∈ cs.takeWhile isDecimalDigit, IsDigit 10 c := isDigit_of_mem_takeWhile
  generalize cs.takeWhile isDecimalDigit = ds at hcs hsome hwhole
  generalize cs.dropWhile isDecimalDigit = after at hcs hsome hexponent
  obtain ⟨rest, rfl, htake⟩ | ⟨htake, -⟩ := takeFraction_cases after
  · rw [htake] at hsome hexponent
    refine ⟨ds ++ '.' :: rest.takeWhile isDecimalDigit, rest.dropWhile isDecimalDigit, ?_, ?_,
      hexponent⟩
    · rw [← hcs, List.append_assoc, List.cons_append, List.takeWhile_append_dropWhile]
    · -- one of the two sides of the point has a digit
      by_cases hds : ds = []
      · have hfs : rest.takeWhile isDecimalDigit ≠ [] := by
          intro hfs
          simp [hds, hfs] at hsome
        rw [hds]
        exact .fraction ⟨hfs, isDigit_of_mem_takeWhile⟩
      · exact .point ⟨hds, hwhole⟩ isDigit_of_mem_takeWhile
  · rw [htake] at hsome hexponent
    have hds : ds ≠ [] := by
      rintro rfl
      simp at hsome
    exact ⟨ds, after, hcs.symm, .whole ⟨hds, hwhole⟩, hexponent⟩

/-! ## Decimals that are read -/

/-- Digits are taken up to what is not one. -/
theorem span_digits {ds rest : List Char} (hds : ∀ c ∈ ds, IsDigit 10 c)
    (hrest : ∀ c ∈ rest.head?, ¬ IsDigit 10 c) :
    (ds ++ rest).takeWhile isDecimalDigit = ds ∧ (ds ++ rest).dropWhile isDecimalDigit = rest := by
  have hall : ∀ c ∈ ds, isDecimalDigit c = true := fun c hc => (isDecimalDigit_iff c).mpr (hds c hc)
  rw [List.takeWhile_append_of_pos hall, List.dropWhile_append_of_pos hall]
  cases rest with
  | nil => simp
  | cons c rest =>
    have hstop : ¬ isDecimalDigit c = true := fun hc => hrest c rfl ((isDecimalDigit_iff c).mp hc)
    rw [List.takeWhile_cons_of_neg hstop, List.dropWhile_cons_of_neg hstop, List.append_nil]
    exact ⟨rfl, rfl⟩

theorem IsExponent.head {cs : List Char} (h : IsExponent cs) :
    ∀ c ∈ cs.head?, ¬ IsDigit 10 c ∧ c ≠ '.' := by
  cases h with
  | absent => simp
  | power hmark =>
    rintro c ⟨⟩
    rcases hmark with rfl | rfl
    all_goals decide

theorem takeFraction_of_exponent {cs : List Char} (h : IsExponent cs) :
    takeFraction cs = ([], cs) := by
  obtain ⟨rest, rfl, -⟩ | ⟨htake, -⟩ := takeFraction_cases cs
  · exact absurd rfl (h.head '.' rfl).2
  · exact htake

theorem takeFraction_point {fs cs : List Char} (hfs : ∀ c ∈ fs, IsDigit 10 c) (h : IsExponent cs) :
    takeFraction ('.' :: (fs ++ cs)) = (fs, cs) := by
  obtain ⟨htake, hdrop⟩ := span_digits hfs fun c hc => (h.head c hc).1
  rw [takeFraction, htake, hdrop]

theorem isSome_readDecimal?_of_parts {mantissa exponent : List Char} (hm : IsMantissa mantissa)
    (he : IsExponent exponent) : (readDecimal? (mantissa ++ exponent)).isSome = true := by
  have hread : (readExponent? exponent).isSome = true := (isSome_readExponent?_iff exponent).mpr he
  have hpoint : ¬ IsDigit 10 '.' := by decide
  rw [isSome_readDecimal?]
  cases hm with
  | whole hds =>
    obtain ⟨htake, hdrop⟩ := span_digits hds.2 fun c hc => (he.head c hc).1
    rw [htake, hdrop, takeFraction_of_exponent he]
    simp [hds.1, hread]
  | @point ds fs hds hfs =>
    have hstop : ∀ c ∈ ('.' :: (fs ++ exponent)).head?, ¬ IsDigit 10 c := by
      rintro c ⟨⟩
      exact hpoint
    obtain ⟨htake, hdrop⟩ := span_digits hds.2 hstop
    rw [List.append_assoc, List.cons_append, htake, hdrop, takeFraction_point hfs he]
    simp [hds.1, hread]
  | @fraction fs hfs =>
    have hnone : ¬ isDecimalDigit '.' = true := fun h => hpoint ((isDecimalDigit_iff '.').mp h)
    rw [List.cons_append, List.takeWhile_cons_of_neg hnone, List.dropWhile_cons_of_neg hnone,
      takeFraction_point hfs.2 he]
    simp [hfs.1, hread]

/-! ## Literals -/

/-- The base and the digits of a text that begins like a literal with a base. -/
def basePart? : List Char → Option (Nat × List Char)
  | '0' :: mark :: ds => (baseOf? mark).map fun base => (base, ds)
  | _ => none

/-- A literal without a base: an optional sign, and an infinity or a decimal. -/
def readSigned? (cs : List Char) : Option Number :=
  if (takeSign cs).2 = "Infinity".toList then some (infinity (takeSign cs).1)
  else (readDecimal? (takeSign cs).2).map fun d => ofPattern (takeSign cs).1 d.pattern

theorem eq_of_basePart? {cs ds : List Char} {base : Nat} (h : basePart? cs = some (base, ds)) :
    ∃ mark, cs = '0' :: mark :: ds ∧ baseOf? mark = some base := by
  rw [basePart?.eq_def] at h
  split at h
  next mark ds' =>
    obtain ⟨b, hbase, heq⟩ := Option.map_eq_some_iff.mp h
    cases heq
    exact ⟨mark, rfl, hbase⟩
  next => cases h

theorem readTrimmed?_of_base {cs ds : List Char} {base : Nat} (h : basePart? cs = some (base, ds)) :
    readTrimmed? cs = readBase? base ds := by
  obtain ⟨mark, rfl, hmark⟩ := eq_of_basePart? h
  rw [baseOf?.eq_def] at hmark
  split at hmark
  all_goals cases hmark
  all_goals rfl

theorem readTrimmed?_of_signed {cs : List Char} (hne : cs ≠ []) (h : basePart? cs = none) :
    readTrimmed? cs = readSigned? cs := by
  rw [readTrimmed?.eq_def]
  split
  · exact absurd rfl hne
  iterate 6 · cases h
  · simp only [readSigned?, beq_iff_eq]

theorem base_of_baseOf? {mark : Char} {base : Nat} (h : baseOf? mark = some base) :
    0 < base ∧ base ≤ 16 := by
  rw [baseOf?.eq_def] at h
  split at h
  all_goals cases h
  all_goals decide

/-- The characters that a decimal is made of. -/
def InDecimal (c : Char) : Prop := IsDigit 10 c ∨ c ∈ ['.', 'e', 'E', '+', '-']

instance : DecidablePred InDecimal := fun c =>
  inferInstanceAs (Decidable (IsDigit 10 c ∨ c ∈ ['.', 'e', 'E', '+', '-']))

theorem IsSign.inDecimal {cs : List Char} (h : IsSign cs) : ∀ c ∈ cs, InDecimal c := by
  cases h with
  | absent => simp
  | plus => simp [InDecimal]
  | minus => simp [InDecimal]

theorem IsMantissa.inDecimal {cs : List Char} (h : IsMantissa cs) : ∀ c ∈ cs, InDecimal c := by
  intro c hc
  cases h with
  | whole hds => exact .inl (hds.2 c hc)
  | point hds hfs =>
    rcases List.mem_append.mp hc with hc | hc
    · exact .inl (hds.2 c hc)
    · rcases List.mem_cons.mp hc with rfl | hc
      · exact .inr List.mem_cons_self
      · exact .inl (hfs c hc)
  | fraction hfs =>
    rcases List.mem_cons.mp hc with rfl | hc
    · exact .inr List.mem_cons_self
    · exact .inl (hfs.2 c hc)

theorem IsExponent.inDecimal {cs : List Char} (h : IsExponent cs) : ∀ c ∈ cs, InDecimal c := by
  intro c hc
  cases h with
  | absent => cases hc
  | power hmark hsign hds =>
    rcases List.mem_cons.mp hc with rfl | hc
    · exact .inr (by rcases hmark with rfl | rfl <;> decide)
    · rcases List.mem_append.mp hc with hc | hc
      · exact hsign.inDecimal c hc
      · exact .inl (hds.2 c hc)

theorem basePart?_eq_none {cs : List Char} (h : ∀ c ∈ cs, InDecimal c) : basePart? cs = none := by
  rw [basePart?.eq_def]
  split
  next mark ds =>
    have hmark : InDecimal mark := h mark (by simp)
    rw [baseOf?.eq_def]
    split
    iterate 6 · exact absurd hmark (by decide)
    · rfl
  next => rfl

theorem IsMantissa.head {cs : List Char} (h : IsMantissa cs) :
    ∃ c rest, cs = c :: rest ∧ (IsDigit 10 c ∨ c = '.') := by
  cases h with
  | whole hds =>
    obtain ⟨c, rest, rfl⟩ := List.exists_cons_of_ne_nil hds.1
    exact ⟨c, rest, rfl, .inl (hds.2 c List.mem_cons_self)⟩
  | @point ds fs hds hfs =>
    obtain ⟨c, rest, rfl⟩ := List.exists_cons_of_ne_nil hds.1
    exact ⟨c, rest ++ '.' :: fs, rfl, .inl (hds.2 c List.mem_cons_self)⟩
  | @fraction fs hfs => exact ⟨'.', fs, rfl, .inr rfl⟩

theorem isLiteral_of_readSigned? {cs : List Char} (h : (readSigned? cs).isSome = true) :
    IsLiteral cs := by
  obtain ⟨sign, hsign, hcs⟩ := takeSign_spec cs
  rw [readSigned?] at h
  rw [hcs]
  split at h
  next hbody =>
    rw [hbody]
    exact .infinity hsign
  next =>
    rw [Option.isSome_map] at h
    obtain ⟨mantissa, exponent, hbody, hm, he⟩ := isMantissa_and_isExponent_of_readDecimal? h
    rw [hbody]
    exact .decimal hsign hm he

theorem isSome_readSigned?_of_decimal {sign mantissa exponent : List Char} (hsign : IsSign sign)
    (hm : IsMantissa mantissa) (he : IsExponent exponent) :
    (readSigned? (sign ++ (mantissa ++ exponent))).isSome = true := by
  obtain ⟨c, rest, hmantissa, hc⟩ := hm.head
  have hbody : (takeSign (sign ++ (mantissa ++ exponent))).2 = mantissa ++ exponent := by
    apply takeSign_append hsign
    rw [hmantissa]
    rintro d ⟨⟩
    exact ne_sign_of_mantissa hc
  rw [readSigned?, hbody]
  split
  · rfl
  · rw [Option.isSome_map]
    exact isSome_readDecimal?_of_parts hm he

/-- **The reader accepts exactly the grammar.** -/
theorem isSome_readTrimmed?_iff (cs : List Char) :
    (readTrimmed? cs).isSome = true ↔ IsLiteral cs := by
  constructor
  · intro h
    by_cases hne : cs = []
    · rw [hne]
      exact .empty
    · rcases hbase : basePart? cs with _ | ⟨base, ds⟩
      · rw [readTrimmed?_of_signed hne hbase] at h
        exact isLiteral_of_readSigned? h
      · obtain ⟨mark, rfl, hmark⟩ := eq_of_basePart? hbase
        rw [readTrimmed?_of_base hbase, isSome_readBase?_iff (base_of_baseOf? hmark).2] at h
        exact .based hmark h
  · intro h
    cases h with
    | empty => rfl
    | @based mark base ds hmark hds =>
      have hbase : basePart? ('0' :: mark :: ds) = some (base, ds) := by rw [basePart?, hmark]; rfl
      rw [readTrimmed?_of_base hbase]
      exact (isSome_readBase?_iff (base_of_baseOf? hmark).2 ds).mpr hds
    | infinity hsign =>
      cases hsign with
      | absent => decide
      | plus => decide
      | minus => decide
    | @decimal sign mantissa exponent hsign hm he =>
      -- no character of a decimal announces a base
      have hmem : ∀ c ∈ sign ++ (mantissa ++ exponent), InDecimal c := by
        intro c hc
        simp only [List.mem_append] at hc
        rcases hc with hc | hc | hc
        · exact hsign.inDecimal c hc
        · exact hm.inDecimal c hc
        · exact he.inDecimal c hc
      have hne : sign ++ (mantissa ++ exponent) ≠ [] := by
        obtain ⟨c, rest, rfl, -⟩ := hm.head
        simp
      rw [readTrimmed?_of_signed hne (basePart?_eq_none hmem)]
      exact isSome_readSigned?_of_decimal hsign hm he

instance : DecidablePred IsLiteral := fun cs => decidable_of_iff _ (isSome_readTrimmed?_iff cs)

example : IsLiteral "-.5E01".toList ∧ ¬ IsLiteral "+0x1".toList ∧ ¬ IsLiteral "1e+".toList
    ∧ ¬ IsLiteral ".".toList := by decide +kernel

/-! ## No literal is a NaN -/

theorem isNaN_mul {x y : Number} (hx : x.isNaN = false) (hy : y.isNaN = false)
    (hfinite : y.isInfinite = false) (hzero : y.isZero = false) : (x.mul y).isNaN = false := by
  unfold mul
  simp only [hx, hy, hfinite, hzero, Bool.or_self, Bool.or_false, Bool.false_eq_true, if_false]
  split
  next hinfinite =>
    -- an infinity is not zero
    have hnonzero : x.isZero = false := by
      rw [isInfinite, beq_iff_eq] at hinfinite
      rw [isZero, hinfinite]
      decide
    rw [hnonzero]
    exact isNaN_ofPattern _ (Nat.le_refl _)
  next => exact isNaN_ofPattern _ (Nat.min_le_right _ _)

theorem isZero_ofNat {n : Nat} (hpos : 0 < n) (hle : n ≤ 16) : (ofNat n).isZero = false := by
  have htable : ∀ n < 17, 0 < n → (ofNat n).isZero = false := by decide +kernel
  exact htable n (Nat.lt_succ_of_le hle) hpos

theorem isNaN_foldl_digits {base : Nat} (hpos : 0 < base) (hbase : base ≤ 16) (cs : List Char)
    (hcs : ∀ c ∈ cs, digitValue c < base) {n : Number} (hn : n.isNaN = false) :
    (cs.foldl (fun n c => add (mul n (ofNat base)) (ofNat (digitValue c))) n).isNaN = false := by
  have hsmall : ∀ d ≤ 16, (ofNat d).isNaN = false ∧ (ofNat d).isInfinite = false :=
    fun d hd => isFinite_ofNat (Nat.lt_of_le_of_lt hd (by decide))
  induction cs generalizing n with
  | nil => exact hn
  | cons c cs ih =>
    obtain ⟨hnan, hinfinite⟩ := hsmall base hbase
    have hdigit : digitValue c ≤ 16 :=
      Nat.le_of_lt (Nat.lt_of_lt_of_le (hcs c List.mem_cons_self) hbase)
    have hmul := isNaN_mul hn hnan hinfinite (isZero_ofNat hpos hbase)
    exact ih (fun d hd => hcs d (List.mem_cons_of_mem c hd))
      (isNaN_add hmul (hsmall _ hdigit).1 (hsmall _ hdigit).2)

theorem isNaN_of_readBase? {base : Nat} {cs : List Char} {n : Number} (hpos : 0 < base)
    (hbase : base ≤ 16) (h : readBase? base cs = some n) : n.isNaN = false := by
  rw [readBase?] at h
  split at h
  next hcs =>
    cases h
    simp only [Bool.and_eq_true, List.all_eq_true, isDigitOf, decide_eq_true_iff] at hcs
    exact isNaN_foldl_digits hpos hbase cs hcs.2 (by decide)
  next => cases h

end Number

theorem Decimal.pattern_le (d : Decimal) : d.pattern ≤ Number.infinityPattern := by
  rw [pattern]
  split
  · exact Nat.zero_le _
  · split
    · exact Nat.le_refl _
    · split
      · exact Nat.zero_le _
      · exact Nat.min_le_right _ _

theorem Number.isNaN_of_readTrimmed? {cs : List Char} {n : Number} (h : readTrimmed? cs = some n) :
    n.isNaN = false := by
  by_cases hne : cs = []
  · rw [hne] at h
    cases h
    decide
  · rcases hbase : basePart? cs with _ | ⟨base, ds⟩
    · rw [readTrimmed?_of_signed hne hbase, readSigned?] at h
      split at h
      · cases h
        exact isNaN_ofPattern _ (Nat.le_refl _)
      · obtain ⟨d, -, rfl⟩ := Option.map_eq_some_iff.mp h
        exact isNaN_ofPattern _ d.pattern_le
    · obtain ⟨mark, -, hmark⟩ := eq_of_basePart? hbase
      obtain ⟨hpos, hle⟩ := base_of_baseOf? hmark
      rw [readTrimmed?_of_base hbase] at h
      exact isNaN_of_readBase? hpos hle h

theorem Number.isNaN_getD_iff (o : Option Number) (h : ∀ n, o = some n → n.isNaN = false) :
    (o.getD nan).isNaN = false ↔ o.isSome = true := by
  cases o with
  | none => decide
  | some n => simpa using h n rfl

end BlockScript
