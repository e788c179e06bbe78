import BlockScript.Proofs.Literals

/-!
# Reading a number by byte positions

A second reader of number literals, which goes over the bytes of the text by position. Each look at
a byte can fail, for a position beyond the end, and so can each cut of the text, for a position
beyond the end or inside a character. Neither happens on any text, and the reader gives the same
number as `read` (`scan_eq_read`): a position it has come to always stands before a character
(`LeftAt`), since it only moves past digits, points, marks and signs, each of which is a single byte
that no other character contains.
-/

namespace BlockScript

namespace Text

/-! ## Bytes -/

/-- The bytes of a text. -/
def bytes (cs : List Char) : List UInt8 := cs.flatMap String.utf8EncodeChar

/-- The text from a byte position on. There is none beyond the end or inside a character. -/
def sliceFrom? : Nat → List Char → Option (List Char)
  | 0, cs => some cs
  | _ + 1, [] => none
  | n + 1, c :: cs => if c.utf8Size ≤ n + 1 then sliceFrom? (n + 1 - c.utf8Size) cs else none

theorem bytes_cons (c : Char) (cs : List Char) :
    bytes (c :: cs) = String.utf8EncodeChar c ++ bytes cs := List.flatMap_cons

theorem length_bytes_cons (c : Char) (cs : List Char) :
    (bytes (c :: cs)).length = c.utf8Size + (bytes cs).length := by
  rw [bytes_cons, List.length_append, String.length_utf8EncodeChar]

theorem utf8EncodeChar_of_ascii {c : Char} (hc : c.toNat < 128) :
    String.utf8EncodeChar c = [c.toUInt8] :=
  String.utf8EncodeChar_eq_singleton
    (Char.utf8Size_eq_one_iff.mpr (UInt32.le_iff_toNat_le.mpr (Nat.le_of_lt_succ hc)))

/-- The first byte of a character outside of ASCII is no ASCII character. -/
theorem utf8EncodeChar_of_not_ascii {c : Char} (hc : 128 ≤ c.toNat) :
    ∃ b bs, String.utf8EncodeChar c = b :: bs ∧ 128 ≤ b.toNat := by
  have hlarge : ¬ c.val.toNat ≤ 127 := by
    show ¬ c.toNat ≤ 127
    omega
  rw [String.utf8EncodeChar, if_neg hlarge]
  split
  · refine ⟨_, _, rfl, ?_⟩
    rw [UInt8.toNat_ofNat']
    omega
  · split
    · refine ⟨_, _, rfl, ?_⟩
      rw [UInt8.toNat_ofNat']
      omega
    · refine ⟨_, _, rfl, ?_⟩
      rw [UInt8.toNat_ofNat']
      omega

/-- A text can be cut where a character begins and at its end, and nowhere else. -/
theorem sliceFrom?_eq_some_iff (n : Nat) (cs rest : List Char) :
    sliceFrom? n cs = some rest ↔ ∃ before, cs = before ++ rest ∧ (bytes before).length = n := by
  fun_induction sliceFrom? n cs with
  | case1 cs =>
    constructor
    · rintro ⟨⟩
      exact ⟨[], rfl, rfl⟩
    · rintro ⟨before, rfl, hlength⟩
      cases before with
      | nil => rfl
      | cons c before =>
        rw [length_bytes_cons] at hlength
        have hpos := c.utf8Size_pos
        omega
  | case2 n =>
    constructor
    · rintro ⟨⟩
    · rintro ⟨before, hnil, hlength⟩
      rw [(List.append_eq_nil_iff.mp hnil.symm).1] at hlength
      cases hlength
  | case3 n c cs hle ih =>
    rw [ih]
    clear ih
    constructor
    · rintro ⟨before, rfl, hlength⟩
      refine ⟨c :: before, rfl, ?_⟩
      rw [length_bytes_cons, hlength]
      omega
    · rintro ⟨before, hcs, hlength⟩
      cases before with
      | nil => cases hlength
      | cons d before =>
        cases hcs
        rw [length_bytes_cons] at hlength
        exact ⟨before, rfl, by omega⟩
  | case4 n c cs hle =>
    constructor
    · rintro ⟨⟩
    · rintro ⟨before, hcs, hlength⟩
      cases before with
      | nil => cases hlength
      | cons d before =>
        cases hcs
        rw [length_bytes_cons] at hlength
        omega

/-! ## Positions -/

/-- The position `i` is one where a character begins, or the end, and `rest` is the text from it
on. -/
structure LeftAt (bs : List UInt8) (i : Nat) (rest : List Char) : Prop where
  inside : i ≤ bs.length
  drop : bs.drop i = bytes rest

/-- A class of bytes and a class of characters are the same class of ASCII characters. -/
structure Agrees (p : UInt8 → Bool) (q : Char → Bool) : Prop where
  ascii : ∀ c : Char, c.toNat < 128 → p c.toUInt8 = q c
  byte : ∀ b : UInt8, 128 ≤ b.toNat → p b = false
  char : ∀ c : Char, 128 ≤ c.toNat → q c = false

theorem agrees_eq {d : Char} (hd : d.toNat < 128) : Agrees (· == d.toUInt8) (· == d) := by
  have hbyte : ∀ c : Char, c.toNat < 128 → c.toUInt8.toNat = c.toNat := by
    intro c hc
    show c.toNat % 256 = c.toNat
    omega
  refine ⟨?_, ?_, ?_⟩
  · intro c hc
    rw [Bool.eq_iff_iff, beq_iff_eq, beq_iff_eq, ← UInt8.toNat_inj, hbyte c hc, hbyte d hd]
    exact Char.toNat_inj
  · intro b hb
    rw [beq_eq_false_iff_ne]
    rintro rfl
    rw [hbyte d hd] at hb
    omega
  · intro c hc
    rw [beq_eq_false_iff_ne]
    rintro rfl
    omega

theorem Agrees.or {p₁ p₂ : UInt8 → Bool} {q₁ q₂ : Char → Bool} (h₁ : Agrees p₁ q₁)
    (h₂ : Agrees p₂ q₂) : Agrees (fun b => p₁ b || p₂ b) fun c => q₁ c || q₂ c where
  ascii c hc := by rw [h₁.ascii c hc, h₂.ascii c hc]
  byte b hb := by rw [h₁.byte b hb, h₂.byte b hb]; rfl
  char c hc := by rw [h₁.char c hc, h₂.char c hc]; rfl

namespace LeftAt

variable {bs : List UInt8} {i : Nat} {c : Char} {rest : List Char}

theorem start (cs : List Char) : LeftAt (bytes cs) 0 cs := ⟨Nat.zero_le _, rfl⟩

theorem eq_length_iff (h : LeftAt bs i rest) : i = bs.length ↔ rest = [] := by
  have hlength : (bytes rest).length = bs.length - i := by rw [← h.drop, List.length_drop]
  have hinside := h.inside
  cases rest with
  | nil =>
    have hzero : 0 = bs.length - i := hlength
    exact ⟨fun _ => rfl, fun _ => by omega⟩
  | cons c rest =>
    rw [length_bytes_cons] at hlength
    have hpos := c.utf8Size_pos
    constructor
    · intro heq
      omega
    · rintro ⟨⟩

theorem lt_length (h : LeftAt bs i (c :: rest)) : i < bs.length := by
  have hne : i ≠ bs.length := by
    intro heq
    cases h.eq_length_iff.mp heq
  exact Nat.lt_of_le_of_ne h.inside hne

theorem next (h : LeftAt bs i (c :: rest)) (hc : c.toNat < 128) : LeftAt bs (i + 1) rest := by
  refine ⟨h.lt_length, ?_⟩
  have hdrop := congrArg (List.drop 1) h.drop
  rw [List.drop_drop, bytes_cons, utf8EncodeChar_of_ascii hc] at hdrop
  exact hdrop

/-- There is a byte before a character, and it is of the same classes as the character. -/
theorem byte (h : LeftAt bs i (c :: rest)) :
    ∃ b, bs[i]? = some b ∧ ∀ p q, Agrees p q → p b = q c := by
  have hhead : ∀ b rest', bytes (c :: rest) = b :: rest' → bs[i]? = some b := by
    intro b rest' hbytes
    have hget : (bs.drop i)[0]? = bs[i + 0]? := List.getElem?_drop
    rw [h.drop, hbytes] at hget
    exact hget.symm
  -- an ASCII character is its own byte; any other begins with a byte that is in no class either
  by_cases hc : c.toNat < 128
  · refine ⟨c.toUInt8, hhead _ (bytes rest) ?_, fun p q hagrees => hagrees.ascii c hc⟩
    rw [bytes_cons, utf8EncodeChar_of_ascii hc]
    rfl
  · have hlarge : 128 ≤ c.toNat := Nat.le_of_not_lt hc
    obtain ⟨b, more, hencode, hb⟩ := utf8EncodeChar_of_not_ascii hlarge
    refine ⟨b, hhead b (more ++ bytes rest) ?_, ?_⟩
    · rw [bytes_cons, hencode]
      rfl
    · intro p q hagrees
      rw [hagrees.byte b hb, hagrees.char c hlarge]

end LeftAt

end Text

namespace Number

open Text

/-! ## The reader -/

/-- There is a byte of a class at a position. A position beyond the end is not looked at. -/
def byteIs (p : UInt8 → Bool) (bs : List UInt8) (i : Nat) : Option Bool :=
  if i < bs.length then bs[i]?.map p else some false

/-- The byte is a decimal digit. -/
def isDigitByte (b : UInt8) : Bool := '0'.toUInt8 ≤ b && b ≤ '9'.toUInt8

/-- The byte is a sign. -/
def isSignByte (b : UInt8) : Bool := b == '+'.toUInt8 || b == '-'.toUInt8

/-- The byte is the mark of an exponent. -/
def isMarkByte (b : UInt8) : Bool := b == 'e'.toUInt8 || b == 'E'.toUInt8

/-- The position after the digits from a position on. -/
def skipDigits (bs : List UInt8) (i : Nat) : Option Nat :=
  if h : i < bs.length then
    bs[i]?.bind fun b => if isDigitByte b then skipDigits bs (i + 1) else some i
  else some i
termination_by bs.length - i

/-- From a position on there is an exponent, or nothing. -/
def scanExponent (bs : List UInt8) (i : Nat) : Option Bool := do
  if ← byteIs isMarkByte bs i then
    let start := if ← byteIs isSignByte bs (i + 1) then i + 2 else i + 1
    let stop ← skipDigits bs start
    return stop != start && stop == bs.length
  else return i == bs.length

/-- The bytes are an unsigned decimal. -/
def scanDecimal (bs : List UInt8) : Option Bool := do
  let i ← skipDigits bs 0
  if ← byteIs (· == '.'.toUInt8) bs i then
    let j ← skipDigits bs (i + 1)
    if i + (j - (i + 1)) = 0 then return false else scanExponent bs j
  else if i = 0 then return false
  else scanExponent bs i

/-- An optional sign, true for minus, and the text after it. The first byte tells whether there is a
sign, and the text is cut after it. -/
def scanSign (cs : List Char) : Option (Bool × List Char) := do
  let first ← (bytes cs)[0]?
  if isSignByte first then (sliceFrom? 1 cs).map fun body => (first == '-'.toUInt8, body)
  else some (false, cs)

/-- The number of a text without a base. -/
def scanSigned (cs : List Char) : Option Number := do
  let (negative, body) ← scanSign cs
  if body = "Infinity".toList then return infinity negative
  else if ← scanDecimal (bytes body) then
    return (readDecimal? body).elim nan fun d => ofPattern negative d.pattern
  else return nan

/-- The number of a text, if no look and no cut goes wrong. -/
def scan (s : String) : Option Number :=
  let cs := trim s.toList
  if cs = [] then some zero
  else match basePart? cs with
    | some (base, ds) => some ((readBase? base ds).getD nan)
    | none => scanSigned cs

/-! ## Every look is inside -/

theorem agrees_digit : Agrees isDigitByte isDecimalDigit where
  ascii _ hc := forall_ascii (motive := fun c => isDigitByte c.toUInt8 = isDecimalDigit c)
    (by decide +kernel) hc
  byte b hb := by
    have hnot : ¬ b ≤ '9'.toUInt8 := by
      rw [UInt8.le_iff_toNat_le]
      show ¬ b.toNat ≤ 57
      omega
    simp [isDigitByte, hnot]
  char c hc := by
    rw [isDecimalDigit, isDigitOf, digitValue_of_not_ascii hc]
    rfl

theorem agrees_sign : Agrees isSignByte fun c => c == '+' || c == '-' :=
  (agrees_eq (by decide)).or (agrees_eq (by decide))

theorem agrees_mark : Agrees isMarkByte fun c => c == 'e' || c == 'E' :=
  (agrees_eq (by decide)).or (agrees_eq (by decide))

variable {bs : List UInt8} {i : Nat} {rest : List Char}

theorem byteIs_of_leftAt {p : UInt8 → Bool} {q : Char → Bool} (hagrees : Agrees p q)
    (h : LeftAt bs i rest) : byteIs p bs i = some (rest.head?.any q) := by
  rw [byteIs]
  cases rest with
  | nil =>
    have hend : ¬ i < bs.length := Nat.not_lt_of_le (Nat.le_of_eq (h.eq_length_iff.mpr rfl).symm)
    rw [if_neg hend]
    rfl
  | cons c rest =>
    obtain ⟨b, hb, hsame⟩ := h.byte
    rw [if_pos h.lt_length, hb, Option.map_some, hsame p q hagrees]
    rfl

/-- A digit is an ASCII character. -/
theorem ascii_of_isDecimalDigit {c : Char} (hc : isDecimalDigit c = true) : c.toNat < 128 := by
  by_contra hlarge
  rw [agrees_digit.char c (Nat.le_of_not_lt hlarge)] at hc
  cases hc

theorem skipDigits_of_leftAt (h : LeftAt bs i rest) :
    skipDigits bs i = some (i + (rest.takeWhile isDecimalDigit).length)
    ∧ LeftAt bs (i + (rest.takeWhile isDecimalDigit).length) (rest.dropWhile isDecimalDigit) := by
  induction rest generalizing i with
  | nil =>
    have hend : ¬ i < bs.length := Nat.not_lt_of_le (Nat.le_of_eq (h.eq_length_iff.mpr rfl).symm)
    rw [skipDigits, dif_neg hend]
    exact ⟨rfl, h⟩
  | cons c rest ih =>
    obtain ⟨b, hb, hsame⟩ := h.byte
    rw [skipDigits, dif_pos h.lt_length, hb, Option.bind_some, hsame _ _ agrees_digit]
    by_cases hc : isDecimalDigit c = true
    · obtain ⟨hskip, hleft⟩ := ih (h.next (ascii_of_isDecimalDigit hc))
      have hlength : i + (rest.takeWhile isDecimalDigit).length.succ
          = i + 1 + (rest.takeWhile isDecimalDigit).length := by omega
      rw [if_pos hc, List.takeWhile_cons_of_pos hc, List.dropWhile_cons_of_pos hc, List.length_cons,
        hlength]
      exact ⟨hskip, hleft⟩
    · rw [if_neg hc, List.takeWhile_cons_of_neg hc, List.dropWhile_cons_of_neg hc]
      exact ⟨rfl, h⟩

/-! ## The same texts are numbers -/

/-- The look for a sign finds one where `takeSign` takes one. -/
theorem leftAt_takeSign (h : LeftAt bs i rest) :
    ∃ found, byteIs isSignByte bs i = some found
      ∧ LeftAt bs (if found then i + 1 else i) (takeSign rest).2 := by
  refine ⟨_, byteIs_of_leftAt agrees_sign h, ?_⟩
  obtain ⟨after, rfl, htake⟩ | ⟨after, rfl, htake⟩ | ⟨htake, hnone⟩ := takeSign_cases rest
  · rw [htake]
    exact h.next (by decide)
  · rw [htake]
    exact h.next (by decide)
  · have hfound : rest.head?.any (fun c => c == '+' || c == '-') = false := by
      cases rest with
      | nil => rfl
      | cons c rest => simp [hnone c rfl]
    rw [htake, hfound]
    exact h

/-- Digits have been passed up to the end where there is a numeral and nothing else. -/
theorem passes_numeral_iff (h : LeftAt bs (i + (rest.takeWhile isDecimalDigit).length)
      (rest.dropWhile isDecimalDigit)) :
    (i + (rest.takeWhile isDecimalDigit).length != i
        && i + (rest.takeWhile isDecimalDigit).length == bs.length)
      = (!rest.isEmpty && rest.all isDecimalDigit) := by
  rw [Bool.eq_iff_iff, Bool.and_eq_true, Bool.and_eq_true, beq_iff_eq, h.eq_length_iff,
    List.dropWhile_eq_nil_iff, List.all_eq_true]
  constructor
  · rintro ⟨hmoved, hall⟩
    refine ⟨?_, hall⟩
    cases rest with
    | nil => simp at hmoved
    | cons c rest => rfl
  · rintro ⟨hsome, hall⟩
    refine ⟨?_, hall⟩
    rw [List.takeWhile_eq_self_iff.mpr hall]
    cases rest with
    | nil => cases hsome
    | cons c rest => simp

theorem scanExponent_of_leftAt (h : LeftAt bs i rest) :
    scanExponent bs i = some (readExponent? rest).isSome := by
  rw [scanExponent, byteIs_of_leftAt agrees_mark h]
  cases rest with
  | nil =>
    have hend : i = bs.length := h.eq_length_iff.mpr rfl
    simp [hend, readExponent?]
  | cons c rest =>
    rw [isSome_readExponent?_cons]
    show ((some (c == 'e' || c == 'E')).bind _) = _
    by_cases hmark : (c == 'e' || c == 'E') = true
    · have hascii : c.toNat < 128 := by
        by_contra hlarge
        rw [agrees_mark.char c (Nat.le_of_not_lt hlarge)] at hmark
        cases hmark
      obtain ⟨found, hfound, hstart⟩ := leftAt_takeSign (h.next hascii)
      obtain ⟨hskip, hstop⟩ := skipDigits_of_leftAt hstart
      rw [hmark, ← passes_numeral_iff hstop]
      simp [hfound, hskip]
    · have hinside : i ≠ bs.length := Nat.ne_of_lt h.lt_length
      rw [Bool.not_eq_true] at hmark
      simp [hmark, hinside]

/-- An exponent counts only after a digit. -/
theorem scanExponent_after (whole fraction : List Char) (h : LeftAt bs i rest) :
    (if whole.length + fraction.length = 0 then some false else scanExponent bs i)
      = some (!(whole.isEmpty && fraction.isEmpty) && (readExponent? rest).isSome) := by
  rw [scanExponent_of_leftAt h]
  cases whole with
  | nil =>
    cases fraction with
    | nil => rfl
    | cons c fraction => simp
  | cons c whole => simp

/-- **The scan of a decimal ends, and it accepts what the reader accepts.** -/
theorem scanDecimal_bytes (cs : List Char) :
    scanDecimal (bytes cs) = some (readDecimal? cs).isSome := by
  obtain ⟨hskip, hleft⟩ := skipDigits_of_leftAt (.start cs)
  rw [Nat.zero_add] at hskip hleft
  rw [isSome_readDecimal?, scanDecimal, hskip]
  generalize cs.takeWhile isDecimalDigit = whole at hleft
  generalize cs.dropWhile isDecimalDigit = after at hleft
  have hlook := byteIs_of_leftAt (agrees_eq (d := '.') (by decide)) hleft
  obtain ⟨rest, rfl, htake⟩ | ⟨htake, hnone⟩ := takeFraction_cases after
  · obtain ⟨hskip, hstop⟩ := skipDigits_of_leftAt (hleft.next (by decide))
    rw [htake, ← scanExponent_after whole _ hstop]
    simp [hlook, hskip]
  · have hfound : after.head?.any (· == '.') = false := by
      cases after with
      | nil => rfl
      | cons c after => simp [hnone c rfl]
    rw [htake, ← scanExponent_after whole [] hleft]
    simp [hlook, hfound]

/-- A text that is not empty has a first byte, and if that is a sign, a character begins after
it. -/
theorem scanSign_eq_takeSign {cs : List Char} (hne : cs ≠ []) :
    scanSign cs = some (takeSign cs) := by
  obtain ⟨c, rest, rfl⟩ := List.exists_cons_of_ne_nil hne
  obtain ⟨first, hfirst, hsame⟩ := (LeftAt.start (c :: rest)).byte
  have hminus : (first == '-'.toUInt8) = (c == '-') := hsame _ _ (agrees_eq (by decide))
  have hsign : isSignByte first = (c == '+' || c == '-') := hsame _ _ agrees_sign
  have hcut : c.toNat < 128 → sliceFrom? 1 (c :: rest) = some rest := by
    intro hc
    refine (sliceFrom?_eq_some_iff 1 (c :: rest) rest).mpr ⟨[c], rfl, ?_⟩
    rw [bytes_cons, utf8EncodeChar_of_ascii hc]
    rfl
  rw [scanSign, hfirst]
  show (if isSignByte first then _ else _) = _
  rw [hsign, hminus]
  obtain ⟨after, heq, htake⟩ | ⟨after, heq, htake⟩ | ⟨htake, hnone⟩ := takeSign_cases (c :: rest)
  · cases heq
    rw [htake, hcut (by decide)]
    rfl
  · cases heq
    rw [htake, hcut (by decide)]
    rfl
  · obtain ⟨hplus, hminus⟩ := hnone c rfl
    simp [htake, hplus, hminus]

theorem scanSigned_eq {cs : List Char} (hne : cs ≠ []) :
    scanSigned cs = some ((readSigned? cs).getD nan) := by
  rw [scanSigned, scanSign_eq_takeSign hne, readSigned?]
  rcases takeSign cs with ⟨negative, body⟩
  show (if body = "Infinity".toList then _ else Option.bind (scanDecimal (bytes body)) _) = _
  by_cases hinfinity : body = "Infinity".toList
  · rw [if_pos hinfinity, if_pos hinfinity]
    rfl
  · rw [if_neg hinfinity, if_neg hinfinity, scanDecimal_bytes]
    cases readDecimal? body with
    | none => rfl
    | some d => rfl

theorem scan_eq_read (s : String) : scan s = some (read s) := by
  rw [scan, read, read?]
  by_cases hne : trim s.toList = []
  · rw [if_pos hne, hne]
    rfl
  · rw [if_neg hne]
    rcases hbase : basePart? (trim s.toList) with _ | ⟨base, ds⟩
    · rw [readTrimmed?_of_signed hne hbase]
      exact scanSigned_eq hne
    · rw [readTrimmed?_of_base hbase]

/--
**A text is a number exactly if it is a literal.** Of any text take away the blanks at its two ends.
What is left is empty, and then the number is zero, or it is digits of a base after the zero and
letter of the base, or after an optional sign the word for infinity or a decimal: for these and for
no others the result is not a NaN. A reader that goes over the bytes of the text by position gives
the same number for every text, so it never looks beyond the end and never cuts the text there or
inside a character.
-/
theorem isNaN_read_iff (s : String) :
    Strips s.toList (trim s.toList)
      ∧ ((read s).isNaN = false ↔ IsLiteral (trim s.toList))
      ∧ (trim s.toList = [] → read s = zero)
      ∧ scan s = some (read s) := by
  refine ⟨strips_trim s.toList, ?_, ?_, scan_eq_read s⟩
  · rw [← isSome_readTrimmed?_iff, read, read?]
    exact isNaN_getD_iff _ fun n hn => isNaN_of_readTrimmed? hn
  · intro hempty
    rw [read, read?, hempty]
    rfl

end Number

end BlockScript
