import BlockScript.Proofs.Comparison
import BlockScript.Proofs.Spelling
import BlockScript.Routine.Lowering

/-!
# Numbers typed into slots

A number that is typed into a slot is a text. It becomes a number where the number has that very
text (`numeralConst`), and no script can tell: the constant reads as the same number, the same text
and the same truth value as what was typed (`Value.readsAlike_numeralConst`), and support functions
see no more of a value than these three readings (`Value.ReadsAlike.apply₂`). The short cuts of
comparisons look at the kind of a value too, but they give what the rule gives.

Main statement: `Support.apply_numeralConst`.
-/

namespace BlockScript

/-! ## Texts that are no literals -/

theorem Number.IsLiteral.head {c : Char} {cs : List Char} (h : IsLiteral (c :: cs)) :
    IsDigit 10 c ∨ c ∈ ['.', '+', '-', 'I'] := by
  generalize hcs : c :: cs = l at h
  cases h with
  | empty => cases hcs
  | based =>
    cases hcs
    exact .inl (by decide)
  | infinity hsign =>
    cases hsign with
    | absent | plus | minus =>
      cases hcs
      exact .inr (by decide)
  | decimal hsign hm =>
    obtain ⟨d, rest, rfl, hd⟩ := hm.head
    cases hsign with
    | absent =>
      cases hcs
      exact hd.imp_right fun hd => by simp [hd]
    | plus | minus =>
      cases hcs
      exact .inr (by decide)

/-- Blanks are taken away from the ends only, so a text that begins with none still begins so. -/
theorem Text.trim_cons {c : Char} (hc : isBlank c = false) (cs : List Char) :
    ∃ rest, trim (c :: cs) = c :: rest := by
  obtain ⟨before, after, hcs, hbefore, hafter⟩ := (strips_trim (c :: cs)).between
  generalize trim (c :: cs) = t at hcs
  have hhead : (before ++ t ++ after).head? = some c := by rw [← hcs]; rfl
  cases before with
  | cons d before =>
    cases hhead
    rw [hbefore c List.mem_cons_self] at hc
    cases hc
  | nil =>
    cases t with
    | nil =>
      rw [hafter c (List.mem_of_mem_head? hhead)] at hc
      cases hc
    | cons d rest =>
      cases hhead
      exact ⟨rest, rfl⟩

/-- What begins like no literal is none. -/
theorem Number.read?_eq_none {s : String} {c : Char} {cs : List Char} (hs : s.toList = c :: cs)
    (hblank : Text.isBlank c = false) (hc : ¬ (IsDigit 10 c ∨ c ∈ ['.', '+', '-', 'I'])) :
    read? s = none := by
  obtain ⟨rest, htrim⟩ := Text.trim_cons hblank cs
  rw [read?, hs, htrim, ← Option.not_isSome_iff_eq_none, isSome_readTrimmed?_iff]
  exact fun hliteral => hc hliteral.head

theorem eq_of_toLower_eq_f {c : Char} (h : c.toLower = 'f') : c = 'f' ∨ c = 'F' := by
  by_cases hupper : c.val ≥ 'A'.val ∧ c.val ≤ 'Z'.val
  · have hascii : c.toNat < 128 :=
      Nat.lt_of_le_of_lt (UInt32.le_iff_toNat_le.mp hupper.2) (by decide)
    revert h
    exact forall_ascii (motive := fun c => c.toLower = 'f' → c = 'f' ∨ c = 'F')
      (by decide +kernel) hascii
  · have hlower : c.toLower = c := dif_neg hupper
    exact .inl (hlower.symm.trans h)

/-- The name of the truth value is no literal, whatever case its letters have. -/
theorem Number.read?_false {s : String} (h : s.toList.map Char.toLower = "false".toList) :
    read? s = none := by
  obtain ⟨c, cs, hs, hc, -⟩ := List.map_eq_cons_iff.mp h
  rcases eq_of_toLower_eq_f hc with rfl | rfl
  · exact read?_eq_none hs (by decide) (by decide)
  · exact read?_eq_none hs (by decide) (by decide)

/-! ## Numbers that keep their text -/

namespace Number

variable {n : Number} {s : String}

/-- A literal that is the text of its number is true as a number if it is true as a text. -/
theorem toBool_of_read? (hread : read? s = some n) (htext : n.text = s) :
    (Value.number n).toBool = (Value.text s).toBool := by
  have hnan : n.isNaN = false := isNaN_of_readTrimmed? hread
  have hfalse : s.toList.map Char.toLower ≠ "false".toList := by
    intro hlower
    rw [read?_false hlower] at hread
    cases hread
  have hzero : n.isZero = (s == "0") := by
    rw [Bool.eq_iff_iff, beq_iff_eq]
    constructor
    · intro hzero
      rw [← htext, text_of_isZero hzero]
    · rintro rfl
      rw [read?_zero] at hread
      cases hread
      decide
  have hempty : s ≠ "" := by
    -- the empty text is read as zero, which has another text
    rintro rfl
    cases hread
    exact absurd htext (by decide +kernel)
  rw [Value.toBool, Value.toBool, hnan, hzero, beq_eq_false_iff_ne.mpr hempty,
    beq_eq_false_iff_ne.mpr hfalse]
  simp

end Number

/-! ## Values that read alike -/

namespace Value

/-- The values read as the same number, the same text and the same truth value. -/
structure ReadsAlike (v w : Value) : Prop where
  reading : v.reading = w.reading
  toText : v.toText = w.toText
  toBool : v.toBool = w.toBool

theorem ReadsAlike.refl (v : Value) : ReadsAlike v v := ⟨rfl, rfl, rfl⟩

/-- **The constant of a number typed into a slot reads like what was typed.** -/
theorem readsAlike_numeralConst (s : String) : ReadsAlike (numeralConst s) (.text s) := by
  unfold numeralConst
  split
  next n hread =>
    split
    next htext =>
      refine ⟨?_, htext, Number.toBool_of_read? hread htext⟩
      rw [reading, reading, Number.read, hread]
      rfl
    next => exact .refl _
  next => exact .refl _

namespace ReadsAlike

variable {v w v' w' : Value}

theorem toNumber (h : ReadsAlike v w) : v.toNumber = w.toNumber := by
  rw [Value.toNumber, Value.toNumber, h.reading]

theorem folded (h : ReadsAlike v w) : v.folded = w.folded := by
  rw [Value.folded, Value.folded, h.toText]

theorem compare (h : ReadsAlike v w) (h' : ReadsAlike v' w') :
    Value.compare v v' = Value.compare w w' := by
  rw [Value.compare, Value.compare, comparable?, comparable?, comparable?, comparable?, h.reading,
    h'.reading, h.folded, h'.folded]

theorem letterOf (h : ReadsAlike v w) (h' : ReadsAlike v' w') : v.letterOf v' = w.letterOf w' := by
  delta Value.letterOf
  rw [h.toNumber, h'.toText]

/-- **A support function sees of a value how it reads**, and nothing else. -/
theorem apply₂ (h : ReadsAlike v w) (h' : ReadsAlike v' w') (f : Support) :
    f.apply₂ v v' = f.apply₂ w w' := by
  cases f with
  | compareEqual | compareGreaterThan | compareLessThan =>
    simp only [Support.apply₂, equal_eq, greater_eq, less_eq, h.compare h']
  | toNumber | add | subtract | multiply | divide | modulo | round | repeatCount | waitDuration =>
    simp only [Support.apply₂, h.toNumber, h'.toNumber]
  | toString | join | length => simp only [Support.apply₂, h.toText, h'.toText]
  | letterOf => simp only [Support.apply₂, h.letterOf h']
  | contains => simp only [Support.apply₂, Value.contains, h.folded, h'.folded]
  | toBoolean | not | and | or => simp only [Support.apply₂, h.toBool, h'.toBool]

/-- One argument among others can be exchanged for one that reads alike. -/
theorem getD_append (h : ReadsAlike v w) (before after : List Value) (i : Nat) :
    ReadsAlike ((before ++ v :: after)[i]?.getD .empty)
      ((before ++ w :: after)[i]?.getD .empty) := by
  rcases Nat.lt_trichotomy i before.length with hlt | rfl | hgt
  · rw [List.getElem?_append_left hlt, List.getElem?_append_left hlt]
    exact .refl _
  · rw [List.getElem?_append_right (Nat.le_refl _), List.getElem?_append_right (Nat.le_refl _),
      Nat.sub_self]
    exact h
  · obtain ⟨k, rfl⟩ := Nat.exists_eq_add_of_lt hgt
    have hright : before.length ≤ before.length + k + 1 := by omega
    have hindex : before.length + k + 1 - before.length = k + 1 := by omega
    rw [List.getElem?_append_right hright, List.getElem?_append_right hright, hindex,
      List.getElem?_cons_succ, List.getElem?_cons_succ]
    exact .refl _

end ReadsAlike

/-- The shapes of both kinds of constants are not told apart in the keys of variants. -/
theorem widen_shape_numeralConst (s : String) :
    (numeralConst s).shape.widen = (Value.text s).shape.widen := by
  unfold numeralConst
  split
  · split
    · rfl
    · rfl
  · rfl

end Value

/--
**No one can tell whether a number typed into a slot was turned into a number.**

For every text, the constant that is made of it can stand for the text. Each support function gives
the same value, bit for bit, with either of the two at any place among any other arguments. The
shapes of the two are the same once they are widened, so a call with either of them among its
arguments asks for the same variant.
-/
theorem Support.apply_numeralConst (s : String) :
    (∀ (f : Support) (before after : List Value),
      f.apply (before ++ numeralConst s :: after) = f.apply (before ++ .text s :: after))
    ∧ (numeralConst s).shape.widen = (Value.text s).shape.widen
    ∧ ∀ (proccode : String) (before after : List Expr) (warp : Bool),
      VariantKey.ofCall proccode ((before ++ .const (numeralConst s) :: after).map Expr.shape) warp
        = VariantKey.ofCall proccode ((before ++ .const (.text s) :: after).map Expr.shape)
          warp := by
  have halike := Value.readsAlike_numeralConst s
  have hwiden := Value.widen_shape_numeralConst s
  refine ⟨fun f before after => ?_, hwiden, fun proccode before after warp => ?_⟩
  · exact (halike.getD_append before after 0).apply₂ (halike.getD_append before after 1) f
  · simp only [VariantKey.ofCall, List.map_append, List.map_cons, Expr.shape, hwiden]

end BlockScript
