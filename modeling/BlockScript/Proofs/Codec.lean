import BlockScript.Image.Link
import Mathlib.Algebra.Group.Nat.Defs

/-!
# Reading back what was written

What a reader takes from the bytes of a value, with any bytes after it, is that value and leaves
just those bytes, provided that the lengths in it are 64-bit numbers; otherwise it gives up. Both
halves are said by `Reader.Takes`, which goes through the parts of a format one after the other
(`Reader.Takes.bind`).

Main statements: images are read back as they were (`Reader.codes_image`), so what is loaded from
the bytes of an image is that image (`Image.image_of_load_encode`); the bytes of an image tell it
from all others and tell where it ends, and to load them is to link it (`Image.roundTrip_encode`).
-/

namespace BlockScript

/-! ## Readers and writers -/

/-- The length of a text is a 64-bit number. -/
def TextFits (s : String) : Prop := s.utf8ByteSize < 2 ^ 64

/-- The length of a list is a 64-bit number, and its members fit. -/
def ListFits {α : Type} (Fits : α → Prop) (xs : List α) : Prop :=
  xs.length < 2 ^ 64 ∧ ∀ a ∈ xs, Fits a

namespace Reader

variable {α β : Type}

/-- From `bytes` the reader takes `a` and leaves `rest` if `p` holds, and gives up otherwise. -/
structure Takes (r : Reader α) (bytes : List UInt8) (p : Prop) (a : α) (rest : List UInt8) :
    Prop where
  ok : p → r bytes = .ok (a, rest)
  error : ¬ p → ∃ e, r bytes = .error e

namespace Takes

variable {r : Reader α} {f : α → Reader β} {p q : Prop} {a : α} {b : β}
  {bytes rest rest' : List UInt8}

theorem congr (h : r.Takes bytes p a rest) (hpq : q ↔ p) : r.Takes bytes q a rest :=
  ⟨fun hq => h.ok (hpq.mp hq), fun hq => h.error (mt hpq.mpr hq)⟩

protected theorem pure : (pure a : Reader α).Takes rest True a rest :=
  ⟨fun _ => rfl, fun h => absurd trivial h⟩

/-- One part after another. -/
theorem bind (h : r.Takes bytes p a rest) (hf : (f a).Takes rest q b rest') :
    (r >>= f).Takes bytes (p ∧ q) b rest' := by
  have hbind : (r >>= f) bytes = andThen r f bytes := rfl
  rw [andThen] at hbind
  by_cases hp : p
  · have hnext : (r >>= f) bytes = f a rest := by rw [hbind, h.ok hp]
    exact ⟨fun hpq => hnext ▸ hf.ok hpq.2, fun hpq => hnext ▸ hf.error fun hq => hpq ⟨hp, hq⟩⟩
  · obtain ⟨e, he⟩ := h.error hp
    exact ⟨fun hpq => absurd hpq.1 hp, fun _ => ⟨e, by rw [hbind, he]⟩⟩

/-- A part that always fits. -/
theorem bind_true (h : r.Takes bytes True a rest) (hf : (f a).Takes rest q b rest') :
    (r >>= f).Takes bytes q b rest' :=
  (h.bind hf).congr (iff_of_eq (true_and q)).symm

/-- The last part. -/
theorem map (h : r.Takes bytes p a rest) (g : α → β) :
    (r >>= fun a => (pure (g a) : Reader β)).Takes bytes p (g a) rest :=
  (h.bind (f := fun a => pure (g a)) .pure).congr (iff_of_eq (and_true p)).symm

end Takes

/-- The reader reads back what is written, if that fits. -/
def Codes (r : Reader α) (write : α → List UInt8) (Fits : α → Prop) : Prop :=
  ∀ a rest, r.Takes (write a ++ rest) (Fits a) a rest

/-! ## Numbers and truth values -/

/-- How many numbers a reader of so many groups can take. -/
def varintCount (lastMax : Nat) : (groups : Nat) → Nat
  | 0 => 0
  | groups + 1 => (lastMax + 1) * 128 ^ groups

/-- The last group of a number. -/
theorem takes_varint_last (lastMax groups : Nat) {b : UInt8} (hb : b.toNat < 128)
    (rest : List UInt8) :
    (varint lastMax (groups + 1)).Takes (b :: rest) (b.toNat < varintCount lastMax (groups + 1))
      b.toNat rest := by
  have hread : varint lastMax (groups + 1) (b :: rest)
      = if groups = 0 ∧ lastMax < b.toNat then .error .badVarint else .ok (b.toNat, rest) := by
    change (if b.toNat < 128 then _ else _ : Reader Nat) rest = _
    rw [if_pos hb]
    split <;> rfl
  have hfits : b.toNat < varintCount lastMax (groups + 1) ↔ ¬ (groups = 0 ∧ lastMax < b.toNat) := by
    rw [varintCount]
    cases groups with
    | zero =>
      rw [Nat.pow_zero, Nat.mul_one]
      omega
    | succ groups =>
      have hpow : 0 < 128 ^ groups := Nat.pow_pos (by omega)
      have hle : 128 * 1 ≤ 128 ^ (groups + 1) := by
        rw [Nat.pow_succ, Nat.mul_comm]
        exact Nat.mul_le_mul_right 128 hpow
      have hle' : 128 ^ (groups + 1) ≤ (lastMax + 1) * 128 ^ (groups + 1) :=
        Nat.le_mul_of_pos_left _ (Nat.succ_pos lastMax)
      simp only [Nat.succ_ne_zero, false_and, not_false_iff, iff_true]
      omega
  constructor
  · intro h
    rw [hread, if_neg (hfits.mp h)]
  · intro h
    exact ⟨_, by rw [hread, if_pos (Classical.not_not.mp (mt hfits.mpr h))]⟩

/-- A group of a number that is not the last one. -/
theorem takes_varint_more {lastMax groups n : Nat} {b : UInt8} {p : Prop} {bytes rest : List UInt8}
    (hb : ¬ b.toNat < 128) (h : (varint lastMax groups).Takes bytes p n rest) :
    (varint lastMax (groups + 1)).Takes (b :: bytes) p (b.toNat - 128 + 128 * n) rest := by
  have hread : varint lastMax (groups + 1) (b :: bytes)
      = (varint lastMax groups >>= fun high => pure (b.toNat - 128 + 128 * high) : Reader Nat)
        bytes := by
    change (if b.toNat < 128 then _ else _ : Reader Nat) bytes = _
    rw [if_neg hb]
  have h := h.map fun high => b.toNat - 128 + 128 * high
  exact ⟨fun hp => hread ▸ h.ok hp, fun hp => hread ▸ h.error hp⟩

/-- **Groups of seven bits are read back**, if the reader takes as many of them as there are. -/
theorem takes_varintGroups {lastMax : Nat} (hlast : lastMax < 128) :
    ∀ {groups k : Nat} (n : Nat) (rest : List UInt8), groups ≤ k →
      (varint lastMax groups).Takes (Wire.varintGroups k n ++ rest) (n < varintCount lastMax groups)
        n rest
  | 0, _, n, rest, _ => ⟨fun h => absurd h (Nat.not_lt_zero n), fun _ => ⟨_, rfl⟩⟩
  | groups + 1, k + 1, n, rest, hk => by
    rw [Wire.varintGroups]
    split
    · next hn =>
      have htoNat : (UInt8.ofNat n).toNat = n := by simp; omega
      have h := takes_varint_last lastMax groups (b := UInt8.ofNat n) (by omega) rest
      rwa [htoNat] at h
    · next hn =>
      have htoNat : (UInt8.ofNat (n % 128 + 128)).toNat = n % 128 + 128 := by simp; omega
      have hrest : (varint lastMax groups).Takes (Wire.varintGroups k (n / 128) ++ rest) _ _ rest :=
        takes_varintGroups hlast (n / 128) rest (by omega)
      have h := takes_varint_more (b := UInt8.ofNat (n % 128 + 128)) (by omega) hrest
      have hvalue : (UInt8.ofNat (n % 128 + 128)).toNat - 128 + 128 * (n / 128) = n := by omega
      rw [hvalue] at h
      refine h.congr ?_
      cases groups with
      | zero => simp [varintCount]; omega
      | succ groups =>
        rw [varintCount, varintCount, Nat.pow_succ, ← Nat.mul_assoc,
          Nat.div_lt_iff_lt_mul (by omega)]

theorem codes_uint16 : uint16.Codes Wire.uint16 fun _ => True := fun n rest => by
  have hread : (varint 3 3).Takes (Wire.varintGroups 10 n.toNat ++ rest) _ n.toNat rest :=
    takes_varintGroups (by omega) n.toNat rest (by omega)
  have h := hread.map UInt16.ofNat
  rw [UInt16.ofNat_toNat] at h
  exact h.congr (iff_of_true trivial n.toNat_lt)

theorem codes_uint32 : uint32.Codes Wire.uint32 fun _ => True := fun n rest => by
  have hread : (varint 15 5).Takes (Wire.varintGroups 10 n.toNat ++ rest) _ n.toNat rest :=
    takes_varintGroups (by omega) n.toNat rest (by omega)
  have h := hread.map UInt32.ofNat
  rw [UInt32.ofNat_toNat] at h
  exact h.congr (iff_of_true trivial n.toNat_lt)

theorem codes_length : length.Codes Wire.varint fun n => n < 2 ^ 64 := fun n rest =>
  takes_varintGroups (by omega) n rest (Nat.le_refl 10)

theorem codes_int32 : int32.Codes Wire.int32 fun _ => True := fun i rest => by
  have hle := i.le_toInt
  have hlt := i.toInt_lt
  -- the sign is in the lowest bit
  have hmap : ∀ n : Nat, (i.toInt < 0 → n = 2 * i.toInt.natAbs - 1) →
      (¬ i.toInt < 0 → n = 2 * i.toInt.natAbs) →
      n < 2 ^ 32 ∧ (if n % 2 = 0 then Int32.ofInt (n / 2 : Nat)
        else Int32.ofInt (-((n / 2 : Nat) : Int) - 1)) = i := by
    intro n hneg hpos
    refine ⟨by omega, ?_⟩
    by_cases hi : i.toInt < 0
    · rw [if_neg (by have := hneg hi; omega),
        show -((n / 2 : Nat) : Int) - 1 = i.toInt by have := hneg hi; omega, Int32.ofInt_toInt]
    · rw [if_pos (by have := hpos hi; omega),
        show ((n / 2 : Nat) : Int) = i.toInt by have := hpos hi; omega, Int32.ofInt_toInt]
  obtain ⟨hfits, hvalue⟩ := hmap
    (if i.toInt < 0 then 2 * i.toInt.natAbs - 1 else 2 * i.toInt.natAbs) (fun h => if_pos h)
    (fun h => if_neg h)
  have hread : (varint 15 5).Takes (Wire.int32 i ++ rest) _ _ rest :=
    takes_varintGroups (by omega) _ rest (by omega)
  have h := hread.map fun n =>
    if n % 2 = 0 then Int32.ofInt (n / 2 : Nat) else Int32.ofInt (-((n / 2 : Nat) : Int) - 1)
  rw [hvalue] at h
  exact h.congr (iff_of_true trivial hfits)

theorem codes_bool : bool.Codes Wire.bool fun _ => True := fun b rest => by
  cases b <;> exact ⟨fun _ => rfl, fun h => absurd trivial h⟩

/-! ## Rows of values -/

/-- Values that are written one after the other are read back one after the other. -/
theorem Codes.many {r : Reader α} {write : α → List UInt8} {Fits : α → Prop}
    (h : r.Codes write Fits) : ∀ (xs : List α) (rest : List UInt8),
      (r.many xs.length).Takes (xs.flatMap write ++ rest) (∀ a ∈ xs, Fits a) xs rest
  | [], rest => Takes.pure.congr (iff_of_true (fun _ h => nomatch h) trivial)
  | a :: xs, rest => by
    rw [List.flatMap_cons, List.append_assoc, List.length_cons, Reader.many]
    refine ((h a _).bind ((h.many xs rest).map (a :: ·))).congr ?_
    rw [List.forall_mem_cons]

theorem Codes.list {r : Reader α} {write : α → List UInt8} {Fits : α → Prop}
    (h : r.Codes write Fits) : r.list.Codes (Wire.list write) (ListFits Fits) := by
  intro xs rest
  rw [Wire.list, List.append_assoc]
  exact (codes_length xs.length _).bind (h.many xs rest)

/-- Bytes are read back as they are. -/
theorem takes_bytes (bs rest : List UInt8) : (bytes bs.length).Takes (bs ++ rest) True bs rest := by
  have hbyte : byte.Codes (fun b => [b]) fun _ => True := fun b rest =>
    ⟨fun _ => rfl, fun h => absurd trivial h⟩
  have h := hbyte.many bs rest
  rw [List.flatMap_singleton'] at h
  exact h.congr (iff_of_true trivial fun _ _ => trivial)

theorem codes_text : text.Codes Wire.text TextFits := by
  intro s rest
  have hsize : s.toUTF8.data.toList.length = s.utf8ByteSize := by simp
  have hread : String.fromUTF8? (ByteArray.mk s.toUTF8.data.toList.toArray) = some s := by
    rw [Array.toArray_toList, String.fromUTF8?]
    exact dif_pos s.isValidUTF8
  rw [Wire.text, List.append_assoc, ← hsize]
  refine ((codes_length _ _).bind ((takes_bytes _ _).bind_true (q := True) ?_)).congr
    (iff_of_eq (and_true _)).symm
  rw [hread]
  exact .pure

theorem codes_word : word.Codes Wire.word fun _ => True := by
  intro w rest
  have hlt := w.toNat_lt
  have hvalue : UInt64.ofNat ((Wire.word w).foldr (fun b n => b.toNat + 256 * n) 0) = w := by
    have hsum : (Wire.word w).foldr (fun b n => b.toNat + 256 * n) 0 = w.toNat := by
      simp [Wire.word, List.range, List.range.loop]
      omega
    rw [hsum, UInt64.ofNat_toNat]
  have h := (takes_bytes (Wire.word w) rest).map
    fun bs => UInt64.ofNat (bs.foldr (fun b n => b.toNat + 256 * n) 0)
  rwa [hvalue] at h

/-! ## Choices -/

/-- The index of an alternative is read back, and then its contents. -/
theorem takes_choice {f : Nat → Reader α} {index : Nat} {contents rest rest' : List UInt8}
    {p : Prop} {a : α} (hindex : index < 2 ^ 32)
    (h : (f index).Takes (contents ++ rest) p a rest') :
    (choice >>= f).Takes (Wire.choice index contents ++ rest) p a rest' := by
  have hread : choice.Takes (Wire.varint index ++ (contents ++ rest)) _ index (contents ++ rest) :=
    takes_varintGroups (by omega) index _ (by omega)
  rw [Wire.choice, List.append_assoc]
  exact (hread.congr (iff_of_true trivial hindex)).bind_true h

end Reader

/-! ## Images -/

/-- The lengths in a value are 64-bit numbers. -/
def Value.FitsWire : Value → Prop
  | .text s => TextFits s
  | _ => True

/-- The lengths in a key are 64-bit numbers. -/
def VariantKey.FitsWire (k : VariantKey) : Prop :=
  TextFits k.proccode ∧ ListFits (fun _ => True) k.signature

/-- The lengths in an instruction are 64-bit numbers. -/
def Instr.FitsWire : Instr → Prop
  | .push v => v.FitsWire
  | .escape _ opcode inputs => TextFits opcode ∧ ListFits TextFits inputs
  | .getVariable name | .setVariable name => TextFits name
  | _ => True

/-- The lengths in an image are 64-bit numbers. -/
def Image.FitsWire (i : Image) : Prop :=
  TextFits i.name ∧ ListFits Instr.FitsWire i.ops ∧ ListFits TextFits i.support
    ∧ ListFits TextFits i.host ∧ ListFits VariantKey.FitsWire i.procedures

namespace Reader

theorem codes_value : value.Codes Wire.value Value.FitsWire := by
  intro v rest
  cases v with
  | number n =>
    exact takes_choice (by decide) ((codes_word n.bits rest).map fun w => Value.number ⟨w⟩)
  | text s => exact takes_choice (by decide) ((codes_text s rest).map Value.text)
  | bool b => exact takes_choice (by decide) ((codes_bool b rest).map Value.bool)

theorem codes_shape : shape.Codes Wire.shape fun _ => True := by
  intro s rest
  cases s <;> exact takes_choice (by decide) .pure

theorem codes_yieldKind : yieldKind.Codes Wire.yieldKind fun _ => True := by
  intro kind rest
  cases kind <;> exact takes_choice (by decide) .pure

theorem codes_key : key.Codes Wire.key VariantKey.FitsWire := by
  intro k rest
  rw [Wire.key, List.append_assoc, List.append_assoc]
  refine Takes.congr ((codes_text k.proccode _).bind ((codes_shape.list k.signature _).bind
    ((codes_bool k.warp rest).map fun warp => { k with warp := warp }))) ?_
  rw [VariantKey.FitsWire, and_true]

/-- Two indices of an instruction. -/
theorem takes_indices (make : UInt16 → UInt16 → Instr) (i argc : UInt16) (rest : List UInt8) :
    (do
      let i ← uint16
      let argc ← uint16
      return make i argc : Reader Instr).Takes (Wire.uint16 i ++ Wire.uint16 argc ++ rest) True
        (make i argc) rest := by
  rw [List.append_assoc]
  exact (codes_uint16 i _).bind_true ((codes_uint16 argc rest).map (make i))

theorem codes_instr : instr.Codes Wire.instr Instr.FitsWire := by
  intro op rest
  cases op with
  | push v => exact takes_choice (by decide) ((codes_value v rest).map Instr.push)
  | drop | startTimer | waitTimer | ret => exact takes_choice (by decide) .pure
  | loadArg i => exact takes_choice (by decide) ((codes_uint16 i rest).map Instr.loadArg)
  | loadLocal i => exact takes_choice (by decide) ((codes_uint16 i rest).map Instr.loadLocal)
  | storeLocal i => exact takes_choice (by decide) ((codes_uint16 i rest).map Instr.storeLocal)
  | callSupport i argc =>
    exact takes_choice (by decide) (takes_indices Instr.callSupport i argc rest)
  | callHost i argc => exact takes_choice (by decide) (takes_indices Instr.callHost i argc rest)
  | callProcedure i argc =>
    exact takes_choice (by decide) (takes_indices Instr.callProcedure i argc rest)
  | escape block opcode inputs =>
    refine takes_choice (by decide) ?_
    rw [List.append_assoc, List.append_assoc]
    exact (codes_uint32 block _).bind_true
      ((codes_text opcode _).bind ((codes_text.list inputs rest).map (Instr.escape block opcode)))
  | getVariable name =>
    exact takes_choice (by decide) ((codes_text name rest).map Instr.getVariable)
  | setVariable name =>
    exact takes_choice (by decide) ((codes_text name rest).map Instr.setVariable)
  | jump offset => exact takes_choice (by decide) ((codes_int32 offset rest).map Instr.jump)
  | jumpIfFalse offset =>
    exact takes_choice (by decide) ((codes_int32 offset rest).map Instr.jumpIfFalse)
  | jumpIfTrue offset =>
    exact takes_choice (by decide) ((codes_int32 offset rest).map Instr.jumpIfTrue)
  | countdown counter exit =>
    refine takes_choice (by decide) ?_
    rw [List.append_assoc]
    exact (codes_uint16 counter _).bind_true ((codes_int32 exit rest).map (Instr.countdown counter))
  | yield kind => exact takes_choice (by decide) ((codes_yieldKind kind rest).map Instr.yield)
  | checkDeadline counter interval =>
    refine takes_choice (by decide) ?_
    rw [List.append_assoc]
    exact (codes_uint16 counter _).bind_true
      ((codes_uint32 interval rest).map (Instr.checkDeadline counter))

/-- **An image is read back as it was**, whatever bytes come after it. -/
theorem codes_image : image.Codes Image.encode Image.FitsWire := by
  intro i rest
  simp only [Image.encode, List.append_assoc]
  refine Takes.congr ((codes_text i.name _).bind ((codes_instr.list i.ops _).bind
    ((codes_text.list i.support _).bind ((codes_text.list i.host _).bind
      ((codes_key.list i.procedures _).bind ((codes_uint16 i.locals _).bind_true
        ((codes_uint16 i.arity _).bind_true ((codes_bool i.warp rest).map
          fun warp => { i with warp := warp })))))))) ?_
  simp only [Image.FitsWire, and_true]

end Reader

namespace Image

/-- What is linked is linked from its own image, and all that it imports is allowed. -/
theorem allows_of_link {i : Image} {c : Capabilities} {l : Linked} (h : i.link c = .ok l) :
    l.image = i ∧ ∀ name ∈ i.host, c.allows name = true := by
  unfold link at h
  split at h
  · cases h
  split at h
  · cases h
  split at h
  · cases h
  split at h
  · cases h
  · next hallowed =>
    cases h
    refine ⟨rfl, fun name hname => ?_⟩
    simpa using List.find?_eq_none.mp hallowed name hname

theorem image_of_link {i : Image} {c : Capabilities} {l : Linked} (h : i.link c = .ok l) :
    l.image = i :=
  (allows_of_link h).1

/-- What is loaded from the bytes of an image is that image. -/
theorem image_of_load_encode {name : String} {i : Image} {c : Capabilities} {l : Linked}
    (h : load name i.encode c = .ok l) : l.image = i := by
  have htakes := Reader.codes_image i []
  rw [List.append_nil] at htakes
  unfold load decode at h
  by_cases hfits : i.FitsWire
  · rw [htakes.ok hfits] at h
    exact image_of_link h
  · obtain ⟨e, he⟩ := htakes.error hfits
    rw [he] at h
    cases h

theorem decode_encode_append {i : Image} (hi : i.FitsWire) (rest : List UInt8) :
    decode (i.encode ++ rest) = .ok i := by
  rw [decode, (Reader.codes_image i rest).ok hi]
  rfl

/-- Bytes that begin with those of an image that fits begin with those of no other image. -/
theorem eq_of_encode_append {i j : Image} {rest rest' : List UInt8} (hi : i.FitsWire)
    (h : j.encode ++ rest' = i.encode ++ rest) : j = i ∧ rest' = rest := by
  have hread := (Reader.codes_image i rest).ok hi
  rw [← h] at hread
  by_cases hj : j.FitsWire
  · rw [(Reader.codes_image j rest').ok hj] at hread
    cases hread
    exact ⟨rfl, rfl⟩
  · -- the reader would give up on the other image
    obtain ⟨e, he⟩ := (Reader.codes_image j rest').error hj
    rw [he] at hread
    cases hread

/-- **The bytes of an image tell the image and where it ends.** Whatever bytes come after them, the
image is read back bit for bit and the bytes after it are left; no other image is written with bytes
that these begin with, or that begin with these; and what is loaded from them is what the image is
linked to. All this for an image whose lengths are 64-bit numbers, as lengths in a memory are. -/
theorem roundTrip_encode (i : Image) (hi : i.FitsWire) :
    (∀ rest, Reader.image (i.encode ++ rest) = .ok (i, rest) ∧ decode (i.encode ++ rest) = .ok i)
      ∧ (∀ (j : Image) (rest rest' : List UInt8), j.encode ++ rest' = i.encode ++ rest →
          j = i ∧ rest' = rest)
      ∧ ∀ name rest c, load name (i.encode ++ rest) c = i.link c := by
  refine ⟨fun rest => ⟨(Reader.codes_image i rest).ok hi, decode_encode_append hi rest⟩,
    fun j rest rest' h => eq_of_encode_append hi h, fun name rest c => ?_⟩
  rw [load, decode_encode_append hi rest]

/-- An image with every instruction, and with operands at the ends of their ranges. -/
def sampler : Image where
  name := "žluť 𝄞"
  ops := [.push (.number ⟨0x7FF0000000000001⟩), .push (.number ⟨0x8000000000000000⟩),
    .push (.text ""), .push (.bool true), .drop, .loadArg 65535, .loadLocal 127, .storeLocal 128,
    .callSupport 16383 16384, .callHost 0 65535, .escape 4294967295 "\u0000" ["x", "日本"],
    .getVariable "a", .setVariable "", .jump (-2147483648), .jumpIfFalse 2147483647,
    .jumpIfTrue (-1), .countdown 65535 (-64), .yield .soft, .yield .frame, .yield .blocking,
    .checkDeadline 1 4294967295, .startTimer, .waitTimer, .callProcedure 65535 0, .ret]
  support := ["number.add"]
  host := ["", "looks_say"]
  procedures := [⟨"walk %s", Shape.all, true⟩, ⟨"", [], false⟩]
  locals := 65535
  arity := 65535
  warp := true

theorem fitsWire_sampler : sampler.FitsWire := by
  simp only [sampler, FitsWire, ListFits, TextFits, Instr.FitsWire, Value.FitsWire,
    VariantKey.FitsWire, List.forall_mem_cons, List.not_mem_nil, false_imp_iff, imp_true_iff,
    true_and, and_true]
  decide

/-- The images that are written like the sampler, with other bytes after it, are the sampler. -/
theorem roundTrip_encode_sampler :
    sampler.FitsWire ∧ decode (sampler.encode ++ [255, 0, 128]) = .ok sampler
      ∧ (∀ j : Image, j.encode = sampler.encode → j = sampler)
      ∧ ∀ c, load "sampler" sampler.encode c = sampler.link c := by
  obtain ⟨hread, htold, hload⟩ := roundTrip_encode sampler fitsWire_sampler
  refine ⟨fitsWire_sampler, (hread _).2, fun j h => (htold j [] [] ?_).1, fun c => ?_⟩
  · rw [h]
  · rw [← hload "sampler" [] c, List.append_nil]

end Image

end BlockScript
