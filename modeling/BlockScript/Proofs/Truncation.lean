import BlockScript.Proofs.Codec

/-!
# Bytes that end too early

A reader goes through its bytes from the front and looks at none that it does not take. So what it
has taken, it takes again if more bytes come after; and if it has given up for another reason than
that the bytes have ended, it gives up again for that reason. `Reader.Streams` says both, and goes
through the parts of a format one after the other (`Reader.Streams.bind`).

A cut may fall anywhere: into a group of a number, into a character, between a length and what it
counts, or between two parts. None of these places plays a part in the proof. If a reader took
something from the beginning of what was written, it would take the same from the whole and leave
some of it, but it leaves nothing (`Reader.Streams.error_of_truncated`).

Main statement: from the bytes of an image, cut off anywhere, nothing is read and nothing is loaded
(`Image.undecodable_of_truncated`).
-/

namespace BlockScript

namespace Reader

variable {α β : Type}

/-- The reader looks only at the bytes that it takes: more bytes after them change neither what it
takes nor why it gives up, unless it gives up because the bytes have ended. -/
structure Streams (r : Reader α) : Prop where
  ok : ∀ {bytes rest : List UInt8} {a : α} (more : List UInt8), r bytes = .ok (a, rest) →
    r (bytes ++ more) = .ok (a, rest ++ more)
  error : ∀ {bytes : List UInt8} {e : WireError} (more : List UInt8), r bytes = .error e →
    e ≠ .unexpectedEnd → r (bytes ++ more) = .error e

/-- **What was written and then cut off is not read**: the reader gives up, and if what was written
fits it gives up because the bytes have ended. -/
theorem Streams.error_of_truncated {r : Reader α} {write : α → List UInt8} {Fits : α → Prop}
    (hr : r.Streams) (hcodes : r.Codes write Fits) {a : α} {bytes : List UInt8}
    (hbegins : bytes <+: write a) (hshort : bytes ≠ write a) :
    ∃ e, r bytes = .error e ∧ (Fits a → e = .unexpectedEnd) := by
  obtain ⟨more, hmore⟩ := hbegins
  have hwhole := hcodes a []
  rw [List.append_nil, ← hmore] at hwhole
  cases hread : r bytes with
  | ok taken =>
    obtain ⟨b, rest⟩ := taken
    have htaken := hr.ok more hread
    by_cases hfits : Fits a
    · -- the whole would leave what was cut off
      rw [hwhole.ok hfits] at htaken
      simp only [Except.ok.injEq, Prod.mk.injEq, List.nil_eq_append_iff] at htaken
      rw [htaken.2.2, List.append_nil] at hmore
      exact absurd hmore hshort
    · obtain ⟨e, he⟩ := hwhole.error hfits
      rw [he] at htaken
      cases htaken
  | error e =>
    refine ⟨e, rfl, fun hfits => ?_⟩
    by_cases he : e = .unexpectedEnd
    · exact he
    · have hfailed := hr.error more hread he
      rw [hwhole.ok hfits] at hfailed
      cases hfailed

namespace Streams

variable {r : Reader α} {f : α → Reader β}

protected theorem pure (a : α) : (pure a : Reader α).Streams where
  ok := by
    intro bytes rest b more h
    cases h
    rfl
  error := by
    intro bytes e more h
    cases h

protected theorem fail (e : WireError) : (fail e : Reader α).Streams where
  ok := by
    intro bytes rest a more h
    cases h
  error := by
    intro bytes e' more h _
    cases h
    rfl

/-- One part after another. -/
protected theorem bind (hr : r.Streams) (hf : ∀ a, (f a).Streams) : (r >>= f).Streams := by
  have hbind : ∀ bytes, (r >>= f) bytes = andThen r f bytes := fun _ => rfl
  constructor
  · intro bytes rest b more h
    rw [hbind, andThen] at h ⊢
    cases hread : r bytes with
    | error e =>
      rw [hread] at h
      cases h
    | ok taken =>
      rw [hread] at h
      rw [hr.ok more hread]
      exact (hf taken.1).ok more h
  · intro bytes e more h he
    rw [hbind, andThen] at h ⊢
    cases hread : r bytes with
    | error e' =>
      rw [hread] at h
      cases h
      rw [hr.error more hread he]
    | ok taken =>
      rw [hread] at h
      rw [hr.ok more hread]
      exact (hf taken.1).error more h he

/-- The last part. -/
theorem map (hr : r.Streams) (g : α → β) : (r >>= fun a => (pure (g a) : Reader β)).Streams :=
  hr.bind fun a => .pure (g a)

end Streams

/-! ## The parts of the format -/

theorem streams_byte : byte.Streams where
  ok := by
    intro bytes rest b more h
    cases bytes with
    | nil => cases h
    | cons b' bytes =>
      cases h
      rfl
  error := by
    intro bytes e more h he
    cases bytes with
    | nil =>
      cases h
      exact absurd rfl he
    | cons b bytes => cases h

theorem streams_varint (lastMax : Nat) : ∀ groups : Nat, (varint lastMax groups).Streams
  | 0 => .fail .badVarint
  | groups + 1 => by
    refine streams_byte.bind fun b => ?_
    split
    · split
      · exact .fail .badVarint
      · exact .pure b.toNat
    · exact (streams_varint lastMax groups).map fun high => b.toNat - 128 + 128 * high

theorem streams_uint16 : uint16.Streams := (streams_varint 3 3).map UInt16.ofNat

theorem streams_uint32 : uint32.Streams := (streams_varint 15 5).map UInt32.ofNat

theorem streams_int32 : int32.Streams := (streams_varint 15 5).map _

theorem streams_length : length.Streams := streams_varint 1 10

theorem streams_choice : choice.Streams := streams_varint 15 5

theorem streams_bool : bool.Streams := by
  refine streams_byte.bind fun b => ?_
  split
  · exact .pure false
  · split
    · exact .pure true
    · exact .fail .badBool

theorem Streams.many {r : Reader α} (hr : r.Streams) : ∀ n : Nat, (r.many n).Streams
  | 0 => .pure []
  | n + 1 => hr.bind fun a => (hr.many n).map (a :: ·)

theorem Streams.list {r : Reader α} (hr : r.Streams) : r.list.Streams := streams_length.bind hr.many

theorem streams_bytes (n : Nat) : (bytes n).Streams := streams_byte.many n

theorem streams_text : text.Streams := by
  refine streams_length.bind fun n => (streams_bytes n).bind fun bs => ?_
  split
  · exact .pure _
  · exact .fail .badText

theorem streams_word : word.Streams := (streams_bytes 8).map _

/-! ## Images -/

theorem streams_value : value.Streams := by
  refine streams_choice.bind fun index => ?_
  split
  · exact streams_word.map fun w => Value.number ⟨w⟩
  · exact streams_text.map Value.text
  · exact streams_bool.map Value.bool
  · exact .fail .badVariant

theorem streams_shape : shape.Streams := by
  refine streams_choice.bind fun index => ?_
  split
  · exact .pure _
  · exact .fail .badVariant

theorem streams_yieldKind : yieldKind.Streams := by
  refine streams_choice.bind fun index => ?_
  split
  · exact .pure _
  · exact .pure _
  · exact .pure _
  · exact .fail .badVariant

theorem streams_key : key.Streams :=
  streams_text.bind fun _ => streams_shape.list.bind fun _ => streams_bool.map _

/-- Two indices of an instruction. -/
theorem streams_indices (make : UInt16 → UInt16 → Instr) :
    (do
      let i ← uint16
      let argc ← uint16
      return make i argc : Reader Instr).Streams :=
  streams_uint16.bind fun i => streams_uint16.map (make i)

theorem streams_instrContents (index : Nat) : (instrContents index).Streams := by
  unfold instrContents
  split
  · exact streams_value.map Instr.push
  · exact .pure _
  · exact streams_uint16.map Instr.loadArg
  · exact streams_uint16.map Instr.loadLocal
  · exact streams_uint16.map Instr.storeLocal
  · exact streams_indices Instr.callSupport
  · exact streams_indices Instr.callHost
  · exact streams_uint32.bind fun block => streams_text.bind fun opcode =>
      streams_text.list.map (Instr.escape block opcode)
  · exact streams_text.map Instr.getVariable
  · exact streams_text.map Instr.setVariable
  · exact streams_int32.map Instr.jump
  · exact streams_int32.map Instr.jumpIfFalse
  · exact streams_int32.map Instr.jumpIfTrue
  · exact streams_uint16.bind fun counter => streams_int32.map (Instr.countdown counter)
  · exact streams_yieldKind.map Instr.yield
  · exact streams_uint16.bind fun counter => streams_uint32.map (Instr.checkDeadline counter)
  · exact .pure _
  · exact .pure _
  · exact streams_indices Instr.callProcedure
  · exact .pure _
  · exact .fail .badVariant

theorem streams_instr : instr.Streams := streams_choice.bind streams_instrContents

/-- **An image is read from the front on.** -/
theorem streams_image : image.Streams :=
  streams_text.bind fun _ => streams_instr.list.bind fun _ => streams_text.list.bind fun _ =>
    streams_text.list.bind fun _ => streams_key.list.bind fun _ => streams_uint16.bind fun _ =>
      streams_uint16.bind fun _ => streams_bool.map _

end Reader

namespace Image

/--
**An image that was cut off is never loaded.**

Take the bytes of any image, and cut them off anywhere before their end. Nothing can be read from
what is left, neither the image nor another one, and whoever loads it is told so, under the name
that the bytes came with and whatever the capabilities. If the lengths in the image are 64-bit
numbers, as lengths in a memory are, the reason is always that the bytes have ended.
-/
theorem undecodable_of_truncated (i : Image) {bytes : List UInt8} (hbegins : bytes <+: i.encode)
    (hshort : bytes ≠ i.encode) :
    ∃ e, decode bytes = .error e ∧ (i.FitsWire → e = .unexpectedEnd)
      ∧ ∀ name c, load name bytes c = .error (.undecodable name e) := by
  obtain ⟨e, hread, hend⟩ :=
    Reader.streams_image.error_of_truncated Reader.codes_image hbegins hshort
  have hdecode : decode bytes = .error e := by
    rw [decode, hread]
    rfl
  refine ⟨e, hdecode, hend, fun name c => ?_⟩
  rw [load, hdecode]

/-- The bytes of the sampler, cut off in the middle of a character of its name, and before their
last byte. -/
theorem undecodable_of_truncated_sampler :
    sampler.encode.take 2 = [11, 197] ∧ decode [11, 197] = .error .unexpectedEnd
      ∧ ∀ c, load "sampler" sampler.encode.dropLast c
        = .error (.undecodable "sampler" .unexpectedEnd) := by
  have htake : sampler.encode.take 2 = [11, 197] := by decide +kernel
  have hbegins : sampler.encode.take 2 <+: sampler.encode := List.take_prefix 2 _
  have hbegins' : sampler.encode.dropLast <+: sampler.encode := List.dropLast_prefix _
  obtain ⟨e, hcut, hend, -⟩ := undecodable_of_truncated sampler hbegins (by decide +kernel)
  obtain ⟨e', -, hend', hlast⟩ := undecodable_of_truncated sampler hbegins' (by decide +kernel)
  rw [htake, hend fitsWire_sampler] at hcut
  refine ⟨htake, hcut, fun c => ?_⟩
  rw [hlast, hend' fitsWire_sampler]

end Image

end BlockScript
