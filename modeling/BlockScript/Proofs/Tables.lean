import BlockScript.Proofs.Lowering
import Mathlib.Data.List.Nodup
import Mathlib.Algebra.Group.Nat.Defs

/-!
# Tables by variant and the count of variants

Keys that compare as equal are equal, so a table finds under a key what was put there last. A key
names one of finitely many variants of a target (`Target.variantKeys`), of which there are as many
as `Target.variantBound` says.
-/

namespace BlockScript

/-! ## The order of keys -/

theorem Text.eq_of_compare : ∀ {as bs : List Char}, Text.compare as bs = .eq → as = bs
  | [], [], _ => rfl
  | [], _ :: _, h => by cases h
  | _ :: _, [], h => by cases h
  | a :: as, b :: bs, h => by
    rw [Text.compare] at h
    split at h
    · cases h
    · split at h
      · cases h
      · have hab : a.toNat = b.toNat := by omega
        rw [Char.toNat_inj.mp hab, eq_of_compare h]

theorem Shape.rank_injective : Function.Injective Shape.rank := by
  intro a b h
  cases a <;> cases b <;> first | rfl | cases h

namespace VariantKey

theorem eq_of_compareSignatures :
    ∀ {ss ts : List Shape}, compareSignatures ss ts = .eq → ss = ts
  | [], [], _ => rfl
  | [], _ :: _, h => by cases h
  | _ :: _, [], h => by cases h
  | s :: ss, t :: ts, h => by
    rw [compareSignatures, Ordering.then_eq_eq] at h
    rw [Shape.rank_injective (Nat.compare_eq_eq.mp h.1), eq_of_compareSignatures h.2]

/-- Keys that compare as equal are equal. -/
theorem eq_of_compare {a b : VariantKey} (h : a.compare b = .eq) : a = b := by
  obtain ⟨pa, sa, wa⟩ := a
  obtain ⟨pb, sb, wb⟩ := b
  simp only [compare, Ordering.then_eq_eq] at h
  obtain ⟨hp, hs, hw⟩ := h
  have hp' : pa = pb := String.toList_inj.mp (Text.eq_of_compare hp)
  have hw' : wa = wb := by cases wa <;> cases wb <;> simp_all
  rw [hp', eq_of_compareSignatures hs, hw']

end VariantKey

/-! ## Tables -/

namespace VariantTable

variable {α : Type} {t : VariantTable α} {k : VariantKey} {a : α}

theorem perm_insertEntry :
    ∀ {es : List (VariantKey × α)}, k ∉ es.map Prod.fst → (insertEntry k a es).Perm ((k, a) :: es)
  | [], _ => List.Perm.refl _
  | (l, b) :: rest, h => by
    rw [List.map_cons, List.mem_cons, not_or] at h
    rw [insertEntry]
    split
    · exact List.Perm.refl _
    · next heq => exact absurd (VariantKey.eq_of_compare heq) h.1
    · exact ((perm_insertEntry h.2).cons _).trans (List.Perm.swap _ _ _)

/-- A new key is put beside the entries that are there. -/
theorem perm_insert (h : k ∉ t.keys) : (t.insert k a).entries.Perm ((k, a) :: t.entries) :=
  perm_insertEntry h

theorem perm_keys_insert (h : k ∉ t.keys) : (t.insert k a).keys.Perm (k :: t.keys) :=
  (perm_insert h).map Prod.fst

theorem mem_keys_iff : k ∈ t.keys ↔ ∃ a, (k, a) ∈ t.entries := by
  simp [keys]

theorem mem_values_iff : a ∈ t.values ↔ ∃ k, (k, a) ∈ t.entries := by
  simp [values]

theorem mem_of_find? (h : t.find? k = some a) : (k, a) ∈ t.entries := mem_of_lookup h

theorem isSome_find?_iff : (t.find? k).isSome ↔ k ∈ t.keys := by
  simp [find?, keys]

/-- A table with no key twice finds each of its entries. -/
theorem find?_eq_some_iff (h : t.keys.Nodup) : t.find? k = some a ↔ (k, a) ∈ t.entries := by
  refine ⟨mem_of_find?, fun hmem => ?_⟩
  obtain ⟨b, hb⟩ := Option.isSome_iff_exists.mp (isSome_find?_iff.mpr (mem_keys_iff.mpr ⟨a, hmem⟩))
  have hpair : (k, b) = (k, a) := List.inj_on_of_nodup_map h (mem_of_find? hb) hmem rfl
  rw [hb, (Prod.mk.inj hpair).2]

end VariantTable

/-! ## Tables that go together -/

theorem exists_mem_of_forall₂ {α β : Type} {R : α → β → Prop} {as : List α} {bs : List β}
    (h : List.Forall₂ R as bs) {b : β} (hb : b ∈ bs) : ∃ a ∈ as, R a b := by
  induction h with
  | nil => cases hb
  | cons hab _ ih =>
    rcases List.mem_cons.mp hb with rfl | hb
    · exact ⟨_, List.mem_cons_self, hab⟩
    · obtain ⟨a, ha, hab⟩ := ih hb
      exact ⟨a, List.mem_cons_of_mem _ ha, hab⟩

namespace VariantTable

variable {α β : Type} {R : VariantKey → α → β → Prop} {t : VariantTable α} {u : VariantTable β}
  {k : VariantKey}

/-- Tables whose entries go together by their keys have the same keys. -/
theorem keys_eq_of_forall₂ (h : List.Forall₂ (fun e v => e.1 = v.1) t.entries u.entries) :
    t.keys = u.keys := by
  unfold keys
  generalize t.entries = es at h
  generalize u.entries = vs at h
  induction h with
  | nil => rfl
  | cons hev _ ih => rw [List.map_cons, List.map_cons, hev, ih]

/-- In tables with the same keys in the same order the same keys are found. -/
theorem find?_rel (h : List.Forall₂ (fun e v => e.1 = v.1 ∧ R e.1 e.2 v.2) t.entries u.entries)
    (k : VariantKey) : Option.Rel (R k) (t.find? k) (u.find? k) := by
  unfold find?
  generalize t.entries = es at h
  generalize u.entries = vs at h
  induction h with
  | nil => exact .none
  | @cons e v es vs hev _ ih =>
    obtain ⟨key, a⟩ := e
    obtain ⟨key', b⟩ := v
    obtain ⟨rfl, hab⟩ := hev
    rw [List.lookup_cons, List.lookup_cons]
    cases hkey : k == key with
    | true =>
      rw [eq_of_beq hkey]
      exact .some hab
    | false => exact ih

theorem exists_find?_right
    (h : List.Forall₂ (fun e v => e.1 = v.1 ∧ R e.1 e.2 v.2) t.entries u.entries) {a : α}
    (ha : t.find? k = some a) : ∃ b, u.find? k = some b ∧ R k a b := by
  have hrel := find?_rel h k
  rw [ha] at hrel
  generalize u.find? k = found at hrel
  cases hrel with
  | some hab => exact ⟨_, rfl, hab⟩

theorem exists_find?_left
    (h : List.Forall₂ (fun e v => e.1 = v.1 ∧ R e.1 e.2 v.2) t.entries u.entries) {b : β}
    (hb : u.find? k = some b) : ∃ a, t.find? k = some a ∧ R k a b := by
  have hrel := find?_rel h k
  rw [hb] at hrel
  generalize t.find? k = found at hrel
  cases hrel with
  | some hab => exact ⟨_, rfl, hab⟩

/-- Two tables with the same keys go together, and have the same contents wherever they find the
same. -/
theorem forall₂_of_keys_eq {t u : VariantTable α} (hkeys : t.keys = u.keys)
    (hnodup : u.keys.Nodup) :
    List.Forall₂ (fun e v => e.1 = v.1 ∧ (t.find? v.1 = u.find? v.1 → e.2 = v.2))
      t.entries u.entries := by
  have hpairs : List.Forall₂ (fun e v => e.1 = v.1) t.entries u.entries := by
    have hsame : List.Forall₂ Eq t.keys u.keys := by
      rw [List.forall₂_eq_eq_eq]
      exact hkeys
    rwa [keys, keys, List.forall₂_map_left_iff, List.forall₂_map_right_iff] at hsame
  rw [List.forall₂_iff_zip] at hpairs ⊢
  refine ⟨hpairs.1, fun {e v} hmem => ⟨hpairs.2 hmem, fun hfind => ?_⟩⟩
  obtain ⟨he, hv⟩ := List.of_mem_zip hmem
  rw [(find?_eq_some_iff hnodup).mpr hv, ← hpairs.2 hmem,
    (find?_eq_some_iff (hkeys ▸ hnodup)).mpr he] at hfind
  exact Option.some.inj hfind

end VariantTable

/-! ## How many variants there are -/

namespace Target

/-- The canonical signatures of a length. -/
def signatures : Nat → List (List Shape)
  | 0 => [[]]
  | n + 1 => [Shape.boolean, .numberOrText, .unknown].flatMap fun s => (signatures n).map (s :: ·)

theorem length_signatures (n : Nat) : (signatures n).length = 3 ^ n := by
  induction n with
  | zero => rfl
  | succ n ih =>
    simp only [signatures, List.flatMap_cons, List.flatMap_nil, List.length_append,
      List.length_map, List.length_nil, ih]
    omega

theorem mem_signatures : ∀ {sig : List Shape}, (∀ s ∈ sig, s.widen = s) →
    sig ∈ signatures sig.length
  | [], _ => List.mem_singleton.mpr rfl
  | s :: sig, h => by
    have hs : s ∈ [Shape.boolean, .numberOrText, .unknown] := by
      have hw := h s List.mem_cons_self
      cases s <;> simp_all [Shape.widen]
    have hrest := mem_signatures fun s' hs' => h s' (List.mem_cons_of_mem _ hs')
    exact List.mem_flatMap.mpr ⟨s, hs, List.mem_map.mpr ⟨sig, hrest, rfl⟩⟩

/-- The keys of all variants that the procedures of a target can have. -/
def variantKeys (t : Target) : List VariantKey :=
  t.procedures.flatMap fun d => [false, true].flatMap fun warp =>
    (signatures d.params.length).map fun sig => ⟨d.proccode, sig, warp⟩

theorem length_variantKeys (t : Target) : t.variantKeys.length = t.variantBound := by
  unfold variantKeys variantBound
  rw [List.length_flatMap, List.sum_eq_foldr]
  congr 1
  refine List.map_congr_left fun d _ => ?_
  simp [length_signatures]
  omega

theorem mem_variantKeys {t : Target} {k : VariantKey} {d : Procedure} (h : k.Names t d) :
    k ∈ t.variantKeys := by
  have hd : d ∈ t.procedures := List.mem_of_find?_eq_some h.defined
  have hcode : d.proccode = k.proccode := proccode_of_procedure? h.defined
  have hsig : k.signature ∈ signatures d.params.length := by
    rw [← h.arity]
    exact mem_signatures h.canonical
  refine List.mem_flatMap.mpr ⟨d, hd, List.mem_flatMap.mpr ⟨k.warp, by cases k.warp <;> simp, ?_⟩⟩
  exact List.mem_map.mpr ⟨k.signature, hsig, by rw [hcode]⟩

end Target

end BlockScript
