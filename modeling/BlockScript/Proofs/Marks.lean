import BlockScript.Proofs.Shapes
import BlockScript.Proofs.Warp

/-!
# Code with and without the deadline

A loop in warp looks at the deadline after a round, if the settings say so. The instructions for
this and the local slots in which such loops count come on top of the code that is the same with all
settings. `Stmt.marks` says which instructions those are, and `Stmt.slotMarks` which slots; so each
position of the code has one in the code without them, the number of common instructions before it
(`Mark.rank`).

Main statement: in the code of statements each instruction is one for the deadline, or the
instruction at the corresponding position of the code without them is the same, apart from the
numbers of local slots and the offsets of jumps, which lead to corresponding positions
(`Stmt.aligned_allCode`).
-/

namespace BlockScript

/-! ## Marks -/

/-- What a position of code or a local slot is there for. -/
inductive Mark where
  /-- It is there with all settings. -/
  | common
  /-- It is there for the deadline. -/
  | extra
  /-- It is there for the deadline, and the stack has one value more because of it. -/
  | laden
deriving DecidableEq

namespace Mark

variable {m : List Mark} {a n k : Nat}

/-- The number of common places before a place. -/
def rank (m : List Mark) (n : Nat) : Nat := (m.take n).count .common

theorem rank_succ (h : m[n]? = some .common) : rank m (n + 1) = rank m n + 1 := by
  rw [rank, rank, List.take_add_one, h, List.count_append]
  rfl

theorem rank_succ_of_ne (h : m[n]? ≠ some .common) : rank m (n + 1) = rank m n := by
  rw [rank, rank, List.take_add_one, List.count_append]
  cases hn : m[n]? with
  | none => rfl
  | some mark =>
    rw [Option.toList_some, List.count_singleton, if_neg, Nat.add_zero]
    rw [beq_iff_eq]
    rintro rfl
    exact h hn

theorem rank_le (m : List Mark) (n : Nat) : rank m n ≤ n :=
  Nat.le_trans List.count_le_length (List.length_take_le n m)

theorem rank_mono (h : n ≤ k) : rank m n ≤ rank m k :=
  (List.take_sublist_take_left h).count_le _

theorem rank_add_le (m : List Mark) (n k : Nat) : rank m (n + k) ≤ rank m n + k := by
  rw [rank, rank, List.take_add, List.count_append]
  exact Nat.add_le_add_left (Nat.le_trans List.count_le_length (List.length_take_le k _)) _

theorem rank_lt_count (h : m[n]? = some .common) : rank m n < m.count .common := by
  have hle : rank m (n + 1) ≤ m.count .common := (List.take_sublist (n + 1) m).count_le _
  rw [rank_succ h] at hle
  exact hle

/-- Common places of the same rank are the same. -/
theorem rank_injective (hn : m[n]? = some .common) (hk : m[k]? = some .common)
    (h : rank m n = rank m k) : n = k := by
  have hlt : ∀ {n k}, m[n]? = some .common → n < k → rank m n < rank m k := fun hn hlt =>
    Nat.lt_of_lt_of_le (by rw [rank_succ hn]; exact Nat.lt_succ_self _) (rank_mono hlt)
  rcases Nat.lt_trichotomy n k with hnk | rfl | hkn
  · exact absurd h (Nat.ne_of_lt (hlt hn hnk))
  · rfl
  · exact absurd h.symm (Nat.ne_of_lt (hlt hk hkn))

/-- The place is a common one, of the rank `k`. -/
def Ranks (m : List Mark) (n k : Nat) : Prop := m[n]? = some .common ∧ rank m n = k

/-- The marks from a place on begin with the piece. -/
def At (m : List Mark) (a : Nat) (piece : List Mark) : Prop := piece <+: m.drop a

namespace At

variable {piece piece' : List Mark} {mark : Mark}

theorem left (h : At m a (piece ++ piece')) : At m a piece := (List.prefix_append _ _).trans h

theorem right (h : At m a (piece ++ piece')) : At m (a + piece.length) piece' := by
  obtain ⟨after, hafter⟩ := h
  refine ⟨after, ?_⟩
  rw [← List.drop_drop, ← hafter, List.append_assoc, List.drop_left]

theorem head (h : At m a (mark :: piece)) : m[a]? = some mark := by
  obtain ⟨after, hafter⟩ := h
  rw [← Nat.add_zero a, ← List.getElem?_drop, ← hafter]
  rfl

theorem tail (h : At m a (mark :: piece)) : At m (a + 1) piece := by
  have hright : At m a ([mark] ++ piece) := h
  exact hright.right

/-- The rank at the end of a piece. -/
theorem rank (h : At m a piece) : rank m (a + piece.length) = rank m a + piece.count .common := by
  obtain ⟨after, hafter⟩ := h
  rw [Mark.rank, Mark.rank, List.take_add, List.count_append, ← hafter, List.take_left]

theorem getElem?_of_lt (h : At m a (List.replicate k .common)) (hn : n < k) :
    m[a + n]? = some .common := by
  obtain ⟨after, hafter⟩ := h
  rw [← List.getElem?_drop, ← hafter,
    List.getElem?_append_left (by rw [List.length_replicate]; exact hn),
    List.getElem?_replicate_of_lt hn]

/-- Ranks go along with common places. -/
theorem rank_of_le (h : At m a (List.replicate k .common)) (hn : n ≤ k) :
    Mark.rank m (a + n) = Mark.rank m a + n := by
  have hpiece : At m a (List.replicate n .common) := by
    rw [← Nat.add_sub_cancel' hn, List.replicate_add] at h
    exact h.left
  have hrank := hpiece.rank
  rwa [List.length_replicate, List.count_replicate_self] at hrank

end At

end Mark

/-! ## Which instructions and slots are for the deadline -/

/-- The settings without the deadline. -/
def CodeSettings.plain (s : CodeSettings) : CodeSettings := { s with timer := false }

theorem CodeSettings.deadlineSlots_plain (s : CodeSettings) (warpSafe : Bool) :
    s.plain.deadlineSlots warpSafe = 0 := by
  simp [deadlineSlots, checksDeadline, plain]

theorem CodeSettings.runsWarp_plain (s : CodeSettings) (warpSafe : Bool) :
    s.plain.runsWarp warpSafe = s.runsWarp warpSafe := rfl

namespace Stmt

/-- The marks of what a loop does before its first round for the deadline. -/
def startMarks (s : CodeSettings) (warpSafe : Bool) : List Mark :=
  if s.checksDeadline warpSafe then [.extra, .laden] else []

/-- The marks of what a loop does after each round. -/
def roundEndMarks (s : CodeSettings) (warpSafe : Bool) : List Mark :=
  if s.runsWarp warpSafe then if s.timer then [.extra] else [] else [.common]

mutual

/-- The marks of the code of a statement. -/
def marks (s : CodeSettings) : Stmt → List Mark
  | .branch c yes no =>
    List.replicate (c.conditionSize + 1) .common ++ allMarks s yes
      ++ if no.isEmpty then [] else .common :: allMarks s no
  | .loop kind body warpSafe _ =>
    List.replicate kind.countSize .common ++ startMarks s warpSafe
      ++ List.replicate kind.testSize .common ++ allMarks s body
      ++ roundEndMarks s warpSafe ++ [.common]
  | t => List.replicate (size s t) .common

/-- The marks of the code of statements. -/
def allMarks (s : CodeSettings) : List Stmt → List Mark
  | [] => []
  | t :: ts => marks s t ++ allMarks s ts

end

mutual

/-- The marks of the local slots of a statement. -/
def slotMarks (s : CodeSettings) : Stmt → List Mark
  | .branch _ yes no => allSlotMarks s yes ++ allSlotMarks s no
  | .loop kind body warpSafe _ =>
    List.replicate kind.slots .common ++ List.replicate (s.deadlineSlots warpSafe) .extra
      ++ allSlotMarks s body
  | _ => []

/-- The marks of the local slots of statements. -/
def allSlotMarks (s : CodeSettings) : List Stmt → List Mark
  | [] => []
  | t :: ts => slotMarks s t ++ allSlotMarks s ts

end

variable (s : CodeSettings)

theorem length_startMarks (warpSafe : Bool) :
    (startMarks s warpSafe).length = 2 * s.deadlineSlots warpSafe := by
  unfold startMarks CodeSettings.deadlineSlots
  split <;> rfl

theorem length_roundEndMarks (warpSafe : Bool) :
    (roundEndMarks s warpSafe).length = s.roundEndSize warpSafe := by
  unfold roundEndMarks CodeSettings.roundEndSize
  split
  · split <;> rfl
  · rfl

theorem count_startMarks (warpSafe : Bool) : (startMarks s warpSafe).count .common = 0 := by
  unfold startMarks
  split <;> rfl

theorem count_roundEndMarks (warpSafe : Bool) :
    (roundEndMarks s warpSafe).count .common = s.plain.roundEndSize warpSafe := by
  rw [roundEndMarks, CodeSettings.roundEndSize, s.runsWarp_plain]
  split
  · simp only [CodeSettings.plain, Bool.false_eq_true, if_false]
    split <;> rfl
  · rfl

mutual

theorem length_marks : ∀ t : Stmt, (marks s t).length = size s t
  | .branch c yes no => by
    rw [marks, size, List.length_append, List.length_append, List.length_replicate,
      length_allMarks yes]
    cases no.isEmpty with
    | true => rfl
    | false =>
      simp only [Bool.false_eq_true, if_false, List.length_cons, length_allMarks no]
      omega
  | .loop kind body warpSafe interval => by
    simp only [marks, size, List.length_append, List.length_replicate, length_startMarks,
      length_allMarks body, length_roundEndMarks, List.length_singleton]
    omega
  | .call _ _ _ | .set _ _ | .change _ _ | .wait _ | .host _ _ | .done | .escape _ _ _ => by
    rw [marks, List.length_replicate]
    all_goals simp

theorem length_allMarks : ∀ ts : List Stmt, (allMarks s ts).length = allSize s ts
  | [] => rfl
  | t :: ts => by rw [allMarks, allSize, List.length_append, length_marks t, length_allMarks ts]

end

mutual

/-- The common instructions are those of the code without the deadline. -/
theorem count_marks : ∀ t : Stmt, (marks s t).count .common = size s.plain t
  | .branch c yes no => by
    rw [marks, size, List.count_append, List.count_append, List.count_replicate_self,
      count_allMarks yes]
    cases no.isEmpty with
    | true => rfl
    | false =>
      simp only [Bool.false_eq_true, if_false, List.count_cons_self, count_allMarks no]
      omega
  | .loop kind body warpSafe interval => by
    simp only [marks, size, List.count_append, List.count_replicate_self, count_startMarks,
      count_allMarks body, count_roundEndMarks, List.count_singleton_self, s.deadlineSlots_plain]
    omega
  | .call _ _ _ | .set _ _ | .change _ _ | .wait _ | .host _ _ | .done | .escape _ _ _ => by
    rw [marks, List.count_replicate_self, size, size]
    all_goals simp

theorem count_allMarks : ∀ ts : List Stmt, (allMarks s ts).count .common = allSize s.plain ts
  | [] => rfl
  | t :: ts => by rw [allMarks, allSize, List.count_append, count_marks t, count_allMarks ts]

end

mutual

theorem length_slotMarks : ∀ t : Stmt, (slotMarks s t).length = slots s t
  | .branch c yes no => by
    rw [slotMarks, slots, List.length_append, length_allSlotMarks yes, length_allSlotMarks no]
  | .loop kind body warpSafe interval => by
    rw [slotMarks, slots, List.length_append, List.length_append, List.length_replicate,
      List.length_replicate, length_allSlotMarks body]
  | .call _ _ _ | .set _ _ | .change _ _ | .wait _ | .host _ _ | .done | .escape _ _ _ => by
    rw [slotMarks, slots, List.length_nil]
    all_goals simp

theorem length_allSlotMarks : ∀ ts : List Stmt, (allSlotMarks s ts).length = allSlots s ts
  | [] => rfl
  | t :: ts => by
    rw [allSlotMarks, allSlots, List.length_append, length_slotMarks t, length_allSlotMarks ts]

end

mutual

/-- The common slots are those of the code without the deadline. -/
theorem count_slotMarks : ∀ t : Stmt, (slotMarks s t).count .common = slots s.plain t
  | .branch c yes no => by
    rw [slotMarks, slots, List.count_append, count_allSlotMarks yes, count_allSlotMarks no]
  | .loop kind body warpSafe interval => by
    have hextra : (List.replicate (s.deadlineSlots warpSafe) Mark.extra).count .common = 0 := by
      simp [List.count_replicate]
    rw [slotMarks, slots, List.count_append, List.count_append, List.count_replicate_self, hextra,
      count_allSlotMarks body, s.deadlineSlots_plain]
  | .call _ _ _ | .set _ _ | .change _ _ | .wait _ | .host _ _ | .done | .escape _ _ _ => by
    rw [slotMarks, slots, List.count_nil]
    all_goals simp

theorem count_allSlotMarks :
    ∀ ts : List Stmt, (allSlotMarks s ts).count .common = allSlots s.plain ts
  | [] => rfl
  | t :: ts => by
    rw [allSlotMarks, allSlots, List.count_append, count_slotMarks t, count_allSlotMarks ts]

end

end Stmt

/-! ## The value that is stored before the first round -/

/-- Only after a place that is there for the deadline there is one value more on the stack. -/
def Mark.Orderly (m : List Mark) : Prop :=
  ∀ before after, m = before ++ .laden :: after → ∃ before', before = before' ++ [.extra]

namespace Mark

variable {m m' : List Mark}

theorem orderly_of_not_mem (h : .laden ∉ m) : Orderly m := by
  rintro before after rfl
  exact absurd (List.mem_append_right _ List.mem_cons_self) h

theorem Orderly.append (h : Orderly m) (h' : Orderly m') : Orderly (m ++ m') := by
  intro before after hsplit
  rcases List.append_eq_append_iff.mp hsplit with ⟨rest, rfl, hrest⟩ | ⟨rest, hm, hrest⟩
  · obtain ⟨before', rfl⟩ := h' rest after hrest
    exact ⟨m ++ before', by rw [List.append_assoc]⟩
  · cases rest with
    | nil =>
      obtain ⟨before', hnil⟩ := h' [] after hrest.symm
      exact absurd hnil (by simp)
    | cons mark rest =>
      obtain ⟨rfl, -⟩ := List.cons.inj hrest
      exact h before rest hm

/-- One place before such a place. -/
theorem Orderly.extra_of_laden (h : Orderly m) {n : Nat} (hn : m[n + 1]? = some .laden) :
    m[n]? = some .extra := by
  obtain ⟨hlt, hmark⟩ := List.getElem?_eq_some_iff.mp hn
  obtain ⟨before, hbefore⟩ := h (m.take (n + 1)) (m.drop (n + 2)) (by
    rw [← hmark, List.getElem_cons_drop, List.take_append_drop])
  have hlength : before.length = n := by
    have hlen := congrArg List.length hbefore
    rw [List.length_take, List.length_append, List.length_singleton] at hlen
    omega
  have htake : (m.take (n + 1))[n]? = some .extra := by
    rw [hbefore, ← hlength, List.getElem?_concat_length]
  rwa [List.getElem?_take_of_lt (Nat.lt_succ_self n)] at htake

end Mark

namespace Stmt

theorem orderly_startMarks (s : CodeSettings) (warpSafe : Bool) :
    Mark.Orderly (startMarks s warpSafe) := by
  unfold startMarks
  split
  · rintro (_ | ⟨mark, _ | ⟨mark', before⟩⟩) after hsplit
    · cases hsplit
    · cases hsplit
      exact ⟨[], rfl⟩
    · simp at hsplit
  · exact Mark.orderly_of_not_mem List.not_mem_nil

theorem orderly_roundEndMarks (s : CodeSettings) (warpSafe : Bool) :
    Mark.Orderly (roundEndMarks s warpSafe) := by
  refine Mark.orderly_of_not_mem ?_
  unfold roundEndMarks
  split
  · split <;> simp
  · simp

theorem orderly_replicate (n : Nat) : Mark.Orderly (List.replicate n .common) :=
  Mark.orderly_of_not_mem fun h => by cases List.eq_of_mem_replicate h

mutual

theorem orderly_marks (s : CodeSettings) : ∀ t : Stmt, Mark.Orderly (marks s t)
  | .branch c yes no => by
    rw [marks]
    refine ((orderly_replicate _).append (orderly_allMarks s yes)).append ?_
    cases no.isEmpty with
    | true => exact Mark.orderly_of_not_mem List.not_mem_nil
    | false => exact (orderly_replicate 1).append (orderly_allMarks s no)
  | .loop kind body warpSafe interval => by
    rw [marks]
    exact (((((orderly_replicate _).append (orderly_startMarks s warpSafe)).append
      (orderly_replicate _)).append (orderly_allMarks s body)).append
      (orderly_roundEndMarks s warpSafe)).append (orderly_replicate 1)
  | .call _ _ _ | .set _ _ | .change _ _ | .wait _ | .host _ _ | .done | .escape _ _ _ => by
    rw [marks]
    · exact orderly_replicate _
    all_goals simp

theorem orderly_allMarks (s : CodeSettings) : ∀ ts : List Stmt, Mark.Orderly (allMarks s ts)
  | [] => Mark.orderly_of_not_mem List.not_mem_nil
  | t :: ts => (orderly_marks s t).append (orderly_allMarks s ts)

end

end Stmt

/-! ## Corresponding instructions -/

namespace Instr

/-- The instruction neither jumps nor uses a local slot. -/
def isFixed : Instr → Bool
  | .jump _ | .jumpIfFalse _ | .jumpIfTrue _ | .countdown _ _ | .loadLocal _ | .storeLocal _
  | .checkDeadline _ _ => false
  | _ => true

theorem isFixed_of_computes {op : Instr} (h : op.computes = true) : op.isFixed = true := by
  cases op with
  | push | loadArg | callSupport | callHost | escape | getVariable => rfl
  | _ => cases h

/-- Jumps from position `pc`, and from the one that corresponds to it, lead to positions that
correspond to each other. -/
def LeadAlike (m : List Mark) (pc : Nat) (offset offset' : Int32) : Prop :=
  ∃ target : Nat, (pc : Int) + offset.toInt = target
    ∧ (Mark.rank m pc : Int) + offset'.toInt = Mark.rank m target

/-- The instruction at position `pc` corresponds to another one in the code without the deadline. -/
inductive Matches (m sm : List Mark) (pc : Nat) : Instr → Instr → Prop
  | same {op : Instr} (h : op.isFixed = true) : Matches m sm pc op op
  | store {i j : UInt16} (slot : Mark.Ranks sm i.toNat j.toNat) :
    Matches m sm pc (.storeLocal i) (.storeLocal j)
  | countdown {i j : UInt16} {offset offset' : Int32} (slot : Mark.Ranks sm i.toNat j.toNat)
    (lead : LeadAlike m pc offset offset') :
    Matches m sm pc (.countdown i offset) (.countdown j offset')
  | jump {offset offset' : Int32} (lead : LeadAlike m pc offset offset') :
    Matches m sm pc (.jump offset) (.jump offset')
  | jumpIfFalse {offset offset' : Int32} (lead : LeadAlike m pc offset offset') :
    Matches m sm pc (.jumpIfFalse offset) (.jumpIfFalse offset')
  | jumpIfTrue {offset offset' : Int32} (lead : LeadAlike m pc offset offset') :
    Matches m sm pc (.jumpIfTrue offset) (.jumpIfTrue offset')

/-- The instruction at position `pc` is what its mark says, beside the code without the deadline. -/
inductive Conforms (plain : List Instr) (m sm : List Mark) (pc : Nat) : Instr → Prop
  | common {op op' : Instr} (mark : m[pc]? = some .common)
    (hop' : plain[Mark.rank m pc]? = some op') (h : Matches m sm pc op op') :
    Conforms plain m sm pc op
  /-- Before its first round a loop stores a zero in its slot. -/
  | zero (mark : m[pc]? = some .extra) (next : m[pc + 1]? = some .laden) :
    Conforms plain m sm pc (.push (.number Number.zero))
  | store {i : UInt16} (mark : m[pc]? = some .laden) (slot : sm[i.toNat]? = some .extra) :
    Conforms plain m sm pc (.storeLocal i)
  | check {i : UInt16} {interval : UInt32} (mark : m[pc]? = some .extra)
    (slot : sm[i.toNat]? = some .extra) : Conforms plain m sm pc (.checkDeadline i interval)

end Instr

/-- From position `a` up to position `b` the instructions are what their marks say. -/
def Aligned (code plain : List Instr) (m sm : List Mark) (a b : Nat) : Prop :=
  ∀ pc (op : Instr), a ≤ pc → pc < b → code[pc]? = some op → op.Conforms plain m sm pc

namespace Aligned

variable {code plain : List Instr} {m sm : List Mark} {a b c : Nat} {op op' : Instr}

theorem refl : Aligned code plain m sm a a := fun _ _ ha hb => absurd ha (by omega)

theorem trans (h : Aligned code plain m sm a b) (h' : Aligned code plain m sm b c) :
    Aligned code plain m sm a c := by
  intro pc op ha hc hop
  rcases Nat.lt_or_ge pc b with hb | hb
  · exact h pc op ha hb hop
  · exact h' pc op hb hc hop

theorem one (hop : code[a]? = some op) (h : op.Conforms plain m sm a) :
    Aligned code plain m sm a (a + 1) := by
  intro pc op' ha hb hop'
  obtain rfl : pc = a := by omega
  cases hop.symm.trans hop'
  exact h

/-- One instruction that is there with all settings. -/
theorem common (hop : code[a]? = some op) (hmark : m[a]? = some .common)
    (hop' : plain[Mark.rank m a]? = some op') (h : op.Matches m sm a op') :
    Aligned code plain m sm a (a + 1) :=
  one hop (.common hmark hop' h)

/-- A piece of code that is the same with all settings. -/
theorem fixed {piece : List Instr} (hat : CodeAt code a piece)
    (hplain : CodeAt plain (Mark.rank m a) piece)
    (hm : Mark.At m a (List.replicate piece.length .common))
    (hfixed : ∀ op ∈ piece, op.isFixed = true) :
    Aligned code plain m sm a (a + piece.length) := by
  induction piece generalizing a with
  | nil => exact refl
  | cons op piece ih =>
    have hrank := Mark.rank_succ hm.head
    have hfirst : Aligned _ _ m sm a (a + 1) :=
      common hat.head hm.head hplain.head (.same (hfixed op List.mem_cons_self))
    have hrest := ih hat.tail (hrank ▸ hplain.tail) hm.tail
      fun op hop => hfixed op (List.mem_cons_of_mem _ hop)
    rw [List.length_cons, Nat.add_comm piece.length 1, ← Nat.add_assoc]
    exact hfirst.trans hrest

/-- Such a piece and an instruction that depends on the settings. -/
theorem snoc {piece : List Instr} (hat : CodeAt code a (piece ++ [op]))
    (hplain : CodeAt plain (Mark.rank m a) (piece ++ [op']))
    (hm : Mark.At m a (List.replicate (piece.length + 1) .common))
    (hfixed : ∀ op ∈ piece, op.isFixed = true) (h : op.Matches m sm (a + piece.length) op') :
    Aligned code plain m sm a (a + piece.length + 1) := by
  have hrank := hm.rank_of_le (Nat.le_add_right _ 1)
  have hmark := hm.getElem?_of_lt (Nat.lt_succ_self _)
  rw [List.replicate_add] at hm
  exact (fixed hat.left hplain.left hm.left hfixed).trans
    (common hat.right.head hmark (hrank ▸ hplain.right.head) h)

end Aligned

/-! ## Offsets -/

theorem Instr.leadAlike_forward {m : List Mark} {pc distance distance' : Nat} (target : Nat)
    (h : distance < 2147483648) (htarget : pc + distance = target)
    (hrank : Mark.rank m target = Mark.rank m pc + distance') :
    LeadAlike m pc (forward distance) (forward distance') := by
  have hle := Mark.rank_add_le m pc distance
  subst htarget
  rw [LeadAlike, toInt_forward h, toInt_forward (by omega)]
  exact ⟨pc + distance, by omega, by omega⟩

theorem Instr.leadAlike_backward {m : List Mark} {pc distance distance' : Nat} (target : Nat)
    (h : distance ≤ 2147483648) (htarget : target + distance = pc)
    (hrank : Mark.rank m pc = Mark.rank m target + distance') :
    LeadAlike m pc (backward distance) (backward distance') := by
  have hle := Mark.rank_add_le m target distance
  subst htarget
  rw [LeadAlike, toInt_backward h, toInt_backward (by omega)]
  exact ⟨target, by omega, by omega⟩

/-! ## Statements -/

section Statements

variable {code plain : List Instr} {m sm : List Mark} {a base : Nat} {s : CodeSettings}
  {i : Imports}

/-- A slot and the one that corresponds to it, as indices. -/
theorem Mark.ranks_localSlot (hslot : base < 65535) (hmark : sm[base]? = some .common) :
    Mark.Ranks sm (localSlot base).toNat (localSlot (Mark.rank sm base)).toNat := by
  have hle := Mark.rank_le sm base
  rw [toNat_localSlot hslot, toNat_localSlot (by omega)]
  exact ⟨hmark, rfl⟩

namespace LoopKind

theorem aligned_countCode {kind : LoopKind} (hat : CodeAt code a (kind.countCode i base))
    (hplain : CodeAt plain (Mark.rank m a) (kind.countCode i (Mark.rank sm base)))
    (hm : Mark.At m a (List.replicate kind.countSize .common))
    (hsm : Mark.At sm base (List.replicate kind.slots .common))
    (hmet : ∀ d ∈ kind.countDemands base, i.Meets d) :
    Aligned code plain m sm a (a + kind.countSize) := by
  cases kind with
  | times count =>
    have hslot : base < 65535 := hmet (.slot base) (by simp [countDemands])
    rw [countCode, List.append_cons] at hat hplain
    have hlength : (count.code i ++ [i.callSupport .repeatCount 1]).length = count.size + 1 := by
      rw [List.length_append, Expr.length_code, List.length_singleton]
    have hfixed : ∀ op ∈ count.code i ++ [i.callSupport .repeatCount 1], op.isFixed = true := by
      rw [List.forall_mem_append, List.forall_mem_singleton]
      exact ⟨fun op hop => Instr.isFixed_of_computes (Expr.computes_code count op hop), rfl⟩
    have hsnoc := Aligned.snoc hat hplain (by rw [hlength]; exact hm) hfixed
      (.store (Mark.ranks_localSlot hslot hsm.head))
    rw [hlength] at hsnoc
    exact hsnoc
  | forever | «until» | «while» | waitUntil => exact .refl

/-- The test of a loop whose rounds have so many instructions, and the end of the loop after
them. -/
theorem aligned_testCode {kind : LoopKind} {rest rest' : Nat}
    (hat : CodeAt code a (kind.testCode i base rest))
    (hplain : CodeAt plain (Mark.rank m a) (kind.testCode i (Mark.rank sm base) rest'))
    (hm : Mark.At m a (List.replicate kind.testSize .common))
    (hsm : Mark.At sm base (List.replicate kind.slots .common))
    (hslot : kind.slots = 1 → base < 65535) (hrest : kind ≠ .forever → rest + 1 < 2147483648)
    (hrank : Mark.rank m (a + kind.testSize + rest) = Mark.rank m (a + kind.testSize) + rest') :
    Aligned code plain m sm a (a + kind.testSize) := by
  -- the jump is the last instruction of the test
  have hlead : ∀ pc, pc + 1 = a + kind.testSize → kind ≠ .forever → m[pc]? = some .common →
      Instr.LeadAlike m pc (forward (rest + 1)) (forward (rest' + 1)) := by
    intro pc hpc hkind hmark
    refine Instr.leadAlike_forward (a + kind.testSize + rest) (hrest hkind) (by omega) ?_
    rw [hrank, ← hpc, Mark.rank_succ hmark]
    omega
  have hcondition : ∀ c : Expr, kind ≠ .forever → kind.testSize = c.conditionSize + 1 →
      ∀ op op' : Instr, (∀ {pc}, Instr.LeadAlike m pc (forward (rest + 1)) (forward (rest' + 1)) →
        op.Matches m sm pc op') → CodeAt code a (c.conditionCode i ++ [op]) →
      CodeAt plain (Mark.rank m a) (c.conditionCode i ++ [op']) →
      Aligned code plain m sm a (a + kind.testSize) := by
    intro c hkind hsize op op' hmatch hat hplain
    rw [hsize, ← c.length_conditionCode i] at hm
    have hsnoc : Aligned code plain m sm _ _ := .snoc hat hplain hm
      (fun op hop => Instr.isFixed_of_computes (Expr.computes_conditionCode c op hop))
      (hmatch (hlead _ (by rw [c.length_conditionCode, hsize, Nat.add_assoc]) hkind
        (hm.getElem?_of_lt (Nat.lt_succ_self _))))
    rwa [c.length_conditionCode, Nat.add_assoc, ← hsize] at hsnoc
  cases kind with
  | times count =>
    exact .common hat.head hm.head hplain.head (.countdown
      (Mark.ranks_localSlot (hslot rfl) hsm.head) (hlead a rfl (by simp) hm.head))
  | forever => exact .refl
  | «until» c | waitUntil c =>
    exact hcondition c (by simp) rfl _ _ .jumpIfTrue hat hplain
  | «while» c => exact hcondition c (by simp) rfl _ _ .jumpIfFalse hat hplain

end LoopKind

namespace Stmt

theorem aligned_deadlineStart {warpSafe : Bool} {slot : Nat}
    (hat : CodeAt code a (deadlineStart s warpSafe slot)) (hm : Mark.At m a (startMarks s warpSafe))
    (hsm : s.checksDeadline warpSafe = true → slot < 65535 ∧ sm[slot]? = some .extra) :
    Aligned code plain m sm a (a + 2 * s.deadlineSlots warpSafe) := by
  rw [deadlineStart] at hat
  rw [startMarks] at hm
  rw [CodeSettings.deadlineSlots]
  split at hat
  · next hchecks =>
    obtain ⟨hslot, hmark⟩ := hsm hchecks
    rw [if_pos hchecks] at hm ⊢
    refine (Aligned.one hat.head (.zero hm.head hm.tail.head)).trans
      (.one hat.tail.head (.store hm.tail.head ?_))
    rw [toNat_localSlot hslot]
    exact hmark
  · next hchecks =>
    rw [if_neg hchecks]
    exact .refl

theorem aligned_roundEnd {warpSafe : Bool} {slot : Nat} (slot' : Nat) {interval : UInt32}
    (hat : CodeAt code a (roundEnd s warpSafe slot interval))
    (hplain : CodeAt plain (Mark.rank m a) (roundEnd s.plain warpSafe slot' interval))
    (hm : Mark.At m a (roundEndMarks s warpSafe))
    (hsm : s.checksDeadline warpSafe = true → slot < 65535 ∧ sm[slot]? = some .extra) :
    Aligned code plain m sm a (a + s.roundEndSize warpSafe) := by
  rw [roundEnd] at hat hplain
  rw [roundEndMarks] at hm
  rw [CodeSettings.roundEndSize]
  rw [CodeSettings.runsWarp_plain] at hplain
  split at hat
  · next hwarp =>
    rw [if_pos hwarp] at hm ⊢
    split at hat
    · next htimer =>
      obtain ⟨hslot, hmark⟩ := hsm (by rw [CodeSettings.checksDeadline, hwarp, htimer]; rfl)
      rw [if_pos htimer] at hm ⊢
      refine .one hat.head (.check hm.head ?_)
      rw [toNat_localSlot hslot]
      exact hmark
    · next htimer =>
      rw [if_neg htimer]
      exact .refl
  · next hwarp =>
    rw [if_neg hwarp] at hm hplain ⊢
    exact .common hat.head hm.head hplain.head (.same rfl)

/-- The statement is not made of others. -/
def isFlat : Stmt → Bool
  | .branch _ _ _ | .loop _ _ _ _ => false
  | _ => true

/-- Such a statement has the same code with all settings. -/
theorem code_of_isFlat {t : Stmt} (h : t.isFlat = true) (s s' : CodeSettings) (base base' : Nat) :
    t.code s i base = t.code s' i base' := by
  cases t with
  | branch | loop => cases h
  | _ => rw [Stmt.code, Stmt.code]

theorem isFixed_code_of_isFlat {t : Stmt} (h : t.isFlat = true) :
    ∀ op ∈ t.code s i base, op.isFixed = true := by
  have hcode := fun e op hop => Instr.isFixed_of_computes (Expr.computes_code (i := i) e op hop)
  have hallCode :=
    fun es op hop => Instr.isFixed_of_computes (Expr.computes_allCode (i := i) es op hop)
  have hinputCode :=
    fun es op hop => Instr.isFixed_of_computes (Expr.computes_inputCode (i := i) es op hop)
  rw [Stmt.code.eq_def]
  cases t with
  | branch | loop => cases h
  | call key args y =>
    refine List.forall_mem_append.mpr ⟨List.forall_mem_append.mpr ⟨?_, hallCode args⟩,
      List.all_eq_true.mp rfl⟩
    cases y <;> exact List.all_eq_true.mp rfl
  | set name e | wait e => exact List.forall_mem_append.mpr ⟨hcode e, List.all_eq_true.mp rfl⟩
  | change name e =>
    exact List.forall_mem_cons.mpr
      ⟨rfl, List.forall_mem_append.mpr ⟨hcode e, List.all_eq_true.mp rfl⟩⟩
  | host opcode args => exact List.forall_mem_append.mpr ⟨hallCode args, List.all_eq_true.mp rfl⟩
  | done => exact List.all_eq_true.mp rfl
  | escape block opcode inputs =>
    exact List.forall_mem_append.mpr ⟨hinputCode inputs, List.all_eq_true.mp rfl⟩

theorem marks_of_isFlat {t : Stmt} (h : t.isFlat = true) (s : CodeSettings) :
    t.marks s = List.replicate (t.size s) .common := by
  cases t with
  | branch | loop => cases h
  | _ => simp only [marks]

theorem aligned_of_isFlat {t : Stmt} (h : t.isFlat = true) (hat : CodeAt code a (t.code s i base))
    {base' : Nat} (hplain : CodeAt plain (Mark.rank m a) (t.code s.plain i base'))
    (hm : Mark.At m a (t.marks s)) : Aligned code plain m sm a (a + t.size s) := by
  rw [code_of_isFlat h s.plain s base' base] at hplain
  rw [marks_of_isFlat h, ← length_code s i base] at hm
  rw [← length_code s i base]
  exact .fixed hat hplain hm (isFixed_code_of_isFlat h)

/-- Statements stand at position `a` of the code, with local slots from `base` on, and at the
corresponding position of the code without the deadline. -/
structure AbreastAt (code plain : List Instr) (m sm : List Mark) (s : CodeSettings) (i : Imports)
    (ts : List Stmt) (a base : Nat) : Prop where
  codeAt : CodeAt code a (allCode s i base ts)
  plainAt : CodeAt plain (Mark.rank m a) (allCode s.plain i (Mark.rank sm base) ts)
  marksAt : Mark.At m a (allMarks s ts)
  slotsAt : Mark.At sm base (allSlotMarks s ts)
  met : ∀ d ∈ allDemands s base ts, i.Meets d

theorem AbreastAt.rank {ts : List Stmt} (h : AbreastAt code plain m sm s i ts a base) :
    Mark.rank m (a + allSize s ts) = Mark.rank m a + allSize s.plain ts := by
  have hrank := h.marksAt.rank
  rwa [length_allMarks, count_allMarks] at hrank

theorem aligned_branch {c : Expr} {yes no : List Stmt}
    (hat : CodeAt code a (Stmt.code s i base (.branch c yes no)))
    (hplain : CodeAt plain (Mark.rank m a)
      (Stmt.code s.plain i (Mark.rank sm base) (.branch c yes no)))
    (hm : Mark.At m a (marks s (.branch c yes no)))
    (hsm : Mark.At sm base (slotMarks s (.branch c yes no)))
    (hmet : ∀ d ∈ demands s base (.branch c yes no), i.Meets d)
    (hyes : ∀ {a base : Nat}, AbreastAt code plain m sm s i yes a base →
      Aligned code plain m sm a (a + allSize s yes))
    (hno : ∀ {a base : Nat}, AbreastAt code plain m sm s i no a base →
      Aligned code plain m sm a (a + allSize s no)) :
    Aligned code plain m sm a (a + size s (.branch c yes no)) := by
  have hlength : (c.conditionCode i).length = c.conditionSize := c.length_conditionCode i
  have hfixed : ∀ op ∈ c.conditionCode i, op.isFixed = true :=
    fun op hop => Instr.isFixed_of_computes (Expr.computes_conditionCode c op hop)
  rw [marks, List.append_assoc] at hm
  rw [slotMarks] at hsm
  simp only [demands, List.forall_mem_append] at hmet
  have hcond : Mark.At m a (List.replicate (c.conditionSize + 1) .common) := hm.left
  have hjump : Mark.rank m (a + c.conditionSize) = Mark.rank m a + c.conditionSize :=
    hcond.rank_of_le (Nat.le_succ _)
  have hthen : Mark.rank m (a + c.conditionSize + 1) = Mark.rank m a + c.conditionSize + 1 :=
    hcond.rank_of_le (Nat.le_refl _)
  have hafter : Mark.At m (a + c.conditionSize + 1) _ := List.length_replicate (n := _) ▸ hm.right
  rw [size]
  cases hempty : no.isEmpty with
  | true =>
    obtain ⟨hcode, hyesAt⟩ := branchAt_of_isEmpty hempty hat
    obtain ⟨hcode', hyesAt'⟩ := branchAt_of_isEmpty hempty hplain
    rw [hempty, if_pos rfl, List.forall_mem_singleton] at hmet
    have habreast : AbreastAt code plain m sm s i yes (a + c.conditionSize + 1) base :=
      ⟨hyesAt, hthen ▸ hyesAt', hafter.left, hsm.left, hmet.1.2⟩
    have hlead : Instr.LeadAlike m (a + c.conditionSize) (forward (allSize s yes + 1))
        (forward (allSize s.plain yes + 1)) := by
      refine Instr.leadAlike_forward (a + c.conditionSize + 1 + allSize s yes) hmet.2
        (by omega) ?_
      rw [habreast.rank, hthen, hjump]
      omega
    have hfirst : Aligned code plain m sm _ _ := .snoc hcode hcode' (hlength ▸ hcond) hfixed
      (hlength ▸ .jumpIfFalse hlead)
    rw [hlength] at hfirst
    have hall := hfirst.trans (hyes habreast)
    rwa [Nat.add_assoc, Nat.add_assoc, ← Nat.add_assoc c.conditionSize] at hall
  | false =>
    obtain ⟨hcode, hyesAt, hskip, hnoAt⟩ := branchAt_of_not_isEmpty hempty hat
    obtain ⟨hcode', hyesAt', hskip', hnoAt'⟩ := branchAt_of_not_isEmpty hempty hplain
    simp only [hempty, Bool.false_eq_true, if_false, List.forall_mem_cons, List.forall_mem_append]
      at hmet
    obtain ⟨⟨-, hmetYes⟩, hforward, hmetNo, hforward', -⟩ := hmet
    have habreast : AbreastAt code plain m sm s i yes (a + c.conditionSize + 1) base :=
      ⟨hyesAt, hthen ▸ hyesAt', hafter.left, hsm.left, hmetYes⟩
    have hrest := length_allMarks s yes ▸ hafter.right
    rw [hempty, if_neg Bool.false_ne_true] at hrest
    have hskipRank := Mark.rank_succ hrest.head
    have hslots := hsm.left.rank
    rw [length_allSlotMarks, count_allSlotMarks] at hslots
    have habreast' : AbreastAt code plain m sm s i no (a + c.conditionSize + 1 + allSize s yes + 1)
        (base + allSlots s yes) := by
      refine ⟨hnoAt, ?_, hrest.tail, length_allSlotMarks s yes ▸ hsm.right, hmetNo⟩
      rw [hskipRank, habreast.rank, hthen, hslots]
      exact hnoAt'
    have hlead : Instr.LeadAlike m (a + c.conditionSize) (forward (allSize s yes + 2))
        (forward (allSize s.plain yes + 2)) := by
      refine Instr.leadAlike_forward (a + c.conditionSize + 1 + allSize s yes + 1) hforward
        (by omega) ?_
      rw [hskipRank, habreast.rank, hthen, hjump]
      omega
    have hlead' :
        Instr.LeadAlike m (a + c.conditionSize + 1 + allSize s yes) (forward (allSize s no + 1))
        (forward (allSize s.plain no + 1)) := by
      refine Instr.leadAlike_forward (a + c.conditionSize + 1 + allSize s yes + 1 + allSize s no)
        hforward' (by omega) ?_
      rw [habreast'.rank, hskipRank]
      omega
    have hfirst : Aligned code plain m sm _ _ := .snoc hcode hcode' (hlength ▸ hcond) hfixed
      (hlength ▸ .jumpIfFalse hlead)
    rw [hlength] at hfirst
    have hbetween : Aligned code plain m sm _ _ := .common hskip hrest.head
      (by rw [habreast.rank, hthen]; exact hskip') (.jump hlead')
    have hall := ((hfirst.trans (hyes habreast)).trans hbetween).trans (hno habreast')
    have hend : a + c.conditionSize + 1 + allSize s yes + 1 + allSize s no
        = a + (c.conditionSize + 1 + allSize s yes + (1 + allSize s no)) := by omega
    rw [hend] at hall
    exact hall

theorem aligned_loop {kind : LoopKind} {body : List Stmt} {warpSafe : Bool} {interval : UInt32}
    (hat : CodeAt code a (Stmt.code s i base (.loop kind body warpSafe interval)))
    (hplain : CodeAt plain (Mark.rank m a)
      (Stmt.code s.plain i (Mark.rank sm base) (.loop kind body warpSafe interval)))
    (hm : Mark.At m a (marks s (.loop kind body warpSafe interval)))
    (hsm : Mark.At sm base (slotMarks s (.loop kind body warpSafe interval)))
    (hmet : ∀ d ∈ demands s base (.loop kind body warpSafe interval), i.Meets d)
    (hbody : ∀ {a base : Nat}, AbreastAt code plain m sm s i body a base →
      Aligned code plain m sm a (a + allSize s body)) :
    Aligned code plain m sm a (a + size s (.loop kind body warpSafe interval)) := by
  have hloop := loopAt hat
  have hloop' := loopAt hplain
  rw [CodeSettings.deadlineSlots_plain, Nat.mul_zero, Nat.add_zero] at hloop'
  simp only [marks, List.append_assoc] at hm
  simp only [slotMarks, List.append_assoc] at hsm
  simp only [demands, List.forall_mem_append, List.forall_mem_cons] at hmet
  obtain ⟨⟨⟨⟨hmetCount, hmetSlot⟩, -⟩, hmetBody⟩, hbackward, hmetExit⟩ := hmet
  -- the marks of the pieces
  have hstartAt := List.length_replicate (n := kind.countSize) ▸ hm.right
  have htestAt := length_startMarks s warpSafe ▸ hstartAt.right
  have hbodyAt := List.length_replicate (n := kind.testSize) ▸ htestAt.right
  have hendAt := length_allMarks s body ▸ hbodyAt.right
  have hbackAt := length_roundEndMarks s warpSafe ▸ hendAt.right
  have hwatchAt := List.length_replicate (n := kind.slots) ▸ hsm.right
  have hslotsAt := List.length_replicate (n := s.deadlineSlots warpSafe) ▸ hwatchAt.right
  generalize htest : a + kind.countSize + 2 * s.deadlineSlots warpSafe = test
    at hloop htestAt hbodyAt hendAt hbackAt
  -- their ranks
  have htestRank : Mark.rank m test = Mark.rank m a + kind.countSize := by
    have hrank := hstartAt.left.rank
    rw [length_startMarks, htest, count_startMarks, Nat.add_zero] at hrank
    rw [hrank, hm.left.rank_of_le (Nat.le_refl _)]
  have hroundRank : Mark.rank m (test + kind.testSize) = Mark.rank m test + kind.testSize :=
    htestAt.left.rank_of_le (Nat.le_refl _)
  have hslotRank : Mark.rank sm (base + kind.slots + s.deadlineSlots warpSafe)
      = Mark.rank sm base + kind.slots := by
    have hrank := hwatchAt.left.rank
    rw [List.length_replicate] at hrank
    rw [hrank, hsm.left.rank_of_le (Nat.le_refl _)]
    simp [List.count_replicate]
  have habreast : AbreastAt code plain m sm s i body (test + kind.testSize)
      (base + kind.slots + s.deadlineSlots warpSafe) := by
    refine ⟨hloop.bodyAt, ?_, hbodyAt.left, hslotsAt, hmetBody⟩
    rw [hroundRank, htestRank, hslotRank]
    have hbodyAt' := hloop'.bodyAt
    rwa [s.deadlineSlots_plain, Nat.add_zero] at hbodyAt'
  have hbackRank : Mark.rank m (test + kind.testSize + allSize s body + s.roundEndSize warpSafe)
      = Mark.rank m (test + kind.testSize)
        + (allSize s.plain body + s.plain.roundEndSize warpSafe) := by
    have hrank := hendAt.left.rank
    rw [length_roundEndMarks, count_roundEndMarks] at hrank
    rw [hrank, habreast.rank, Nat.add_assoc]
  have hwatch : s.checksDeadline warpSafe = true →
      base + kind.slots < 65535 ∧ sm[base + kind.slots]? = some .extra := by
    intro hchecks
    rw [if_pos hchecks, List.forall_mem_singleton] at hmetSlot
    have hmark := hwatchAt.left
    rw [CodeSettings.deadlineSlots, if_pos hchecks] at hmark
    exact ⟨hmetSlot, hmark.head⟩
  -- the pieces
  have hcount := kind.aligned_countCode hloop.countAt hloop'.countAt hm.left hsm.left hmetCount
  have hstart : Aligned code plain m sm _ _ :=
    aligned_deadlineStart hloop.deadlineAt hstartAt.left hwatch
  rw [htest] at hstart
  have htesting : Aligned code plain m sm test (test + kind.testSize) := by
    refine kind.aligned_testCode hloop.testAt (htestRank ▸ hloop'.testAt) htestAt.left hsm.left
      ?_ ?_ ?_
    · intro hslots
      cases kind with
      | times count => exact hmetCount (.slot base) (by simp [LoopKind.countDemands])
      | forever | «until» | «while» | waitUntil => cases hslots
    · intro hkind
      cases kind with
      | forever => exact absurd rfl hkind
      | times | «until» | «while» | waitUntil => exact hmetExit (.forward _) List.mem_cons_self
    · have hafter := Mark.rank_succ hbackAt.head
      rw [hbackRank] at hafter
      simpa only [Nat.add_assoc] using hafter
  have hend := aligned_roundEnd (Mark.rank sm base + kind.slots) hloop.roundEndAt
    (by rw [habreast.rank, hroundRank, htestRank]; exact hloop'.roundEndAt) hendAt.left hwatch
  have hback :
      Aligned code plain m sm (test + kind.testSize + allSize s body + s.roundEndSize warpSafe)
      (test + kind.testSize + allSize s body + s.roundEndSize warpSafe + 1) := by
    refine .common (Nat.add_assoc _ (allSize s body) _ ▸ hloop.backAt) hbackAt.head
      (by rw [hbackRank, hroundRank, htestRank]; exact hloop'.backAt) (.jump ?_)
    refine Instr.leadAlike_backward test hbackward (by omega) ?_
    rw [hbackRank, hroundRank]
    omega
  have hall :=
    ((((hcount.trans hstart).trans htesting).trans (hbody habreast)).trans hend).trans hback
  have hsize : test + kind.testSize + allSize s body + s.roundEndSize warpSafe + 1
      = a + size s (.loop kind body warpSafe interval) := by
    rw [size]
    omega
  rwa [hsize] at hall

mutual

/-- **The code of a statement is what its marks say.** -/
theorem aligned_code : ∀ (t : Stmt) {a base : Nat}, CodeAt code a (t.code s i base) →
    CodeAt plain (Mark.rank m a) (t.code s.plain i (Mark.rank sm base)) → Mark.At m a (t.marks s) →
    Mark.At sm base (t.slotMarks s) → (∀ d ∈ t.demands s base, i.Meets d) →
    Aligned code plain m sm a (a + t.size s)
  | .branch _ yes no, _, _, hat, hplain, hm, hsm, hmet =>
    aligned_branch hat hplain hm hsm hmet (fun h => aligned_allCode yes h)
    fun h => aligned_allCode no h
  | .loop _ body _ _, _, _, hat, hplain, hm, hsm, hmet =>
    aligned_loop hat hplain hm hsm hmet fun h => aligned_allCode body h
  | .call _ _ _, _, _, hat, hplain, hm, _, _ | .set _ _, _, _, hat, hplain, hm, _, _
  | .change _ _, _, _, hat, hplain, hm, _, _ | .wait _, _, _, hat, hplain, hm, _, _
  | .host _ _, _, _, hat, hplain, hm, _, _ | .done, _, _, hat, hplain, hm, _, _
  | .escape _ _ _, _, _, hat, hplain, hm, _, _ => aligned_of_isFlat rfl hat hplain hm

theorem aligned_allCode :
    ∀ (ts : List Stmt) {a base : Nat}, AbreastAt code plain m sm s i ts a base →
    Aligned code plain m sm a (a + allSize s ts)
  | [], _, _, _ => .refl
  | t :: ts, a, base, h => by
    obtain ⟨hat, hplain, hm, hsm, hmet⟩ := h
    rw [allCode] at hat hplain
    rw [allMarks] at hm
    rw [allSlotMarks] at hsm
    rw [allDemands, List.forall_mem_append] at hmet
    have hrank := hm.left.rank
    have hslots := hsm.left.rank
    rw [length_marks, count_marks] at hrank
    rw [length_slotMarks, count_slotMarks] at hslots
    have hfirst := aligned_code t hat.left hplain.left hm.left hsm.left hmet.1
    have hrest := aligned_allCode ts ⟨length_code s i base t ▸ hat.right,
      by rw [hrank, hslots]; exact length_code s.plain i _ t ▸ hplain.right,
      length_marks s t ▸ hm.right, length_slotMarks s t ▸ hsm.right, hmet.2⟩
    rw [allSize, ← Nat.add_assoc]
    exact hfirst.trans hrest

end

end Stmt

end Statements

end BlockScript
