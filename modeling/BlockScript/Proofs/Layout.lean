import BlockScript.Proofs.Tables
import BlockScript.Routine.Image
import Mathlib.Data.List.Perm.Subperm

/-!
# Where code stands

Statements about a piece of compiled code are made relative to its place in the code of a whole
routine: `CodeAt code pc piece`. The demands of a piece are met by the tables of the routine
(`Imports.Meets`), so that the indices in the piece lead to what was asked for, and its offsets to
the places that were meant.
-/

namespace BlockScript

/-! ## Pieces of code -/

/-- The piece stands in the code at position `pc`. -/
def CodeAt (code : List Instr) (pc : Nat) (piece : List Instr) : Prop :=
  ∃ before after, code = before ++ piece ++ after ∧ before.length = pc

namespace CodeAt

variable {code piece piece' : List Instr} {pc : Nat} {op : Instr}

/-- A whole routine stands at its beginning. -/
theorem whole (piece after : List Instr) : CodeAt (piece ++ after) 0 piece :=
  ⟨[], after, rfl, rfl⟩

theorem left (h : CodeAt code pc (piece ++ piece')) : CodeAt code pc piece := by
  obtain ⟨before, after, rfl, rfl⟩ := h
  exact ⟨before, piece' ++ after, by simp, rfl⟩

theorem right (h : CodeAt code pc (piece ++ piece')) : CodeAt code (pc + piece.length) piece' := by
  obtain ⟨before, after, rfl, rfl⟩ := h
  exact ⟨before ++ piece, after, by simp, by simp⟩

theorem tail (h : CodeAt code pc (op :: piece)) : CodeAt code (pc + 1) piece := by
  obtain ⟨before, after, rfl, rfl⟩ := h
  exact ⟨before ++ [op], after, by simp, by simp⟩

/-- The first instruction of a piece is the one at its position. -/
theorem head (h : CodeAt code pc (op :: piece)) : code[pc]? = some op := by
  obtain ⟨before, after, rfl, rfl⟩ := h
  simp

end CodeAt

/-! ## The length of code -/

namespace Expr

mutual

theorem length_code (i : Imports) : ∀ e : Expr, (e.code i).length = e.size
  | .const _ | .arg _ _ | .var _ => by simp [code, size]
  | .unary op a => by simp [code, size, length_code i a]
  | .binary op a b => by simp [code, size, length_code i a, length_code i b]; omega
  | .host opcode args shape => by simp [code, size, length_allCode i args]
  | .escape block opcode inputs => by simp [code, size, length_inputCode i inputs]

theorem length_allCode (i : Imports) : ∀ es : List Expr, (allCode i es).length = allSize es
  | [] => rfl
  | e :: es => by simp [allCode, allSize, length_code i e, length_allCode i es]

theorem length_inputCode (i : Imports) :
    ∀ es : List (String × Expr), (inputCode i es).length = inputSize es
  | [] => rfl
  | (_, e) :: es => by simp [inputCode, inputSize, length_code i e, length_inputCode i es]

end

theorem length_conditionCode (i : Imports) (e : Expr) :
    (e.conditionCode i).length = e.conditionSize := by
  unfold conditionCode conditionSize
  split <;> simp [length_code]

end Expr

theorem LoopKind.length_countCode (i : Imports) (base : Nat) (kind : LoopKind) :
    (kind.countCode i base).length = kind.countSize := by
  cases kind <;> simp [countCode, countSize, Expr.length_code]

theorem LoopKind.length_testCode (i : Imports) (base rest : Nat) (kind : LoopKind) :
    (kind.testCode i base rest).length = kind.testSize := by
  cases kind <;> simp [testCode, testSize, Expr.length_conditionCode]

namespace Stmt

theorem length_deadlineStart (s : CodeSettings) (warpSafe : Bool) (slot : Nat) :
    (deadlineStart s warpSafe slot).length = 2 * s.deadlineSlots warpSafe := by
  unfold deadlineStart CodeSettings.deadlineSlots
  split <;> rfl

theorem length_roundEnd (s : CodeSettings) (warpSafe : Bool) (slot : Nat) (interval : UInt32) :
    (roundEnd s warpSafe slot interval).length = s.roundEndSize warpSafe := by
  unfold roundEnd CodeSettings.roundEndSize
  split
  · split <;> rfl
  · rfl

mutual

theorem length_code (s : CodeSettings) (i : Imports) :
    ∀ (base : Nat) (t : Stmt), (code s i base t).length = size s t
  | base, .branch c yes no => by
    simp only [code, size]
    split <;> simp [Expr.length_conditionCode, length_allCode s i] <;> omega
  | base, .loop kind body warpSafe interval => by
    simp only [code, size, List.length_append, LoopKind.length_countCode, LoopKind.length_testCode,
      length_allCode s i, length_deadlineStart, length_roundEnd, List.length_singleton]
  | base, .call key args yieldFirst => by
    cases yieldFirst <;> simp [code, size, Expr.length_allCode]
    omega
  | base, .set name e => by simp [code, size, Expr.length_code]
  | base, .change name e => by simp [code, size, Expr.length_code]
  | base, .wait e => by simp [code, size, Expr.length_code]
  | base, .host opcode args => by simp [code, size, Expr.length_allCode]
  | base, .done => by simp [code, size]
  | base, .escape block opcode inputs => by simp [code, size, Expr.length_inputCode]

theorem length_allCode (s : CodeSettings) (i : Imports) :
    ∀ (base : Nat) (ts : List Stmt), (allCode s i base ts).length = allSize s ts
  | base, [] => by simp [allCode, allSize]
  | base, t :: ts => by simp [allCode, allSize, length_code s i, length_allCode s i]

end

/-! ## The pieces of branches and loops -/

section Pieces

variable {code : List Instr} {a : Nat} {s : CodeSettings} {i : Imports} {base : Nat}

/-- The pieces of a branch without a second stack. -/
theorem branchAt_of_isEmpty {c : Expr} {yes no : List Stmt} (hno : no.isEmpty = true)
    (hat : CodeAt code a (Stmt.code s i base (.branch c yes no))) :
    CodeAt code a (c.conditionCode i ++ [.jumpIfFalse (forward (allSize s yes + 1))])
      ∧ CodeAt code (a + c.conditionSize + 1) (allCode s i base yes) := by
  simp only [Stmt.code, hno, if_true, length_allCode] at hat
  have hyes := Expr.length_conditionCode i c ▸ hat.right
  rw [List.append_cons] at hat
  exact ⟨hat.left, hyes.tail⟩

/-- The pieces of a branch with two stacks. -/
theorem branchAt_of_not_isEmpty {c : Expr} {yes no : List Stmt} (hno : no.isEmpty = false)
    (hat : CodeAt code a (Stmt.code s i base (.branch c yes no))) :
    CodeAt code a (c.conditionCode i ++ [.jumpIfFalse (forward (allSize s yes + 2))])
      ∧ CodeAt code (a + c.conditionSize + 1) (allCode s i base yes)
      ∧ code[a + c.conditionSize + 1 + allSize s yes]? = some (.jump (forward (allSize s no + 1)))
      ∧ CodeAt code (a + c.conditionSize + 1 + allSize s yes + 1)
        (allCode s i (base + allSlots s yes) no) := by
  simp only [Stmt.code, hno, Bool.false_eq_true, if_false, length_allCode, List.append_assoc,
    List.cons_append] at hat
  have hyes := (Expr.length_conditionCode i c ▸ hat.right).tail
  have hno := length_allCode s i base yes ▸ hyes.right
  rw [List.append_cons] at hat
  exact ⟨hat.left, hyes.left, hno.head, hno.tail⟩

/-- The pieces of a loop whose test stands at `test` and whose rounds have `round` instructions. -/
structure LoopAt (code : List Instr) (a : Nat) (s : CodeSettings) (i : Imports) (base : Nat)
    (kind : LoopKind) (body : List Stmt) (warpSafe : Bool) (interval : UInt32)
    (test round : Nat) : Prop where
  countAt : CodeAt code a (kind.countCode i base)
  deadlineAt : CodeAt code (a + kind.countSize) (deadlineStart s warpSafe (base + kind.slots))
  testAt : CodeAt code test (kind.testCode i base (round + 1))
  bodyAt : CodeAt code (test + kind.testSize)
    (allCode s i (base + kind.slots + s.deadlineSlots warpSafe) body)
  roundEndAt : CodeAt code (test + kind.testSize + allSize s body)
    (roundEnd s warpSafe (base + kind.slots) interval)
  backAt : code[test + kind.testSize + round]? = some (.jump (backward (kind.testSize + round)))

theorem loopAt {kind : LoopKind} {body : List Stmt} {warpSafe : Bool} {interval : UInt32}
    (hat : CodeAt code a (Stmt.code s i base (.loop kind body warpSafe interval))) :
    LoopAt code a s i base kind body warpSafe interval
      (a + kind.countSize + 2 * s.deadlineSlots warpSafe)
      (allSize s body + s.roundEndSize warpSafe) := by
  simp only [Stmt.code, List.append_assoc, List.length_append, length_allCode, length_roundEnd,
    LoopKind.length_testCode] at hat
  have hdeadline := LoopKind.length_countCode i base kind ▸ hat.right
  have htest := length_deadlineStart s warpSafe _ ▸ hdeadline.right
  have hbody := LoopKind.length_testCode i base _ kind ▸ htest.right
  have hend := length_allCode s i _ body ▸ hbody.right
  have hback := length_roundEnd s warpSafe _ interval ▸ hend.right
  exact ⟨hat.left, hdeadline.left, htest.left, hbody.left, hend.left,
    Nat.add_assoc _ (allSize s body) _ ▸ hback.head⟩

end Pieces

end Stmt

/-! ## Indices and offsets -/

theorem toInt_forward {n : Nat} (h : n < 2147483648) : (forward n).toInt = n := by
  rw [forward, Int32.toInt_ofInt]
  exact Int.bmod_eq_of_le (by simp) (by simp; omega)

theorem toInt_backward {n : Nat} (h : n ≤ 2147483648) : (backward n).toInt = -n := by
  rw [backward, Int32.toInt_ofInt]
  exact Int.bmod_eq_of_le (by simp; omega) (by simp; omega)

theorem toNat_localSlot {n : Nat} (h : n < 65535) : (localSlot n).toNat = n := by
  simp [localSlot]
  omega

/-! ## Demands that are met -/

/-- The tables lead to what the demand asks for, and its numbers fit. -/
def Imports.Meets (i : Imports) : Demand → Prop
  | .support f => i.support[(UInt16.ofNat (i.support.idxOf f)).toNat]? = some f
  | .host opcode => i.host[(UInt16.ofNat (i.host.idxOf opcode)).toNat]? = some opcode
  | .variant _ => True
  | .procedure key => i.procedures[(UInt16.ofNat (i.procedures.idxOf key)).toNat]? = some key
  | .arguments count => count < 65536
  | .slot index => index < 65535
  | .forward distance => distance < 2147483648
  | .backward distance => distance ≤ 2147483648

/-- An element is found at its index, if the index fits into 16 bits. -/
theorem getElem?_index {α : Type} [BEq α] [LawfulBEq α] {l : List α} {a : α} (ha : a ∈ l)
    (h : l.idxOf a < 65536) : l[(UInt16.ofNat (l.idxOf a)).toNat]? = some a := by
  have htoNat : (UInt16.ofNat (l.idxOf a)).toNat = l.idxOf a := by simp; omega
  rw [htoNat]
  exact List.getElem?_idxOf ha

theorem nodup_eraseDups {α : Type} [BEq α] [LawfulBEq α] :
    ∀ (n : Nat) (l : List α), l.length ≤ n → l.eraseDups.Nodup
  | _, [], _ => by simp
  | n + 1, a :: l, h => by
    rw [List.eraseDups_cons, List.nodup_cons]
    refine ⟨by simp [List.mem_eraseDups], nodup_eraseDups n _ ?_⟩
    have := List.length_filter_le (fun b => !b == a) l
    simp only [List.length_cons] at h
    omega

theorem Support.mem_all (f : Support) : f ∈ Support.all := by
  cases f <;> decide

/-- There are more indices than support functions. -/
theorem Imports.length_support_le (ds : List Demand) : (Imports.ofDemands ds).support.length ≤ 21 :=
  (List.subperm_of_subset (nodup_eraseDups _ _ (Nat.le_refl _))
    fun f _ => Support.mem_all f).length_le

namespace Imports

theorem mem_support {ds : List Demand} {f : Support} (h : .support f ∈ ds) :
    f ∈ (ofDemands ds).support :=
  List.mem_eraseDups.mpr (List.mem_filterMap.mpr ⟨_, h, rfl⟩)

theorem mem_host {ds : List Demand} {opcode : String} (h : .host opcode ∈ ds) :
    opcode ∈ (ofDemands ds).host :=
  List.mem_eraseDups.mpr (List.mem_filterMap.mpr ⟨_, h, rfl⟩)

theorem mem_procedures {ds : List Demand} {key : VariantKey} (h : .procedure key ∈ ds) :
    key ∈ (ofDemands ds).procedures :=
  List.mem_eraseDups.mpr (List.mem_filterMap.mpr ⟨_, h, rfl⟩)

/-- A demand that does not fail is met by the tables made of all demands. -/
theorem meets_of_failure?_eq_none {ds : List Demand} {d : Demand} (hd : d ∈ ds) {routine : String}
    {p : Program} (h : d.failure? routine p (ofDemands ds) = none) : (ofDemands ds).Meets d := by
  cases d with
  | support f =>
    have hmem := mem_support hd
    have := List.idxOf_lt_length_of_mem hmem
    have := length_support_le ds
    exact getElem?_index hmem (by omega)
  | host opcode =>
    simp only [Demand.failure?, ite_eq_left_iff, reduceCtorEq, imp_false, not_not] at h
    exact getElem?_index (mem_host hd) h
  | variant key => trivial
  | procedure key =>
    simp only [Demand.failure?, ite_eq_left_iff, reduceCtorEq, imp_false, not_not] at h
    exact getElem?_index (mem_procedures hd) h
  | arguments | slot | forward | backward =>
    simpa only [Demand.failure?, Meets, ite_eq_left_iff, reduceCtorEq, imp_false, not_not] using h

end Imports

end BlockScript
