import BlockScript.Proofs.Pieces
import BlockScript.Proofs.Shapes
import BlockScript.Proofs.Warp

/-!
# The height of the stack along code

Verification goes over code once, from the first instruction to the last, and adds up the heights of
the stack without regard to jumps (`Instr.climb`, `heightAt?`). That says something about a run only
because of how code is made: statements begin and end on an empty stack, and so does all between
them that jumps lead to or that lets the thread give way.

Each statement keeps to itself: its jumps lead to its own code or to the end of it, and it counts in
slots of its own (`Enclosed`). Main statement: the code of a compiled routine has these properties,
whatever the routine is (`Routine.enclosed_of_compile`).
-/

namespace BlockScript

/-! ## A pass over code -/

namespace Instr

/-- The height of the stack after instructions, in a pass over them without regard to jumps that
begins with `height` values. There is none if an instruction takes more than there is. -/
def climb (height : Nat) : List Instr → Option Nat
  | [] => some height
  | op :: ops =>
    if height < op.effect.1 then none else climb (height - op.effect.1 + op.effect.2) ops

variable {op : Instr} {n : Nat} {ops : List Instr}

theorem climb_cons (h : op.effect.1 ≤ n) (ops : List Instr) :
    climb n (op :: ops) = climb (n - op.effect.1 + op.effect.2) ops := by
  rw [climb, if_neg (Nat.not_lt.mpr h)]

theorem climb_append (ops' : List Instr) :
    ∀ (ops : List Instr) (n : Nat), climb n (ops ++ ops') = (climb n ops).bind fun m => climb m ops'
  | [], _ => rfl
  | op :: ops, n => by
    rw [List.cons_append, climb, climb]
    split
    · rfl
    · exact climb_append ops' ops _

/-- The pass is the one that verification makes. -/
theorem underflow?_eq_none_iff : ∀ (ops : List Instr) (n pc : Nat),
    underflow? id n pc ops = none ↔ ∃ m, climb n ops = some m
  | [], n, _ => by simp [underflow?, climb]
  | op :: ops, n, pc => by
    rw [underflow?, climb]
    split
    · simp
    · exact underflow?_eq_none_iff ops _ (pc + 1)

/-- The local slot that the instruction changes. -/
def slot? : Instr → Option UInt16
  | .storeLocal c | .countdown c _ | .checkDeadline c _ => some c
  | _ => none

end Instr

/-- The height of the stack before the instruction at a position, as the pass has it that begins on
an empty stack. -/
def heightAt? (code : List Instr) (pc : Nat) : Option Nat := Instr.climb 0 (code.take pc)

section

variable {code piece : List Instr} {a pc n m : Nat} {op : Instr}

theorem heightAt?_zero (code : List Instr) : heightAt? code 0 = some 0 := by
  rw [heightAt?, List.take_zero]
  rfl

theorem CodeAt.heightAt?_add (hat : CodeAt code a piece) (ha : heightAt? code a = some n) :
    heightAt? code (a + piece.length) = Instr.climb n piece := by
  obtain ⟨before, after, rfl, rfl⟩ := hat
  rw [heightAt?, List.append_assoc, List.take_left] at ha
  rw [heightAt?, ← List.length_append, List.take_left, Instr.climb_append, ha, Option.bind_some]

theorem heightAt?_succ (hop : code[pc]? = some op) (hpc : heightAt? code pc = some n) :
    heightAt? code (pc + 1) = Instr.climb n [op] := by
  have hat : CodeAt code pc [op] := by
    obtain ⟨hlt, rfl⟩ := List.getElem?_eq_some_iff.mp hop
    exact ⟨code.take pc, code.drop (pc + 1), by simp, by simp; omega⟩
  exact hat.heightAt?_add hpc

/-- An instruction between the ends of a piece belongs to it. -/
theorem CodeAt.mem_of_getElem? (hat : CodeAt code a piece) (hlo : a ≤ pc)
    (hhi : pc < a + piece.length) (hop : code[pc]? = some op) : op ∈ piece := by
  obtain ⟨n, rfl⟩ := Nat.exists_eq_add_of_le hlo
  rw [hat.getElem?_add (by omega)] at hop
  exact List.mem_of_getElem? hop

end

/-! ## Heights of expressions and statements -/

section

variable {i : Imports} {n : Nat}

theorem Imports.climb_callSupport (i : Imports) (f : Support) {k : Nat} (hk : k < 65536) (n : Nat)
    (ops : List Instr) :
    Instr.climb (n + k) (i.callSupport f k :: ops) = Instr.climb (n + 1) ops := by
  have htoNat : (UInt16.ofNat k).toNat = k := by simp; omega
  rw [callSupport, Instr.climb_cons (by rw [Instr.effect, htoNat]; omega), Instr.effect, htoNat,
    Nat.add_sub_cancel]

theorem Imports.climb_callHost (i : Imports) (opcode : String) {k : Nat}
    (hk : i.Meets (.arguments k)) (n : Nat) (ops : List Instr) :
    Instr.climb (n + k) (i.callHost opcode k :: ops) = Instr.climb (n + 1) ops := by
  have htoNat : (UInt16.ofNat k).toNat = k := by simp; exact hk
  rw [callHost, Instr.climb_cons (by rw [Instr.effect, htoNat]; omega), Instr.effect, htoNat,
    Nat.add_sub_cancel]

theorem Imports.climb_callProcedure (i : Imports) (key : VariantKey) {k : Nat}
    (hk : i.Meets (.arguments k)) (ops : List Instr) :
    Instr.climb k (i.callProcedure key k :: ops) = Instr.climb 0 ops := by
  have htoNat : (UInt16.ofNat k).toNat = k := by simp; exact hk
  rw [callProcedure, Instr.climb_cons (by rw [Instr.effect, htoNat]), Instr.effect, htoNat,
    Nat.sub_self, Nat.zero_add]

theorem Instr.climb_escape (block : BlockId) (opcode : String) {k : Nat} {inputs : List String}
    (hk : inputs.length = k) (n : Nat) (ops : List Instr) :
    climb (n + k) (.escape block opcode inputs :: ops) = climb (n + 1) ops := by
  rw [climb_cons (by rw [effect, hk]; omega), effect, hk, Nat.add_sub_cancel]

namespace Expr

mutual

/-- **The code of an expression leaves one value more**, whatever the expression is. -/
theorem climb_code : ∀ (e : Expr) (n : Nat), (∀ d ∈ e.demands, i.Meets d) →
    Instr.climb n (e.code i) = some (n + 1)
  | .const v, n, _ | .arg index shape, n, _ | .var name, n, _ => rfl
  | .unary op e, n, hmet => by
    rw [demands, List.forall_mem_append] at hmet
    rw [code, Instr.climb_append, climb_code e n hmet.1]
    exact i.climb_callSupport op.support (by decide) n []
  | .binary op e₁ e₂, n, hmet => by
    rw [demands, List.forall_mem_append, List.forall_mem_append] at hmet
    rw [code, Instr.climb_append, Instr.climb_append, climb_code e₁ n hmet.1.1, Option.bind_some,
      climb_code e₂ (n + 1) hmet.1.2]
    exact i.climb_callSupport op.support (by decide) n []
  | .host opcode args shape, n, hmet => by
    rw [demands, List.forall_mem_append, List.forall_mem_cons] at hmet
    rw [code, Instr.climb_append, climb_allCode args n hmet.1]
    exact i.climb_callHost opcode hmet.2.1 n []
  | .escape block opcode inputs, n, hmet => by
    rw [demands] at hmet
    rw [code, Instr.climb_append, climb_inputCode inputs n hmet]
    exact Instr.climb_escape block opcode (List.length_map _) n []

theorem climb_allCode : ∀ (es : List Expr) (n : Nat), (∀ d ∈ allDemands es, i.Meets d) →
    Instr.climb n (allCode i es) = some (n + es.length)
  | [], n, _ => rfl
  | e :: es, n, hmet => by
    rw [allDemands, List.forall_mem_append] at hmet
    rw [allCode, Instr.climb_append, climb_code e n hmet.1, Option.bind_some,
      climb_allCode es (n + 1) hmet.2, List.length_cons, Nat.add_assoc, Nat.add_comm 1]

theorem climb_inputCode : ∀ (inputs : List (String × Expr)) (n : Nat),
    (∀ d ∈ inputDemands inputs, i.Meets d) →
    Instr.climb n (inputCode i inputs) = some (n + inputs.length)
  | [], n, _ => rfl
  | (_, e) :: inputs, n, hmet => by
    rw [inputDemands, List.forall_mem_append] at hmet
    rw [inputCode, Instr.climb_append, climb_code e n hmet.1, Option.bind_some,
      climb_inputCode inputs (n + 1) hmet.2, List.length_cons, Nat.add_assoc, Nat.add_comm 1]

end

theorem climb_conditionCode (e : Expr) (hmet : ∀ d ∈ e.conditionDemands, i.Meets d) :
    Instr.climb 0 (e.conditionCode i) = some 1 := by
  unfold conditionDemands at hmet
  unfold conditionCode
  split at hmet
  · next hshape =>
    rw [if_pos hshape]
    exact climb_code e 0 hmet
  · next hshape =>
    rw [List.forall_mem_append] at hmet
    rw [if_neg hshape, Instr.climb_append, climb_code e 0 hmet.1]
    exact i.climb_callSupport .toBoolean (by decide) 0 []

end Expr

theorem LoopKind.climb_countCode (kind : LoopKind) (base : Nat)
    (hmet : ∀ d ∈ kind.countDemands base, i.Meets d) :
    Instr.climb 0 (kind.countCode i base) = some 0 := by
  cases kind with
  | times count =>
    rw [countDemands, List.forall_mem_append] at hmet
    rw [countCode, Instr.climb_append, Expr.climb_code count 0 hmet.1]
    exact i.climb_callSupport .repeatCount (by decide) 0 _
  | forever | «until» c | «while» c | waitUntil c => rfl

theorem LoopKind.climb_testCode (kind : LoopKind) (base rest : Nat)
    (hmet : ∀ d ∈ kind.testDemands, i.Meets d) :
    Instr.climb 0 (kind.testCode i base rest) = some 0 := by
  cases kind with
  | times count | forever => rfl
  | «until» c | «while» c | waitUntil c =>
    rw [testCode, Instr.climb_append, c.climb_conditionCode hmet]
    rfl

namespace Stmt

variable {s : CodeSettings}

theorem climb_deadlineStart (warpSafe : Bool) (slot : Nat) :
    Instr.climb 0 (deadlineStart s warpSafe slot) = some 0 := by
  unfold deadlineStart
  split <;> rfl

theorem climb_roundEnd (warpSafe : Bool) (slot : Nat) (interval : UInt32) :
    Instr.climb 0 (roundEnd s warpSafe slot interval) = some 0 := by
  unfold roundEnd
  split
  · split <;> rfl
  · rfl

mutual

/-- **The code of a statement leaves the stack empty.** -/
theorem climb_code : ∀ (t : Stmt) {base : Nat}, (∀ d ∈ t.demands s base, i.Meets d) →
    Instr.climb 0 (t.code s i base) = some 0
  | .branch c yes no, base, hmet => by
    simp only [demands, List.forall_mem_append] at hmet
    have hcond := c.climb_conditionCode hmet.1.1
    have hyes := climb_allCode yes hmet.1.2
    rw [code]
    cases hno : no.isEmpty with
    | true =>
      rw [if_pos rfl, Instr.climb_append, hcond]
      exact hyes
    | false =>
      simp only [hno, Bool.false_eq_true, if_false, List.forall_mem_cons,
        List.forall_mem_append] at hmet
      rw [if_neg Bool.false_ne_true, Instr.climb_append, Instr.climb_append, hcond,
        Option.bind_some, Instr.climb_cons (Nat.le_refl 1), Instr.effect, Nat.sub_self,
        Nat.zero_add, hyes]
      exact climb_allCode no hmet.2.2.1
  | .loop kind body warpSafe interval, base, hmet => by
    simp only [demands, List.forall_mem_append] at hmet
    obtain ⟨⟨⟨⟨hcount, -⟩, htest⟩, hbody⟩, -⟩ := hmet
    simp only [code, Instr.climb_append, kind.climb_countCode base hcount, climb_deadlineStart,
      kind.climb_testCode base _ htest, climb_allCode body hbody, climb_roundEnd, Option.bind_some]
    rfl
  | .call key args yieldFirst, base, hmet => by
    rw [demands, List.forall_mem_cons, List.forall_mem_append, List.forall_mem_cons,
      List.forall_mem_singleton] at hmet
    have hyield : Instr.climb 0 (if yieldFirst then [.yield .soft] else []) = some 0 := by
      split <;> rfl
    rw [code, Instr.climb_append, Instr.climb_append, hyield, Option.bind_some,
      Expr.climb_allCode args 0 hmet.2.1, Nat.zero_add]
    exact i.climb_callProcedure key hmet.2.2.2 []
  | .set name e, base, hmet => by
    rw [code, Instr.climb_append, Expr.climb_code e 0 hmet]
    rfl
  | .change name e, base, hmet => by
    rw [demands, List.forall_mem_append] at hmet
    rw [code, Instr.climb_cons (Nat.zero_le 0), Instr.effect, Instr.climb_append,
      Expr.climb_code e _ hmet.1]
    exact i.climb_callSupport .add (k := 2) (by decide) 0 _
  | .wait e, base, hmet => by
    rw [demands, List.forall_mem_append] at hmet
    rw [code, Instr.climb_append, Expr.climb_code e 0 hmet.1]
    exact i.climb_callSupport .waitDuration (by decide) 0 _
  | .host opcode args, base, hmet => by
    rw [demands, List.forall_mem_append, List.forall_mem_cons] at hmet
    rw [code, Instr.climb_append, Expr.climb_allCode args 0 hmet.1]
    exact i.climb_callHost opcode hmet.2.1 0 _
  | .done, base, _ => rfl
  | .escape block opcode inputs, base, hmet => by
    rw [code, Instr.climb_append, Expr.climb_inputCode inputs 0 hmet]
    exact Instr.climb_escape block opcode (List.length_map _) 0 _

theorem climb_allCode : ∀ (ts : List Stmt) {base : Nat}, (∀ d ∈ allDemands s base ts, i.Meets d) →
    Instr.climb 0 (allCode s i base ts) = some 0
  | [], base, _ => rfl
  | t :: ts, base, hmet => by
    rw [allDemands, List.forall_mem_append] at hmet
    rw [allCode, Instr.climb_append, climb_code t hmet.1]
    exact climb_allCode ts hmet.2

end

end Stmt

end

/-! ## Statements keep to themselves -/

/-- The positions of a piece of code, up to the one after it, and its local slots. -/
structure Extent where
  first : Nat
  last : Nat
  low : Nat
  high : Nat

/-- The extent has room for a piece of `n` instructions at position `a`, whose `m` slots begin at
`base`. -/
structure Extent.Covers (x : Extent) (a n base m : Nat) : Prop where
  first : x.first ≤ a
  last : a + n ≤ x.last
  low : x.low ≤ base
  high : base + m ≤ x.high

/-- The instruction at position `pc` finds an empty stack if it expects one. It jumps only inside
the extent or to its end, where the stack is empty, as it is after a jump that is not taken. It
changes only the slots of the extent. -/
structure Instr.KeepsTo (code : List Instr) (x : Extent) (pc : Nat) (op : Instr) : Prop where
  empty : op.expectsEmpty = true → heightAt? code pc = some 0
  jump : ∀ offset, op.jumpOffset? = some offset → heightAt? code (pc + 1) = some 0
    ∧ ∃ target : Nat, (pc : Int) + offset.toInt = target ∧ x.first ≤ target ∧ target ≤ x.last
      ∧ heightAt? code target = some 0
  slot : ∀ c, op.slot? = some c → x.low ≤ c.toNat ∧ c.toNat < x.high

/-- From position `a` up to `b` the code keeps to the extent. -/
def Enclosed (code : List Instr) (x : Extent) (a b : Nat) : Prop :=
  ∀ pc op, a ≤ pc → pc < b → code[pc]? = some op → op.KeepsTo code x pc

/-- The instruction goes on to the next one and changes no slot. -/
def Instr.isPlain (op : Instr) : Bool :=
  !op.expectsEmpty && op.jumpOffset?.isNone && op.slot?.isNone

theorem Instr.isPlain_of_computes {op : Instr} (h : op.computes = true) : op.isPlain = true := by
  cases op with
  | push | loadArg | callSupport | callHost | escape | getVariable => rfl
  | _ => cases h

namespace Enclosed

variable {code piece : List Instr} {x : Extent} {a b c n : Nat} {op : Instr}

theorem refl : Enclosed code x a a := fun _ _ hlo hhi => absurd hlo (by omega)

theorem trans (h : Enclosed code x a b) (h' : Enclosed code x b c) : Enclosed code x a c := by
  intro pc op hlo hhi hop
  rcases Nat.lt_or_ge pc b with hb | hb
  · exact h pc op hlo hb hop
  · exact h' pc op hb hhi hop

theorem one (hop : code[a]? = some op) (h : op.KeepsTo code x a) : Enclosed code x a (a + 1) := by
  intro pc op' hlo hhi hop'
  obtain rfl : pc = a := by omega
  rw [hop] at hop'
  cases hop'
  exact h

theorem of_isPlain (hat : CodeAt code a piece) (h : ∀ op ∈ piece, op.isPlain = true) :
    Enclosed code x a (a + piece.length) := by
  intro pc op hlo hhi hop
  have hplain := h op (hat.mem_of_getElem? hlo hhi hop)
  simp only [Instr.isPlain, Bool.and_eq_true, Bool.not_eq_true', Option.isNone_iff_eq_none]
    at hplain
  obtain ⟨⟨hempty, hjump⟩, hslot⟩ := hplain
  exact ⟨by simp [hempty], by simp [hjump], by simp [hslot]⟩

theorem of_computes (hat : CodeAt code a piece) (h : ∀ op ∈ piece, op.computes = true) :
    Enclosed code x a (a + piece.length) :=
  of_isPlain hat fun op hop => Instr.isPlain_of_computes (h op hop)

/-- The storing of a value in a slot of the extent. -/
theorem storeLocal {slot : Nat} (hop : code[a]? = some (.storeLocal (localSlot slot)))
    (hslot : slot < 65535) (hlow : x.low ≤ slot) (hhigh : slot < x.high) :
    Enclosed code x a (a + 1) := by
  refine one hop ⟨fun h => (by cases h), fun _ h => (by cases h), fun c hc => ?_⟩
  cases hc
  rw [toNat_localSlot hslot]
  exact ⟨hlow, hhigh⟩

/-- An instruction that expects an empty stack, and no more. -/
theorem pause (hop : code[a]? = some op) (ha : heightAt? code a = some 0)
    (hjump : op.jumpOffset? = none := by rfl) (hslot : op.slot? = none := by rfl) :
    Enclosed code x a (a + 1) :=
  one hop ⟨fun _ => ha, by simp [hjump], by simp [hslot]⟩

/-- A jump to the end of a piece or back to its beginning. -/
theorem jump {offset : Int32} (hop : code[a]? = some op) (hoffset : op.jumpOffset? = some offset)
    (hempty : op.expectsEmpty = true → heightAt? code a = some 0)
    (hnext : heightAt? code (a + 1) = some 0) {target : Nat}
    (htarget : (a : Int) + offset.toInt = target) (hfirst : x.first ≤ target)
    (hlast : target ≤ x.last) (hheight : heightAt? code target = some 0)
    (hslot : ∀ c, op.slot? = some c → x.low ≤ c.toNat ∧ c.toNat < x.high) :
    Enclosed code x a (a + 1) := by
  refine one hop ⟨hempty, fun offset' hoffset' => ?_, hslot⟩
  rw [hoffset] at hoffset'
  cases hoffset'
  exact ⟨hnext, target, htarget, hfirst, hlast, hheight⟩

end Enclosed

section

variable {code : List Instr} {i : Imports} {x : Extent} {a base : Nat}

theorem LoopKind.enclosed_count (kind : LoopKind) (hat : CodeAt code a (kind.countCode i base))
    (hmet : ∀ d ∈ kind.countDemands base, i.Meets d) (hlow : x.low ≤ base)
    (hhigh : base + kind.slots ≤ x.high) : Enclosed code x a (a + kind.countSize) := by
  cases kind with
  | times count =>
    rw [countCode, List.append_cons] at hat
    simp only [countDemands, List.forall_mem_append, List.forall_mem_cons] at hmet
    have hcount : Enclosed code x a _ := .of_computes hat.left (by
      rw [List.forall_mem_append, List.forall_mem_singleton]
      exact ⟨count.computes_code, rfl⟩)
    have hstore := Enclosed.storeLocal (x := x) hat.right.head hmet.2.2.1 hlow hhigh
    rw [List.length_append, Expr.length_code] at hcount hstore
    exact hcount.trans hstore
  | forever | «until» c | «while» c | waitUntil c => exact .refl

/-- A condition and a jump on it. -/
theorem Expr.enclosed_conditionJump (c : Expr) {op : Instr} {n : Nat}
    (hat : CodeAt code a (c.conditionCode i ++ [op]))
    (hop : op = .jumpIfFalse (forward n) ∨ op = .jumpIfTrue (forward n)) (hn : n < 2147483648)
    (hnext : heightAt? code (a + c.conditionSize + 1) = some 0) (hfirst : x.first ≤ a)
    (hlast : a + c.conditionSize + n ≤ x.last)
    (hheight : heightAt? code (a + c.conditionSize + n) = some 0) :
    Enclosed code x a (a + c.conditionSize + 1) := by
  have hcond : Enclosed code x a _ := .of_computes hat.left c.computes_conditionCode
  have hjump := hat.right
  rw [Expr.length_conditionCode] at hcond hjump
  have htarget : ((a + c.conditionSize : Nat) : Int) + (forward n).toInt
      = (a + c.conditionSize + n : Nat) := by
    rw [toInt_forward hn]
    rfl
  have hbefore : x.first ≤ a + c.conditionSize + n := by omega
  rcases hop with rfl | rfl
  · exact hcond.trans (.jump hjump.head rfl (fun h => by cases h) hnext htarget hbefore
      hlast hheight fun _ h => by cases h)
  · exact hcond.trans (.jump hjump.head rfl (fun h => by cases h) hnext htarget hbefore
      hlast hheight fun _ h => by cases h)

theorem LoopKind.enclosed_test (kind : LoopKind) {rest : Nat}
    (hat : CodeAt code a (kind.testCode i base rest))
    (hmet : ∀ d ∈ kind.countDemands base, i.Meets d)
    (hrest : kind.testSize ≠ 0 → rest + 1 < 2147483648) (hlow : x.low ≤ base)
    (hhigh : base + kind.slots ≤ x.high) (ha : heightAt? code a = some 0)
    (hnext : heightAt? code (a + kind.testSize) = some 0) (hfirst : x.first ≤ a)
    (hlast : a + kind.testSize + rest ≤ x.last)
    (hheight : heightAt? code (a + kind.testSize + rest) = some 0) :
    Enclosed code x a (a + kind.testSize) := by
  cases kind with
  | times count =>
    simp only [countDemands, List.forall_mem_append, List.forall_mem_cons] at hmet
    have htarget : (a : Int) + (forward (rest + 1)).toInt = (a + 1 + rest : Nat) := by
      rw [toInt_forward (hrest (by simp [testSize]))]
      push_cast
      omega
    refine Enclosed.jump hat.head rfl (fun _ => ha) hnext htarget (by omega) hlast hheight
      fun c hc => ?_
    cases hc
    rw [toNat_localSlot hmet.2.2.1]
    exact ⟨hlow, hhigh⟩
  | forever => exact .refl
  | «until» c | waitUntil c =>
    rw [testSize, ← Nat.add_assoc] at hnext hheight hlast ⊢
    rw [Nat.add_assoc _ 1, Nat.add_comm 1] at hheight hlast
    exact c.enclosed_conditionJump hat (Or.inr rfl) (hrest (by simp [testSize])) hnext hfirst
      hlast hheight
  | «while» c =>
    rw [testSize, ← Nat.add_assoc] at hnext hheight hlast ⊢
    rw [Nat.add_assoc _ 1, Nat.add_comm 1] at hheight hlast
    exact c.enclosed_conditionJump hat (Or.inl rfl) (hrest (by simp [testSize])) hnext hfirst
      hlast hheight

namespace Stmt

variable {s : CodeSettings}

theorem enclosed_deadlineStart {warpSafe : Bool} {slot : Nat}
    (hat : CodeAt code a (deadlineStart s warpSafe slot)) (ha : heightAt? code a = some 0)
    (hslot : s.checksDeadline warpSafe = true → slot < 65535 ∧ x.low ≤ slot ∧ slot < x.high) :
    Enclosed code x a (a + 2 * s.deadlineSlots warpSafe) := by
  unfold deadlineStart at hat
  unfold CodeSettings.deadlineSlots
  split at hat
  · next hchecks =>
    obtain ⟨hlt, hlow, hhigh⟩ := hslot hchecks
    have hpush : Enclosed code x a (a + 1) := .pause hat.head ha
    rw [if_pos hchecks]
    exact hpush.trans (.storeLocal hat.tail.head hlt hlow hhigh)
  · next hchecks =>
    rw [if_neg hchecks]
    exact .refl

theorem enclosed_roundEnd {warpSafe : Bool} {slot : Nat} {interval : UInt32}
    (hat : CodeAt code a (roundEnd s warpSafe slot interval)) (ha : heightAt? code a = some 0)
    (hslot : s.checksDeadline warpSafe = true → slot < 65535 ∧ x.low ≤ slot ∧ slot < x.high) :
    Enclosed code x a (a + s.roundEndSize warpSafe) := by
  unfold roundEnd at hat
  unfold CodeSettings.roundEndSize
  split at hat
  · next hwarp =>
    rw [if_pos hwarp]
    split at hat
    · next htimer =>
      obtain ⟨hlt, hlow, hhigh⟩ := hslot (by rw [CodeSettings.checksDeadline, hwarp, htimer]; rfl)
      rw [if_pos htimer]
      refine .one hat.head ⟨fun _ => ha, fun _ h => (by cases h), fun c hc => ?_⟩
      cases hc
      rw [toNat_localSlot hlt]
      exact ⟨hlow, hhigh⟩
    · next htimer =>
      rw [if_neg htimer]
      exact .refl
  · next hwarp =>
    rw [if_neg hwarp]
    exact .pause hat.head ha

/-- The end of a piece that begins and ends on an empty stack. -/
theorem heightAt?_length {piece : List Instr} (hat : CodeAt code a piece)
    (ha : heightAt? code a = some 0) (hpiece : Instr.climb 0 piece = some 0) {n : Nat}
    (hn : piece.length = n) :
    heightAt? code (a + n) = some 0 := by
  rw [← hn, hat.heightAt?_add ha, hpiece]

/-- A branch keeps to itself, if its stacks do. -/
theorem enclosed_branch {c : Expr} {yes no : List Stmt}
    (hat : CodeAt code a (Stmt.code s i base (.branch c yes no)))
    (hmet : ∀ d ∈ demands s base (.branch c yes no), i.Meets d) (ha : heightAt? code a = some 0)
    (hx : x.Covers a (size s (.branch c yes no)) base (slots s (.branch c yes no)))
    (hstack : ∀ {ts : List Stmt} {base a : Nat}, ts = yes ∨ ts = no →
      CodeAt code a (allCode s i base ts) → (∀ d ∈ allDemands s base ts, i.Meets d) →
      heightAt? code a = some 0 →
      x.Covers a (allSize s ts) base (allSlots s ts) → Enclosed code x a (a + allSize s ts)) :
    Enclosed code x a (a + size s (.branch c yes no)) := by
  have hend := heightAt?_length hat ha (climb_code _ hmet) (length_code s i base _)
  simp only [demands, List.forall_mem_append] at hmet
  obtain ⟨⟨hcond, hyes⟩, hno⟩ := hmet
  obtain ⟨hfirst, hlast, hlow, hhigh⟩ := hx
  rw [slots] at hhigh
  have htested : ∀ {offset}, CodeAt code a (c.conditionCode i ++ [.jumpIfFalse offset]) →
      heightAt? code (a + c.conditionSize + 1) = some 0 := by
    intro offset hcondAt
    have hlength : (c.conditionCode i ++ [Instr.jumpIfFalse offset]).length
        = c.conditionSize + 1 := by
      rw [List.length_append, Expr.length_conditionCode, List.length_singleton]
    refine heightAt?_length hcondAt ha ?_ hlength
    rw [Instr.climb_append, c.climb_conditionCode hcond]
    rfl
  rw [size] at hend hlast ⊢
  cases hempty : no.isEmpty with
  | true =>
    obtain ⟨hcondAt, hyesAt⟩ := branchAt_of_isEmpty hempty hat
    have hnext := htested hcondAt
    simp only [hempty, if_true, List.forall_mem_singleton, Nat.add_zero] at hno hend hlast ⊢
    have hsize : a + (c.conditionSize + 1 + allSize s yes)
        = a + c.conditionSize + (allSize s yes + 1) := by
      omega
    rw [hsize] at hend hlast
    have hcondIn : Enclosed code x _ _ :=
      c.enclosed_conditionJump hcondAt (Or.inl rfl) hno hnext hfirst hlast hend
    have hyesIn := hstack (Or.inl rfl) hyesAt hyes hnext ⟨by omega, by omega, hlow, by omega⟩
    have hall := hcondIn.trans hyesIn
    rwa [Nat.add_assoc a, Nat.add_assoc a] at hall
  | false =>
    obtain ⟨hcondAt, hyesAt, hjump, hnoAt⟩ := branchAt_of_not_isEmpty hempty hat
    have hnext := htested hcondAt
    simp only [hempty, Bool.false_eq_true, if_false, List.forall_mem_cons, List.forall_mem_append]
      at hno hend hlast ⊢
    obtain ⟨hforward, hnoMet, hover, -⟩ := hno
    -- The condition jumps over the first stack, and the first stack over the second one.
    have hafter := heightAt?_length hyesAt hnext (climb_allCode yes hyes) (length_allCode s i _ yes)
    have hsecond : heightAt? code (a + c.conditionSize + 1 + allSize s yes + 1) = some 0 :=
      heightAt?_succ hjump hafter
    have htarget : a + c.conditionSize + (allSize s yes + 2)
        = a + c.conditionSize + 1 + allSize s yes + 1 := by
      omega
    have hsize : a + (c.conditionSize + 1 + allSize s yes + (1 + allSize s no))
        = a + c.conditionSize + 1 + allSize s yes + 1 + allSize s no := by
      omega
    rw [hsize] at hend hlast ⊢
    have hcondIn : Enclosed code x _ _ :=
      c.enclosed_conditionJump hcondAt (Or.inl rfl) hforward hnext hfirst (by omega)
      (htarget ▸ hsecond)
    have hyesIn := hstack (Or.inl rfl) hyesAt hyes hnext ⟨by omega, by omega, hlow, by omega⟩
    have hlength : ((a + c.conditionSize + 1 + allSize s yes : Nat) : Int)
        + (forward (allSize s no + 1)).toInt
        = (a + c.conditionSize + 1 + allSize s yes + 1 + allSize s no : Nat) := by
      rw [toInt_forward hover]
      omega
    have hjumpIn :=
      Enclosed.jump (x := x) hjump rfl (fun _ => hafter) hsecond hlength (by omega) hlast hend
      fun _ h => (by cases h)
    have hnoIn := hstack (Or.inr rfl) hnoAt hnoMet hsecond ⟨by omega, by omega, by omega, by omega⟩
    exact ((hcondIn.trans hyesIn).trans hjumpIn).trans hnoIn

/-- A loop keeps to itself, if its body does. -/
theorem enclosed_loop {kind : LoopKind} {body : List Stmt} {warpSafe : Bool} {interval : UInt32}
    (hat : CodeAt code a (Stmt.code s i base (.loop kind body warpSafe interval)))
    (hmet : ∀ d ∈ demands s base (.loop kind body warpSafe interval), i.Meets d)
    (ha : heightAt? code a = some 0)
    (hx : x.Covers a (size s (.loop kind body warpSafe interval)) base
      (slots s (.loop kind body warpSafe interval)))
    (hstack : ∀ {base a : Nat}, CodeAt code a (allCode s i base body) →
      (∀ d ∈ allDemands s base body, i.Meets d) → heightAt? code a = some 0 →
      x.Covers a (allSize s body) base (allSlots s body) → Enclosed code x a (a + allSize s body)) :
    Enclosed code x a (a + size s (.loop kind body warpSafe interval)) := by
  have hend := heightAt?_length hat ha (climb_code _ hmet) (length_code s i base _)
  have hloop := loopAt hat
  simp only [demands, List.forall_mem_append, List.forall_mem_cons] at hmet
  obtain ⟨⟨⟨⟨hcount, hdeadline⟩, htest⟩, hbody⟩, hback, hexit⟩ := hmet
  obtain ⟨hfirst, hlast, hlow, hhigh⟩ := hx
  rw [slots] at hhigh
  -- The heights at the joints of the loop.
  have hcounted := heightAt?_length hloop.countAt ha (kind.climb_countCode base hcount)
    (kind.length_countCode i base)
  have hstarted := heightAt?_length hloop.deadlineAt hcounted (climb_deadlineStart _ _)
    (length_deadlineStart s warpSafe _)
  have htested := heightAt?_length hloop.testAt hstarted (kind.climb_testCode base _ htest)
    (kind.length_testCode i base _)
  have hdone :=
    heightAt?_length hloop.bodyAt htested (climb_allCode body hbody) (length_allCode s i _ body)
  have hrounded := heightAt?_length hloop.roundEndAt hdone (climb_roundEnd _ _ _)
    (length_roundEnd s warpSafe _ interval)
  have hsize : a + size s (.loop kind body warpSafe interval)
      = a + kind.countSize + 2 * s.deadlineSlots warpSafe + kind.testSize
        + (allSize s body + s.roundEndSize warpSafe) + 1 := by
    rw [size]
    omega
  rw [hsize] at hend hlast ⊢
  rw [Nat.add_assoc _ (allSize s body)] at hrounded
  have hslot : s.checksDeadline warpSafe = true → base + kind.slots < 65535
      ∧ x.low ≤ base + kind.slots ∧ base + kind.slots < x.high := by
    intro hchecks
    rw [if_pos hchecks] at hdeadline
    rw [CodeSettings.deadlineSlots, if_pos hchecks] at hhigh
    exact ⟨hdeadline _ (List.mem_singleton.mpr rfl), by omega, by omega⟩
  -- A loop without a test has no jump out of it, and nothing is demanded of its length.
  have hrest : kind.testSize ≠ 0 →
      allSize s body + s.roundEndSize warpSafe + 1 + 1 < 2147483648 := by
    intro hsome
    cases kind with
    | forever => exact absurd rfl hsome
    | times count | «until» c | «while» c | waitUntil c =>
      exact hexit _ (List.mem_singleton.mpr rfl)
  have hcountIn : Enclosed code x a (a + kind.countSize) :=
    kind.enclosed_count hloop.countAt hcount hlow (by omega)
  have hstartIn := enclosed_deadlineStart hloop.deadlineAt hcounted hslot
  have htestIn : Enclosed code x _ _ :=
    kind.enclosed_test hloop.testAt hcount hrest hlow (by omega) hstarted htested (by omega)
    hlast hend
  have hbodyIn := hstack hloop.bodyAt hbody htested ⟨by omega, by omega, by omega, by omega⟩
  have hendIn := enclosed_roundEnd hloop.roundEndAt hdone hslot
  have hlength : ((a + kind.countSize + 2 * s.deadlineSlots warpSafe + kind.testSize
        + (allSize s body + s.roundEndSize warpSafe) : Nat) : Int)
      + (backward (kind.testSize + (allSize s body + s.roundEndSize warpSafe))).toInt
      = (a + kind.countSize + 2 * s.deadlineSlots warpSafe : Nat) := by
    rw [toInt_backward hback]
    omega
  have hbackIn :=
    Enclosed.jump (x := x) hloop.backAt rfl (fun _ => hrounded) hend hlength (by omega) (by omega)
    hstarted fun _ h => (by cases h)
  rw [Nat.add_assoc _ (allSize s body)] at hendIn
  exact ((((hcountIn.trans hstartIn).trans htestIn).trans hbodyIn).trans hendIn).trans hbackIn

mutual

/-- **A statement keeps to itself.** -/
theorem enclosed_code : ∀ (t : Stmt) {base a : Nat}, CodeAt code a (t.code s i base) →
    (∀ d ∈ t.demands s base, i.Meets d) → heightAt? code a = some 0 →
    x.Covers a (size s t) base (slots s t) → Enclosed code x a (a + size s t)
  | .branch c yes no, base, a, hat, hmet, ha, hx => by
    refine enclosed_branch hat hmet ha hx fun hts hat' hmet' ha' hx' => ?_
    rcases hts with rfl | rfl
    · exact enclosed_allCode _ hat' hmet' ha' hx'
    · exact enclosed_allCode _ hat' hmet' ha' hx'
  | .loop kind body warpSafe interval, base, a, hat, hmet, ha, hx =>
    enclosed_loop hat hmet ha hx fun hat' hmet' ha' hx' => enclosed_allCode body hat' hmet' ha' hx'
  | .call key args yieldFirst, base, a, hat, hmet, ha, _ => by
    rw [← length_code s i base]
    rw [Stmt.code, List.append_assoc] at hat ⊢
    have hyield :
        Enclosed code x a (a + (if yieldFirst then [Instr.yield .soft] else []).length) := by
      cases yieldFirst with
      | true => exact .pause hat.head ha
      | false => exact .refl
    have hcall : Enclosed code x _ _ := .of_isPlain hat.right (by
      rw [List.forall_mem_append, List.forall_mem_singleton]
      exact ⟨fun op hop => Instr.isPlain_of_computes (Expr.computes_allCode args op hop), rfl⟩)
    rw [List.length_append, ← Nat.add_assoc]
    exact hyield.trans hcall
  | .set name e, base, a, hat, _, _, _ => by
    rw [← length_code s i base]
    refine .of_isPlain hat ?_
    rw [Stmt.code, List.forall_mem_append, List.forall_mem_singleton]
    exact ⟨fun op hop => Instr.isPlain_of_computes (e.computes_code op hop), rfl⟩
  | .change name e, base, a, hat, _, _, _ => by
    rw [← length_code s i base]
    refine .of_isPlain hat ?_
    rw [Stmt.code, List.forall_mem_cons, List.forall_mem_append, List.forall_mem_cons,
      List.forall_mem_singleton]
    exact ⟨rfl, fun op hop => Instr.isPlain_of_computes (e.computes_code op hop), rfl, rfl⟩
  | .wait e, base, a, hat, hmet, ha, _ => by
    rw [demands, List.forall_mem_append] at hmet
    have hsplit : Stmt.code s i base (.wait e)
        = (e.code i ++ [i.callSupport .waitDuration 1, .startTimer])
          ++ [.yield .frame, .waitTimer] := by
      rw [Stmt.code, List.append_assoc]
      rfl
    rw [hsplit] at hat
    have hstart : Enclosed code x _ _ := .of_isPlain hat.left (by
      rw [List.forall_mem_append, List.forall_mem_cons, List.forall_mem_singleton]
      exact ⟨fun op hop => Instr.isPlain_of_computes (e.computes_code op hop), rfl, rfl⟩)
    have hstarted := heightAt?_length hat.left ha (by
      rw [Instr.climb_append, Expr.climb_code e 0 hmet.1]
      exact i.climb_callSupport .waitDuration (by decide) 0 _) rfl
    have hyield := Enclosed.pause (x := x) hat.right.head hstarted
    have hwait :=
      Enclosed.pause (x := x) hat.right.tail.head (heightAt?_succ hat.right.head hstarted)
    have hall := (hstart.trans hyield).trans hwait
    rwa [List.length_append, Expr.length_code, Nat.add_assoc, Nat.add_assoc, Nat.add_assoc] at hall
  | .host opcode args, base, a, hat, _, _, _ => by
    rw [← length_code s i base]
    refine .of_isPlain hat ?_
    rw [Stmt.code, List.forall_mem_append, List.forall_mem_cons, List.forall_mem_singleton]
    exact ⟨fun op hop => Instr.isPlain_of_computes (Expr.computes_allCode args op hop), rfl, rfl⟩
  | .done, base, a, hat, _, ha, _ => .pause hat.head ha
  | .escape block opcode inputs, base, a, hat, _, _, _ => by
    rw [← length_code s i base]
    refine .of_isPlain hat ?_
    rw [Stmt.code, List.forall_mem_append, List.forall_mem_cons, List.forall_mem_singleton]
    exact ⟨fun op hop => Instr.isPlain_of_computes (Expr.computes_inputCode inputs op hop),
      rfl, rfl⟩

theorem enclosed_allCode : ∀ (ts : List Stmt) {base a : Nat}, CodeAt code a (allCode s i base ts) →
    (∀ d ∈ allDemands s base ts, i.Meets d) → heightAt? code a = some 0 →
    x.Covers a (allSize s ts) base (allSlots s ts) → Enclosed code x a (a + allSize s ts)
  | [], base, a, _, _, _, _ => .refl
  | t :: ts, base, a, hat, hmet, ha, hx => by
    rw [allCode] at hat
    rw [allDemands, List.forall_mem_append] at hmet
    have hat' := length_code s i base t ▸ hat.right
    have ha' := heightAt?_length hat.left ha (climb_code t hmet.1) (length_code s i base t)
    obtain ⟨hfirst, hlast, hlow, hhigh⟩ := hx
    rw [allSize] at hlast ⊢
    rw [allSlots] at hhigh
    rw [← Nat.add_assoc]
    exact (enclosed_code t hat.left hmet.1 ha ⟨hfirst, by omega, hlow, by omega⟩).trans
      (enclosed_allCode ts hat' hmet.2 ha' ⟨by omega, by omega, by omega, by omega⟩)

end

end Stmt

end

/-- **The pass over the code of a compiled routine ends on an empty stack, and the code keeps to
itself**, whatever the routine is. -/
theorem Routine.enclosed_of_compile {r : Routine} {p : Program} {config : CompilerConfig}
    {image : Image} (h : r.compile p config = .ok image) :
    Instr.climb 0 image.ops = some 0
      ∧ ∃ last high, last + 1 = image.ops.length
        ∧ Enclosed image.ops ⟨0, last, 0, high⟩ 0 (last + 1) := by
  obtain ⟨rfl, -, hmet⟩ := compile_eq_ok h
  have hat :
      CodeAt (r.code config) 0 (Stmt.allCode (r.settings config) (r.imports config) 0 r.stack) :=
    .whole _ _
  have hclimb := Stmt.climb_allCode r.stack hmet
  have hlength := Stmt.length_allCode (r.settings config) (r.imports config) 0 r.stack
  have hend := Stmt.heightAt?_length hat (heightAt?_zero _) hclimb hlength
  have hret : (r.code config)[0 + Stmt.allSize (r.settings config) r.stack]? = some .ret := by
    rw [Nat.zero_add, code, ← hlength, List.getElem?_concat_length]
  refine ⟨?_, Stmt.allSize (r.settings config) r.stack,
    Stmt.allSlots (r.settings config) r.stack, ?_, ?_⟩
  · rw [image, code, Instr.climb_append, hclimb]
    rfl
  · rw [image, code, List.length_append, hlength, List.length_singleton]
  · have hstack := Stmt.enclosed_allCode (x := ⟨0, Stmt.allSize (r.settings config) r.stack, 0,
        Stmt.allSlots (r.settings config) r.stack⟩) r.stack hat hmet (heightAt?_zero _)
      ⟨Nat.le_refl _, Nat.le_of_eq (Nat.zero_add _), Nat.le_refl _, Nat.le_of_eq (Nat.zero_add _)⟩
    have hall := hstack.trans (.pause hret hend)
    rwa [Nat.zero_add] at hall

end BlockScript
