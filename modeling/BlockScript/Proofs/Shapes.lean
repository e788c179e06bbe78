import BlockScript.Proofs.Layout

/-!
# Shapes on the stack

Compiled code is read once from its first instruction to its last, without regard to jumps, keeping
the shapes of the values that are on the stack (`CodeScope.shapesAt`). Code is *fine* at a position
if the instruction there finds on the stack what it needs, has indices inside the tables, and jumps
only to positions where the stack is empty, from such a position (`Instr.FineAt`).

Main statement: the code of a routine that fits into a program is fine everywhere
(`Routine.fine_code`). Statements begin and end on an empty stack, and an expression leaves one
value more, whose shape is boolean if the shape of the expression is.
-/

namespace BlockScript

/-! ## Shapes of values -/

/-- What is known of the answer of a support function. -/
def Support.shape : Support → Shape
  | compareEqual | compareGreaterThan | compareLessThan | toBoolean | contains | not | and | or =>
    .boolean
  | toString | join | letterOf => .text
  | _ => .number

theorem UnaryOp.shape_support (op : UnaryOp) : op.support.shape = op.shape := by
  cases op <;> rfl

theorem BinaryOp.shape_support (op : BinaryOp) : op.support.shape = op.shape := by
  cases op <;> rfl

theorem UnaryOp.arity_support (op : UnaryOp) : op.support.arity = 1 := by
  cases op <;> rfl

theorem BinaryOp.arity_support (op : BinaryOp) : op.support.arity = 2 := by
  cases op <;> rfl

/-- The value is of the kind that the shape says; only truth values and numbers are told apart. -/
def Value.HasShape (v : Value) : Shape → Prop
  | .boolean => ∃ b, v = .bool b
  | .number => ∃ n, v = .number n
  | _ => True

theorem Value.hasShape_shape (v : Value) : v.HasShape v.shape := by
  cases v <;> simp [HasShape, Value.shape]

theorem Support.hasShape_apply (f : Support) (args : List Value) :
    (f.apply args).HasShape f.shape := by
  cases f <;> simp [Value.HasShape, shape, apply, apply₂]

/-- The value is a truth value if the shape says so. -/
def Value.Honours (v : Value) (shape : Shape) : Prop := shape = .boolean → ∃ b, v = .bool b

/-- What is related one by one is related at each position. -/
theorem exists_getElem?_of_forall₂ {α β : Type} {R : α → β → Prop} {as : List α} {bs : List β}
    (h : List.Forall₂ R as bs) {n : Nat} {a : α} (ha : as[n]? = some a) :
    ∃ b, bs[n]? = some b ∧ R a b := by
  induction h generalizing n with
  | nil => simp at ha
  | cons hab _ ih =>
    cases n with
    | zero =>
      simp only [List.getElem?_cons_zero, Option.some.injEq] at ha
      exact ⟨_, rfl, ha ▸ hab⟩
    | succ n => exact ih (by simpa using ha)

/-- A value of the second shape may stand where the first is expected: where a truth value is
expected, it is known to be one. -/
def Shape.Suits (expected found : Shape) : Prop := expected = .boolean → found = .boolean

theorem Shape.suits_of_widen {a b : Shape} (h : a.widen = b) : b.Suits a := by
  rintro rfl
  cases a <;> simp_all [Shape.widen]

/-! ## The scan -/

/-- What the code of a routine refers to: its tables, the shapes of its arguments, and the number of
its local slots. -/
structure CodeScope where
  imports : Imports
  args : List Shape
  slots : Nat

namespace CodeScope

/-- The shape of the value that an instruction leaves on the stack, if it leaves one. -/
def result? (x : CodeScope) : Instr → Option Shape
  | .push v => some v.shape
  | .loadArg n => some (x.args[n.toNat]?.getD .unknown)
  | .callSupport n _ => some ((x.imports.support[n.toNat]?.map Support.shape).getD .unknown)
  | .loadLocal _ | .getVariable _ | .callHost _ _ | .escape _ _ _ => some .unknown
  | _ => none

/-- The shapes on the stack after an instruction, the latest first. -/
def scan (x : CodeScope) (st : List Shape) (op : Instr) : List Shape :=
  (x.result? op).toList ++ st.drop op.effect.1

/-- The shapes on the stack before the instruction at a position, the latest first. -/
def shapesAt (x : CodeScope) (code : List Instr) (pc : Nat) : List Shape :=
  (code.take pc).foldl x.scan []

theorem length_result? (x : CodeScope) (op : Instr) :
    (x.result? op).toList.length = op.effect.2 := by
  cases op <;> rfl

theorem result?_eq_none (x : CodeScope) {op : Instr} (h : op.effect.2 = 0) :
    x.result? op = none := by
  have hlen := x.length_result? op
  rw [h] at hlen
  exact Option.toList_eq_nil_iff.mp (List.length_eq_zero_iff.mp hlen)

theorem shapesAt_zero (x : CodeScope) (code : List Instr) : x.shapesAt code 0 = [] := by
  simp [shapesAt]

theorem shapesAt_succ (x : CodeScope) {code : List Instr} {pc : Nat} {op : Instr}
    (h : code[pc]? = some op) : x.shapesAt code (pc + 1) = x.scan (x.shapesAt code pc) op := by
  simp [shapesAt, List.take_add_one, h]

end CodeScope

/-! ## Fine code -/

namespace Instr

/-- The instruction expects an empty stack. -/
def expectsEmpty : Instr → Bool
  | jump _ | countdown _ _ | yield _ | checkDeadline _ _ | waitTimer | ret => true
  | _ => false

/-- The operands of the instruction lie inside the tables, and the shapes on the stack, the latest
first, are those that it needs. -/
def OperandsFine (x : CodeScope) (st : List Shape) : Instr → Prop
  | .loadArg n => n.toNat < x.args.length
  | .loadLocal n | .countdown n _ => n.toNat < x.slots
  | .storeLocal n => n.toNat < x.slots ∧ st.head? = some .number
  | .checkDeadline n interval => n.toNat < x.slots ∧ interval ≠ 0
  | .callSupport n argc => ∃ f, x.imports.support[n.toNat]? = some f ∧ f.arity = argc.toNat
  | .callHost n _ => n.toNat < x.imports.host.length
  | .callProcedure n argc =>
    ∃ key, x.imports.procedures[n.toNat]? = some key ∧ key.signature.length = argc.toNat
      ∧ List.Forall₂ Shape.Suits key.signature (st.take argc.toNat).reverse
  | .jumpIfFalse _ | .jumpIfTrue _ => st.head? = some .boolean
  | _ => True

/-- The instruction can be executed at its position without a fault. -/
structure FineAt (x : CodeScope) (code : List Instr) (pc : Nat) (op : Instr) : Prop where
  height : op.effect.1 ≤ (x.shapesAt code pc).length
  operands : op.OperandsFine x (x.shapesAt code pc)
  empty : op.expectsEmpty = true → x.shapesAt code pc = []
  jump : ∀ offset, op.jumpOffset? = some offset → ∃ target : Nat, (pc : Int) + offset.toInt = target
    ∧ target < code.length ∧ x.shapesAt code target = [] ∧ x.shapesAt code (pc + 1) = []

end Instr

/-- From position `a` on the stack of shapes `st` the code is fine up to position `b`, where the
shapes are `st'`. -/
structure Stretch (x : CodeScope) (code : List Instr) (a : Nat) (st : List Shape) (b : Nat)
    (st' : List Shape) : Prop where
  before : x.shapesAt code a = st
  after : x.shapesAt code b = st'
  fine : ∀ pc op, a ≤ pc → pc < b → code[pc]? = some op → op.FineAt x code pc

namespace Stretch

variable {x : CodeScope} {code : List Instr} {a b c : Nat} {st st' st'' : List Shape} {op : Instr}

theorem refl (h : x.shapesAt code a = st) : Stretch x code a st a st :=
  ⟨h, h, fun _ _ ha hb => absurd ha (by omega)⟩

theorem trans (h : Stretch x code a st b st') (h' : Stretch x code b st' c st'') :
    Stretch x code a st c st'' := by
  refine ⟨h.before, h'.after, fun pc op ha hc hop => ?_⟩
  rcases Nat.lt_or_ge pc b with hb | hb
  · exact h.fine pc op ha hb hop
  · exact h'.fine pc op hb hc hop

/-- One instruction. -/
theorem one (hop : code[a]? = some op) (hst : x.shapesAt code a = st)
    (height : op.effect.1 ≤ st.length) (operands : op.OperandsFine x st)
    (empty : op.expectsEmpty = true → st = [])
    (jump : ∀ offset, op.jumpOffset? = some offset →
      ∃ target : Nat, (a : Int) + offset.toInt = target ∧ target < code.length
        ∧ x.shapesAt code target = [] ∧ x.scan st op = []) :
    Stretch x code a st (a + 1) (x.scan st op) := by
  subst hst
  have hsucc := x.shapesAt_succ hop
  refine ⟨rfl, hsucc, fun pc op' ha hb hop' => ?_⟩
  obtain rfl : pc = a := by omega
  obtain rfl : op = op' := by rw [hop] at hop'; exact Option.some.inj hop'
  exact ⟨height, operands, empty, hsucc ▸ jump⟩

/-- One instruction that does not jump and may find values on the stack. -/
theorem plain (hop : code[a]? = some op) (hst : x.shapesAt code a = st)
    (height : op.effect.1 ≤ st.length) (operands : op.OperandsFine x st)
    (hempty : op.expectsEmpty = false := by rfl) (hjump : op.jumpOffset? = none := by rfl) :
    Stretch x code a st (a + 1) (x.scan st op) :=
  one hop hst height operands (by simp [hempty]) (by simp [hjump])

end Stretch

/-! ## Expressions -/

namespace CodeScope

variable {x : CodeScope} {code : List Instr} {a : Nat} {st : List Shape}

/-- The call of a support function takes its arguments from the stack and leaves its answer. -/
theorem stretch_callSupport {f : Support} {n : Nat} (hn : n < 65536) (hf : f.arity = n)
    (hmeets : x.imports.Meets (.support f)) (hop : CodeAt code a [x.imports.callSupport f n])
    {l : List Shape} (hlen : l.length = n) (hst : x.shapesAt code a = l ++ st) :
    Stretch x code a (l ++ st) (a + 1) (f.shape :: st) := by
  have htoNat : (UInt16.ofNat n).toNat = n := by simp; omega
  have h := Stretch.plain (x := x) hop.head hst
    (by simp [Imports.callSupport, Instr.effect, hlen]; omega) ⟨f, hmeets, by rw [htoNat, hf]⟩
  have hscan : x.scan (l ++ st) (x.imports.callSupport f n) = f.shape :: st := by
    have hfind : x.imports.support[(UInt16.ofNat (x.imports.support.idxOf f)).toNat]? = some f :=
      hmeets
    simp only [scan, Imports.callSupport, result?, Instr.effect, hfind, htoNat]
    simp [← hlen]
  rwa [hscan] at h

/-- The call of a primitive takes its arguments from the stack and leaves its answer. -/
theorem stretch_callHost {opcode : String} {n : Nat} (hn : x.imports.Meets (.arguments n))
    (hmeets : x.imports.Meets (.host opcode)) (hop : CodeAt code a [x.imports.callHost opcode n])
    {l : List Shape} (hlen : l.length = n) (hst : x.shapesAt code a = l ++ st) :
    Stretch x code a (l ++ st) (a + 1) (.unknown :: st) := by
  have htoNat : (UInt16.ofNat n).toNat = n := by simp; exact hn
  have h := Stretch.plain (x := x) hop.head hst
    (by simp [Imports.callHost, Instr.effect, hlen]; omega)
    (List.getElem?_eq_some_iff.mp hmeets).1
  have hscan : x.scan (l ++ st) (x.imports.callHost opcode n) = .unknown :: st := by
    simp only [scan, Imports.callHost, result?, Instr.effect, htoNat]
    simp [← hlen]
  rwa [hscan] at h

/-- A block that the host runs takes its inputs from the stack and leaves its answer. -/
theorem stretch_escape {block : BlockId} {opcode : String} {names : List String}
    (hop : CodeAt code a [.escape block opcode names]) {l : List Shape}
    (hlen : l.length = names.length) (hst : x.shapesAt code a = l ++ st) :
    Stretch x code a (l ++ st) (a + 1) (.unknown :: st) := by
  have h := Stretch.plain (x := x) hop.head hst (by simp [Instr.effect, hlen]) trivial
  have hscan : x.scan (l ++ st) (.escape block opcode names) = .unknown :: st := by
    simp only [scan, result?, Instr.effect, ← hlen]
    simp
  rwa [hscan] at h

end CodeScope

namespace Expr

variable {x : CodeScope} {code : List Instr}

mutual

/-- **The code of an expression leaves one value more**, of boolean shape if the expression is. -/
theorem stretch_code : ∀ (e : Expr) {a : Nat} {st : List Shape}, CodeAt code a (e.code x.imports) →
    (∀ d ∈ e.demands, x.imports.Meets d) → (∀ n ∈ e.nodes, n.ScopedIn x.args) →
    x.shapesAt code a = st →
    ∃ shape, e.shape.Suits shape ∧ Stretch x code a st (a + e.size) (shape :: st)
  | .const v, a, st, hat, _, _, hst => by
    rw [Expr.code] at hat
    exact ⟨v.shape, fun h => h, Stretch.plain hat.head hst (Nat.zero_le _) trivial⟩
  | .arg index shape, a, st, hat, _, hscope, hst => by
    rw [Expr.code] at hat
    have hshape : x.args[index.toNat]? = some shape := hscope _ (self_mem_nodes _)
    have h := Stretch.plain (x := x) hat.head hst (Nat.zero_le _)
      (List.getElem?_eq_some_iff.mp hshape).1
    refine ⟨shape, fun h => h, ?_⟩
    simpa [CodeScope.scan, CodeScope.result?, Instr.effect, hshape, size] using h
  | .var name, a, st, hat, _, _, hst => by
    rw [Expr.code] at hat
    exact ⟨.unknown, fun h => h, Stretch.plain hat.head hst (Nat.zero_le _) trivial⟩
  | .unary op e, a, st, hat, hmeets, hscope, hst => by
    rw [Expr.code] at hat
    simp only [demands, List.mem_append, List.mem_singleton] at hmeets
    rw [nodes, List.forall_mem_cons] at hscope
    obtain ⟨shape, -, h⟩ := stretch_code e hat.left (fun d hd => hmeets d (Or.inl hd)) hscope.2 hst
    have hcall := CodeScope.stretch_callSupport (f := op.support) (l := [shape]) (by omega)
      op.arity_support (hmeets _ (Or.inr rfl)) (length_code x.imports e ▸ hat.right) rfl h.after
    refine ⟨op.shape, fun h => h, ?_⟩
    rw [op.shape_support] at hcall
    exact h.trans hcall
  | .binary op e₁ e₂, a, st, hat, hmeets, hscope, hst => by
    rw [Expr.code, List.append_assoc] at hat
    simp only [demands, List.mem_append, List.mem_singleton] at hmeets
    rw [nodes, List.forall_mem_cons, List.forall_mem_append] at hscope
    have hat₂ := length_code x.imports e₁ ▸ hat.right
    have hat₃ := length_code x.imports e₂ ▸ hat₂.right
    obtain ⟨shape₁, -, h₁⟩ := stretch_code e₁ hat.left
      (fun d hd => hmeets d (Or.inl (Or.inl hd))) hscope.2.1 hst
    obtain ⟨shape₂, -, h₂⟩ := stretch_code e₂ hat₂.left
      (fun d hd => hmeets d (Or.inl (Or.inr hd))) hscope.2.2 h₁.after
    have hcall := CodeScope.stretch_callSupport (f := op.support) (l := [shape₂, shape₁])
      (by omega) op.arity_support (hmeets _ (Or.inr rfl)) hat₃ rfl h₂.after
    refine ⟨op.shape, fun h => h, ?_⟩
    rw [op.shape_support] at hcall
    have hsize : a + (binary op e₁ e₂).size = a + e₁.size + e₂.size + 1 := by
      simp only [size]
      omega
    rw [hsize]
    exact (h₁.trans h₂).trans hcall
  | .host opcode args shape, a, st, hat, hmeets, hscope, hst => by
    rw [Expr.code] at hat
    simp only [demands, List.mem_append, List.mem_cons, List.not_mem_nil, or_false] at hmeets
    rw [nodes, List.forall_mem_cons] at hscope
    obtain ⟨shapes, hshapes, h⟩ := stretch_allCode args hat.left
      (fun d hd => hmeets d (Or.inl hd)) hscope.2 hst
    have hcall := CodeScope.stretch_callHost (hmeets _ (Or.inr (Or.inl rfl)))
      (hmeets _ (Or.inr (Or.inr rfl))) (length_allCode x.imports args ▸ hat.right)
      (by rw [List.length_reverse]; exact hshapes.length_eq.symm) h.after
    exact ⟨.unknown, fun hbool => absurd hbool hscope.1, h.trans hcall⟩
  | .escape block opcode inputs, a, st, hat, hmeets, hscope, hst => by
    rw [Expr.code] at hat
    rw [nodes, List.forall_mem_cons] at hscope
    obtain ⟨shapes, hlen, h⟩ := stretch_inputCode inputs hat.left hmeets hscope.2 hst
    have hcall := CodeScope.stretch_escape (length_inputCode x.imports inputs ▸ hat.right)
      (by simp [hlen]) h.after
    exact ⟨.unknown, fun hbool => (by cases hbool), h.trans hcall⟩

/-- The code of expressions leaves one value for each, the latest on top. -/
theorem stretch_allCode : ∀ (es : List Expr) {a : Nat} {st : List Shape},
    CodeAt code a (allCode x.imports es) → (∀ d ∈ allDemands es, x.imports.Meets d) →
    (∀ n ∈ allNodes es, n.ScopedIn x.args) → x.shapesAt code a = st →
    ∃ shapes, List.Forall₂ (fun e shape => e.shape.Suits shape) es shapes
      ∧ Stretch x code a st (a + allSize es) (shapes.reverse ++ st)
  | [], a, st, _, _, _, hst => ⟨[], .nil, .refl hst⟩
  | e :: es, a, st, hat, hmeets, hscope, hst => by
    rw [allCode] at hat
    rw [allDemands, List.forall_mem_append] at hmeets
    rw [allNodes, List.forall_mem_append] at hscope
    obtain ⟨shape, hshape, h⟩ := stretch_code e hat.left hmeets.1 hscope.1 hst
    obtain ⟨shapes, hshapes, h'⟩ := stretch_allCode es (length_code x.imports e ▸ hat.right)
      hmeets.2 hscope.2 h.after
    refine ⟨shape :: shapes, .cons hshape hshapes, ?_⟩
    rw [allSize, ← Nat.add_assoc]
    simpa using h.trans h'

/-- The code of named expressions leaves one value for each. -/
theorem stretch_inputCode : ∀ (inputs : List (String × Expr)) {a : Nat} {st : List Shape},
    CodeAt code a (inputCode x.imports inputs) → (∀ d ∈ inputDemands inputs, x.imports.Meets d) →
    (∀ n ∈ inputNodes inputs, n.ScopedIn x.args) → x.shapesAt code a = st →
    ∃ shapes : List Shape, shapes.length = inputs.length
      ∧ Stretch x code a st (a + inputSize inputs) (shapes ++ st)
  | [], a, st, _, _, _, hst => ⟨[], rfl, .refl hst⟩
  | (name, e) :: inputs, a, st, hat, hmeets, hscope, hst => by
    rw [inputCode] at hat
    rw [inputDemands, List.forall_mem_append] at hmeets
    rw [inputNodes, List.forall_mem_append] at hscope
    obtain ⟨shape, -, h⟩ := stretch_code e hat.left hmeets.1 hscope.1 hst
    obtain ⟨shapes, hlen, h'⟩ := stretch_inputCode inputs (length_code x.imports e ▸ hat.right)
      hmeets.2 hscope.2 h.after
    refine ⟨shapes ++ [shape], by simp [hlen], ?_⟩
    rw [inputSize, ← Nat.add_assoc]
    simpa using h.trans h'

end

/-- The code of a condition leaves a truth value. -/
theorem stretch_conditionCode (e : Expr) {a : Nat} {st : List Shape}
    (hat : CodeAt code a (e.conditionCode x.imports))
    (hmeets : ∀ d ∈ e.conditionDemands, x.imports.Meets d)
    (hscope : ∀ n ∈ e.nodes, n.ScopedIn x.args) (hst : x.shapesAt code a = st) :
    Stretch x code a st (a + e.conditionSize) (.boolean :: st) := by
  unfold conditionCode at hat
  unfold conditionDemands at hmeets
  unfold conditionSize
  split at hat
  · next hbool =>
    rw [if_pos hbool] at hmeets ⊢
    obtain ⟨shape, hshape, h⟩ := stretch_code e hat hmeets hscope hst
    rw [hshape (by simpa [Shape.isBoolean] using hbool)] at h
    exact h
  · next hbool =>
    rw [if_neg hbool] at hmeets ⊢
    simp only [List.mem_append, List.mem_singleton] at hmeets
    obtain ⟨shape, -, h⟩ := stretch_code e hat.left (fun d hd => hmeets d (Or.inl hd)) hscope hst
    exact h.trans (CodeScope.stretch_callSupport (f := .toBoolean) (l := [shape]) (n := 1)
      (by omega) rfl (hmeets _ (Or.inr rfl)) (length_code x.imports e ▸ hat.right) rfl h.after)

end Expr

/-! ## Loops -/

section Pieces

variable {x : CodeScope} {code : List Instr} {a : Nat}

/-- A condition and a jump on it, forward to a place where the stack is empty. That may be known
only because the stack is empty right after the jump. -/
theorem Expr.stretch_conditionJump (c : Expr) {op : Instr} {n : Nat}
    (hat : CodeAt code a (c.conditionCode x.imports ++ [op]))
    (hop : op = .jumpIfFalse (forward n) ∨ op = .jumpIfTrue (forward n)) (hn : n < 2147483648)
    (hmeets : ∀ d ∈ c.conditionDemands, x.imports.Meets d)
    (hscope : ∀ n ∈ c.nodes, n.ScopedIn x.args) (hst : x.shapesAt code a = [])
    (htarget : x.shapesAt code (a + c.conditionSize + 1) = [] →
      x.shapesAt code (a + c.conditionSize + n) = [])
    (hlen : a + c.conditionSize + n < code.length) :
    Stretch x code a [] (a + c.conditionSize + 1) [] := by
  have hc := Expr.stretch_conditionCode c hat.left hmeets hscope hst
  have hhead := (Expr.length_conditionCode x.imports c ▸ hat.right).head
  have hsucc := x.shapesAt_succ hhead
  refine hc.trans ?_
  rcases hop with rfl | rfl
  all_goals
    rw [hc.after] at hsucc
    refine Stretch.one hhead hc.after (Nat.le_refl 1) rfl (fun h => by cases h) fun offset ho => ?_
    cases ho
    exact ⟨a + c.conditionSize + n, by rw [toInt_forward hn]; rfl, hlen, htarget hsucc, rfl⟩

/-- An instruction that leaves an empty stack alone and does not jump. -/
theorem Stretch.idle {op : Instr} (hop : code[a]? = some op) (hst : x.shapesAt code a = [])
    (heffect : op.effect = (0, 0)) (operands : op.OperandsFine x [])
    (hjump : op.jumpOffset? = none) : Stretch x code a [] (a + 1) [] := by
  have h :=
    Stretch.one (x := x) hop hst (by simp [heffect]) operands (fun _ => rfl) (by simp [hjump])
  simpa [CodeScope.scan, x.result?_eq_none (congrArg Prod.snd heffect)] using h

/-- The value on an otherwise empty stack is taken away. -/
theorem Stretch.take {op : Instr} {shape : Shape} (hop : code[a]? = some op)
    (hst : x.shapesAt code a = [shape]) (heffect : op.effect = (1, 0) := by rfl)
    (operands : op.OperandsFine x [shape] := by trivial)
    (hempty : op.expectsEmpty = false := by rfl) (hjump : op.jumpOffset? = none := by rfl) :
    Stretch x code a [shape] (a + 1) [] := by
  have h := Stretch.plain (x := x) hop hst (by simp [heffect]) operands hempty hjump
  simpa [CodeScope.scan, x.result?_eq_none (congrArg Prod.snd heffect), heffect] using h

namespace LoopKind

theorem stretch_countCode (kind : LoopKind) {base : Nat}
    (hat : CodeAt code a (kind.countCode x.imports base))
    (hmeets : ∀ d ∈ kind.countDemands base, x.imports.Meets d)
    (hscope : ∀ n ∈ Expr.allNodes kind.exprs, n.ScopedIn x.args)
    (hslots : base + kind.slots ≤ x.slots) (hst : x.shapesAt code a = []) :
    Stretch x code a [] (a + kind.countSize) [] := by
  cases kind with
  | times count =>
    rw [countCode] at hat
    simp only [countDemands, List.mem_append, List.mem_cons, List.not_mem_nil, or_false] at hmeets
    rw [exprs, Expr.allNodes, List.forall_mem_append] at hscope
    have hslot : base < 65535 := hmeets _ (Or.inr (Or.inr rfl))
    have hcount : CodeAt code (a + count.size)
        ([x.imports.callSupport .repeatCount 1] ++ [.storeLocal (localSlot base)]) :=
      Expr.length_code x.imports count ▸ hat.right
    obtain ⟨shape, -, h⟩ := Expr.stretch_code count hat.left
      (fun d hd => hmeets d (Or.inl hd)) hscope.1 hst
    have hcall := CodeScope.stretch_callSupport (f := .repeatCount) (l := [shape]) (n := 1)
      (by omega) rfl (hmeets _ (Or.inr (Or.inl rfl))) hcount.left rfl h.after
    have hstore := Stretch.plain (x := x) hcount.tail.head hcall.after (Nat.le_refl 1)
      ⟨by rw [toNat_localSlot hslot]; simp only [slots] at hslots; omega, rfl⟩
    exact (h.trans hcall).trans hstore
  | forever | «until» c | «while» c | waitUntil c => exact .refl hst

/-- The test before a round of `round` instructions, if the stack is empty where it leaves for. -/
theorem stretch_testCode (kind : LoopKind) {base round : Nat}
    (hat : CodeAt code a (kind.testCode x.imports base (round + 1)))
    (hcount : ∀ d ∈ kind.countDemands base, x.imports.Meets d)
    (hmeets : ∀ d ∈ kind.testDemands, x.imports.Meets d)
    (hexit : ∀ d ∈ kind.exitDemands round, x.imports.Meets d)
    (hscope : ∀ n ∈ Expr.allNodes kind.exprs, n.ScopedIn x.args)
    (hslots : base + kind.slots ≤ x.slots) (hst : x.shapesAt code a = [])
    (hend : x.shapesAt code (a + kind.testSize) = [] →
      x.shapesAt code (a + kind.testSize + round + 1) = [])
    (hlen : a + kind.testSize + round + 1 < code.length) :
    Stretch x code a [] (a + kind.testSize) [] := by
  cases kind with
  | times count =>
    have hslot : base < 65535 := hcount (.slot base) (by simp [countDemands])
    have hround : round + 2 < 2147483648 := hexit _ (List.mem_singleton.mpr rfl)
    have hsucc := x.shapesAt_succ hat.head
    rw [hst] at hsucc
    refine Stretch.one hat.head hst (Nat.le_refl _) ?_ (fun _ => rfl) fun offset ho => ?_
    · rw [Instr.OperandsFine, toNat_localSlot hslot]
      simp only [slots] at hslots
      omega
    · cases ho
      refine ⟨a + (round + 2), by rw [toInt_forward hround]; rfl, ?_, ?_, rfl⟩
      · simp only [testSize] at hlen
        omega
      · rw [← hend hsucc, testSize]
        congr 1
        omega
  | forever => exact .refl hst
  | «until» c | waitUntil c | «while» c =>
    have htarget : a + c.conditionSize + (round + 2) = a + (c.conditionSize + 1) + round + 1 := by
      omega
    rw [exprs, Expr.allNodes, List.forall_mem_append] at hscope
    exact c.stretch_conditionJump hat (by simp) (hexit _ (List.mem_singleton.mpr rfl)) hmeets
      hscope.1 hst (htarget ▸ hend) (htarget ▸ hlen)

end LoopKind

namespace Stmt

variable {s : CodeSettings} {slot : Nat}

/-- A loop that looks at the deadline begins to count. -/
theorem stretch_deadlineStart {warpSafe : Bool}
    (hat : CodeAt code a (deadlineStart s warpSafe slot))
    (hmeets : ∀ d ∈ if s.checksDeadline warpSafe then [Demand.slot slot] else [], x.imports.Meets d)
    (hslots : slot + s.deadlineSlots warpSafe ≤ x.slots) (hst : x.shapesAt code a = []) :
    Stretch x code a [] (a + 2 * s.deadlineSlots warpSafe) [] := by
  unfold deadlineStart at hat
  unfold CodeSettings.deadlineSlots at hslots ⊢
  split at hat
  · next hchecks =>
    rw [if_pos hchecks] at hmeets hslots ⊢
    have hslot : slot < 65535 := hmeets _ (List.mem_singleton.mpr rfl)
    have hpush := Stretch.plain (x := x) hat.head hst (Nat.zero_le _) trivial
    have hstore := Stretch.plain (x := x) hat.tail.head hpush.after (Nat.le_refl 1)
      ⟨by rw [toNat_localSlot hslot]; omega, rfl⟩
    exact hpush.trans hstore
  · next hchecks =>
    rw [if_neg hchecks]
    exact .refl hst

/-- The deadline is never looked at every zero rounds. -/
theorem max_one_ne_zero (n : UInt32) : max n 1 ≠ 0 := by
  change (if n ≤ 1 then 1 else n) ≠ 0
  split
  · decide
  · next h =>
    rintro rfl
    exact h (by decide)

theorem stretch_roundEnd {warpSafe : Bool} {interval : UInt32}
    (hat : CodeAt code a (roundEnd s warpSafe slot interval))
    (hmeets : ∀ d ∈ if s.checksDeadline warpSafe then [Demand.slot slot] else [], x.imports.Meets d)
    (hslots : slot + s.deadlineSlots warpSafe ≤ x.slots) (hst : x.shapesAt code a = []) :
    Stretch x code a [] (a + s.roundEndSize warpSafe) [] := by
  unfold roundEnd at hat
  unfold CodeSettings.roundEndSize
  unfold CodeSettings.deadlineSlots CodeSettings.checksDeadline at hslots
  unfold CodeSettings.checksDeadline at hmeets
  split at hat
  · next hwarp =>
    rw [if_pos hwarp]
    split at hat
    · next htimer =>
      rw [if_pos htimer]
      rw [if_pos (by simp [hwarp, htimer])] at hmeets hslots
      have hslot : slot < 65535 := hmeets _ (List.mem_singleton.mpr rfl)
      exact Stretch.idle hat.head hst rfl
        ⟨by rw [toNat_localSlot hslot]; omega, max_one_ne_zero interval⟩ rfl
    · next htimer =>
      rw [if_neg htimer]
      exact .refl hst
  · next hwarp =>
    rw [if_neg hwarp]
    exact Stretch.idle hat.head hst rfl trivial rfl

/-- A loop, if its body takes an empty stack to an empty stack. -/
theorem stretch_loop {kind : LoopKind} {body : List Stmt} {warpSafe : Bool} {interval : UInt32}
    {base : Nat}
    (hat : CodeAt code a (Stmt.code s x.imports base (.loop kind body warpSafe interval)))
    (hlen : a + size s (.loop kind body warpSafe interval) < code.length)
    (hmeets : ∀ d ∈ demands s base (.loop kind body warpSafe interval), x.imports.Meets d)
    (hscope : ∀ n ∈ Expr.allNodes kind.exprs, n.ScopedIn x.args)
    (hslots : base + slots s (.loop kind body warpSafe interval) ≤ x.slots)
    (hst : x.shapesAt code a = [])
    (hbody : ∀ {b : Nat},
      CodeAt code b (allCode s x.imports (base + kind.slots + s.deadlineSlots warpSafe) body) →
      b + allSize s body < code.length → x.shapesAt code b = [] →
      Stretch x code b [] (b + allSize s body) []) :
    Stretch x code a [] (a + size s (.loop kind body warpSafe interval)) [] := by
  have hloop := loopAt hat
  simp only [demands, List.forall_mem_append, List.forall_mem_cons] at hmeets
  obtain ⟨⟨⟨⟨hcount, hdeadline⟩, htest⟩, -⟩, hback, hexit⟩ := hmeets
  simp only [slots] at hslots
  simp only [size] at hlen ⊢
  have hstart := kind.stretch_countCode hloop.countAt hcount hscope (by omega) hst
  have hzero := stretch_deadlineStart hloop.deadlineAt hdeadline (by omega) hstart.after
  -- From the empty stack at the beginning of a round follow all shapes up to the end of the loop.
  have hround := fun h => (hbody hloop.bodyAt (by omega) h).trans
    (stretch_roundEnd hloop.roundEndAt hdeadline (by omega) (hbody hloop.bodyAt (by omega) h).after)
  have hsucc := x.shapesAt_succ hloop.backAt
  have hleave := kind.stretch_testCode hloop.testAt hcount htest hexit hscope (by omega) hzero.after
    (fun h => by rw [hsucc, ← Nat.add_assoc, (hround h).after]; rfl) (by omega)
  have hend := hround hleave.after
  have hagain : Stretch x code _ [] _ [] := Stretch.one hloop.backAt
    (by rw [← Nat.add_assoc]; exact hend.after) (Nat.le_refl _) trivial
    (fun _ => rfl) fun offset ho => by
      cases ho
      refine ⟨_, ?_, by omega, hzero.after, rfl⟩
      rw [toInt_backward hback]
      omega
  rw [Nat.add_assoc _ (allSize s body)] at hend
  have hall := (((hstart.trans hzero).trans hleave).trans hend).trans hagain
  simpa only [Nat.add_assoc] using hall

/-- A branch, if both its stacks take an empty stack to an empty stack. -/
theorem stretch_branch {c : Expr} {yes no : List Stmt} {base : Nat}
    (hat : CodeAt code a (Stmt.code s x.imports base (.branch c yes no)))
    (hlen : a + size s (.branch c yes no) < code.length)
    (hmeets : ∀ d ∈ demands s base (.branch c yes no), x.imports.Meets d)
    (hscope : ∀ n ∈ c.nodes, n.ScopedIn x.args) (hst : x.shapesAt code a = [])
    (hyes : ∀ {b : Nat}, CodeAt code b (allCode s x.imports base yes) →
      b + allSize s yes < code.length → x.shapesAt code b = [] →
      Stretch x code b [] (b + allSize s yes) [])
    (hno : no.isEmpty = false → ∀ {b : Nat},
      CodeAt code b (allCode s x.imports (base + allSlots s yes) no) →
      b + allSize s no < code.length → x.shapesAt code b = [] →
      Stretch x code b [] (b + allSize s no) []) :
    Stretch x code a [] (a + size s (.branch c yes no)) [] := by
  simp only [demands, List.forall_mem_append] at hmeets
  simp only [size] at hlen ⊢
  cases hempty : no.isEmpty with
  | true =>
    obtain ⟨hcond, hyesAt⟩ := branchAt_of_isEmpty hempty hat
    simp only [hempty, if_true, Nat.add_zero] at hmeets hlen ⊢
    have hend := fun h => hyes hyesAt (by omega) h
    have hjump :=
      c.stretch_conditionJump hcond (Or.inl rfl) (hmeets.2 _ (List.mem_singleton.mpr rfl))
      hmeets.1.1 hscope hst
      (fun h => by rw [← (hend h).after]; congr 1; omega) (by omega)
    have hall := hjump.trans (hend hjump.after)
    simpa only [Nat.add_assoc] using hall
  | false =>
    obtain ⟨hcond, hyesAt, hoverAt, hnoAt⟩ := branchAt_of_not_isEmpty hempty hat
    simp only [hempty, Bool.false_eq_true, if_false, List.forall_mem_cons, List.forall_mem_append]
      at hmeets hlen ⊢
    obtain ⟨⟨hmeetsCond, -⟩, hmeetsJump, -, hmeetsOver⟩ := hmeets
    have hover : allSize s no + 1 < 2147483648 := hmeetsOver.1
    have hthen := fun h => hyes hyesAt (by omega) h
    have hsucc := x.shapesAt_succ hoverAt
    have hskip := fun h => (by rw [hsucc, (hthen h).after]; rfl :
      x.shapesAt code (a + c.conditionSize + 1 + allSize s yes + 1) = [])
    have hjump := c.stretch_conditionJump hcond (Or.inl rfl) hmeetsJump hmeetsCond hscope hst
      (fun h => by rw [← hskip h]; congr 1; omega) (by omega)
    have helse := hno hempty hnoAt (by omega) (hskip hjump.after)
    have hone : Stretch x code _ [] _ [] := Stretch.one hoverAt (hthen hjump.after).after
      (Nat.le_refl _) trivial (fun _ => rfl) fun offset ho => by
        cases ho
        refine ⟨_, ?_, ?_, helse.after, rfl⟩
        · rw [toInt_forward hover]
          omega
        · omega
    have hall := ((hjump.trans (hthen hjump.after)).trans hone).trans helse
    simpa only [Nat.add_assoc] using hall

/-- A call takes one value for each argument. -/
theorem stretch_call {t : Target} {warp : Bool} {key : VariantKey} {args : List Expr} {y : Bool}
    {base : Nat} (hat : CodeAt code a (Stmt.code s x.imports base (.call key args y)))
    (hmeets : ∀ d ∈ demands s base (.call key args y), x.imports.Meets d)
    (hproper : (Stmt.call key args y).ProperIn t warp x.args) (hst : x.shapesAt code a = []) :
    Stretch x code a [] (a + size s (.call key args y)) [] := by
  simp only [demands, List.forall_mem_append, List.forall_mem_cons] at hmeets
  obtain ⟨-, hargs, hkey, hcount, -⟩ := hmeets
  have htoNat : (UInt16.ofNat args.length).toNat = args.length := by simp; exact hcount
  have hyield : ∃ b, b + Expr.allSize args + 1 = a + size s (.call key args y)
      ∧ CodeAt code b (Expr.allCode x.imports args ++ [x.imports.callProcedure key args.length])
      ∧ Stretch x code a [] b [] := by
    cases y with
    | true =>
      simp only [Stmt.code, if_true, List.append_assoc] at hat
      exact ⟨a + 1, by simp only [size, if_true]; omega, hat.tail,
        Stretch.idle hat.head hst rfl trivial rfl⟩
    | false =>
      exact ⟨a, by simp [size, Nat.add_assoc], by simpa [Stmt.code] using hat, .refl hst⟩
  obtain ⟨b, hsize, hatb, hfirst⟩ := hyield
  obtain ⟨shapes, hshapes, h⟩ :=
    Expr.stretch_allCode args hatb.left hargs hproper.inScope hfirst.after
  rw [List.append_nil] at h
  have hlen : shapes.reverse.length = args.length := by
    rw [List.length_reverse]
    exact hshapes.length_eq.symm
  have hsig : args.map (fun e => e.shape.widen) = key.signature := hproper.calls.2.1
  have hfine : (x.imports.callProcedure key args.length).OperandsFine x shapes.reverse := by
    refine ⟨key, hkey, by rw [htoNat, ← hsig, List.length_map], ?_⟩
    rw [htoNat, ← hlen, List.take_length, List.reverse_reverse, ← hsig, List.forall₂_map_left_iff]
    exact hshapes.imp fun e shape hsuits hbool =>
      hsuits (Shape.suits_of_widen (a := e.shape) rfl hbool)
  have hcall :=
    Stretch.plain (x := x) (Expr.length_allCode x.imports args ▸ hatb.right).head h.after
    (by simp only [Imports.callProcedure, Instr.effect, htoNat, hlen]; exact Nat.le_refl _) hfine
  have hscan : x.scan shapes.reverse (x.imports.callProcedure key args.length) = [] := by
    simp only [CodeScope.scan, Imports.callProcedure, CodeScope.result?, Instr.effect, htoNat]
    simp [← hlen]
  rw [hscan] at hcall
  exact hsize ▸ (hfirst.trans h).trans hcall

mutual

/-- **A statement takes an empty stack to an empty stack.** -/
theorem stretch_code {t : Target} {warp : Bool} : ∀ (n : Stmt) {base a : Nat},
    CodeAt code a (n.code s x.imports base) → a + n.size s < code.length →
    (∀ d ∈ n.demands s base, x.imports.Meets d) → (∀ m ∈ n.nodes, m.ProperIn t warp x.args) →
    base + n.slots s ≤ x.slots → x.shapesAt code a = [] → Stretch x code a [] (a + n.size s) []
  | .branch c yes no, base, a, hat, hlen, hmeets, hproper, hslots, hst => by
    rw [nodes, List.forall_mem_cons, List.forall_mem_append] at hproper
    have hscope := hproper.1.inScope
    rw [exprs, Expr.allNodes, List.forall_mem_append] at hscope
    have hdemands := hmeets
    simp only [demands, List.forall_mem_append] at hdemands
    rw [slots] at hslots
    refine stretch_branch hat hlen hmeets hscope.1 hst (fun hat' hlen' hst' => ?_)
      fun hempty _ hat' hlen' hst' => ?_
    · exact stretch_allCode yes hat' hlen' hdemands.1.2 hproper.2.1 (by omega) hst'
    · rw [hempty] at hdemands
      simp only [Bool.false_eq_true, if_false, List.forall_mem_cons, List.forall_mem_append]
        at hdemands
      exact stretch_allCode no hat' hlen' hdemands.2.2.1 hproper.2.2 (by omega) hst'
  | .loop kind body warpSafe interval, base, a, hat, hlen, hmeets, hproper, hslots, hst => by
    rw [nodes, List.forall_mem_cons] at hproper
    have hdemands := hmeets
    simp only [demands, List.forall_mem_append] at hdemands
    refine stretch_loop hat hlen hmeets hproper.1.inScope hslots hst fun hat' hlen' hst' => ?_
    rw [slots] at hslots
    exact stretch_allCode body hat' hlen' hdemands.1.2 hproper.2 (by omega) hst'
  | .call key args y, base, a, hat, _, hmeets, hproper, _, hst =>
    stretch_call hat hmeets (hproper _ (self_mem_nodes _)) hst
  | .set name e, base, a, hat, _, hmeets, hproper, _, hst => by
    have hscope := (hproper _ (self_mem_nodes _)).inScope
    rw [exprs, Expr.allNodes, List.forall_mem_append] at hscope
    rw [Stmt.code] at hat
    obtain ⟨shape, -, h⟩ := e.stretch_code hat.left hmeets hscope.1 hst
    exact h.trans (Stretch.take (e.length_code x.imports ▸ hat.right).head h.after)
  | .change name e, base, a, hat, _, hmeets, hproper, _, hst => by
    have hscope := (hproper _ (self_mem_nodes _)).inScope
    rw [exprs, Expr.allNodes, List.forall_mem_append] at hscope
    rw [Stmt.code] at hat
    simp only [demands, List.forall_mem_append, List.forall_mem_cons] at hmeets
    have hget := Stretch.plain (x := x) hat.head hst (Nat.zero_le _) trivial
    obtain ⟨shape, -, h⟩ := e.stretch_code hat.tail.left hmeets.1 hscope.1 hget.after
    have hat' : CodeAt code (a + 1 + e.size)
        ([x.imports.callSupport .add 2] ++ [.setVariable name]) :=
      e.length_code x.imports ▸ hat.tail.right
    have hadd := CodeScope.stretch_callSupport (f := .add) (l := [shape, .unknown]) (n := 2)
      (by omega) rfl hmeets.2.1 hat'.left rfl h.after
    have hall := ((hget.trans h).trans hadd).trans (Stretch.take hat'.tail.head hadd.after)
    have hsize : a + size s (.change name e) = a + 1 + e.size + 1 + 1 := by
      rw [size]
      omega
    exact hsize ▸ hall
  | .wait e, base, a, hat, _, hmeets, hproper, _, hst => by
    have hscope := (hproper _ (self_mem_nodes _)).inScope
    rw [exprs, Expr.allNodes, List.forall_mem_append] at hscope
    rw [Stmt.code] at hat
    simp only [demands, List.forall_mem_append, List.forall_mem_cons] at hmeets
    obtain ⟨shape, -, h⟩ := e.stretch_code hat.left hmeets.1 hscope.1 hst
    have hat' : CodeAt code (a + e.size)
        ([x.imports.callSupport .waitDuration 1] ++ [.startTimer, .yield .frame, .waitTimer]) :=
      e.length_code x.imports ▸ hat.right
    have hwait := CodeScope.stretch_callSupport (f := .waitDuration) (l := [shape]) (n := 1)
      (by omega) rfl hmeets.2.1 hat'.left rfl h.after
    have hstart := Stretch.take (x := x) hat'.tail.head hwait.after
    have hyield := Stretch.idle (x := x) hat'.tail.tail.head hstart.after rfl trivial rfl
    have htimer := Stretch.idle (x := x) hat'.tail.tail.tail.head hyield.after rfl trivial rfl
    exact (((h.trans hwait).trans hstart).trans hyield).trans htimer
  | .host opcode args, base, a, hat, _, hmeets, hproper, _, hst => by
    have hscope := (hproper _ (self_mem_nodes _)).inScope
    rw [Stmt.code] at hat
    simp only [demands, List.forall_mem_append, List.forall_mem_cons] at hmeets
    obtain ⟨shapes, hshapes, h⟩ := Expr.stretch_allCode args hat.left hmeets.1 hscope hst
    have hat' : CodeAt code (a + Expr.allSize args)
        ([x.imports.callHost opcode args.length] ++ [.drop]) :=
      Expr.length_allCode x.imports args ▸ hat.right
    have hcall := CodeScope.stretch_callHost hmeets.2.1 hmeets.2.2.1 hat'.left
      (by rw [List.length_reverse]; exact hshapes.length_eq.symm) h.after
    exact (h.trans hcall).trans (Stretch.take hat'.tail.head hcall.after)
  | .done, base, a, hat, _, _, _, _, hst => by
    rw [Stmt.code] at hat
    exact Stretch.idle hat.head hst rfl trivial rfl
  | .escape block opcode inputs, base, a, hat, _, hmeets, hproper, _, hst => by
    have hscope := (hproper _ (self_mem_nodes _)).inScope
    rw [exprs, ← Expr.inputNodes_eq] at hscope
    rw [Stmt.code] at hat
    obtain ⟨shapes, hlen, h⟩ := Expr.stretch_inputCode inputs hat.left hmeets hscope hst
    have hat' : CodeAt code (a + Expr.inputSize inputs)
        ([.escape block opcode (inputs.map Prod.fst)] ++ [.drop]) :=
      Expr.length_inputCode x.imports inputs ▸ hat.right
    have hcall := CodeScope.stretch_escape hat'.left (by simp [hlen]) h.after
    exact (h.trans hcall).trans (Stretch.take hat'.tail.head hcall.after)

/-- Statements take an empty stack to an empty stack. -/
theorem stretch_allCode {t : Target} {warp : Bool} : ∀ (ns : List Stmt) {base a : Nat},
    CodeAt code a (allCode s x.imports base ns) → a + allSize s ns < code.length →
    (∀ d ∈ allDemands s base ns, x.imports.Meets d) →
    (∀ m ∈ allNodes ns, m.ProperIn t warp x.args) → base + allSlots s ns ≤ x.slots →
    x.shapesAt code a = [] → Stretch x code a [] (a + allSize s ns) []
  | [], _, _, _, _, _, _, _, hst => .refl hst
  | n :: ns, base, a, hat, hlen, hmeets, hproper, hslots, hst => by
    rw [allCode] at hat
    rw [allSize] at hlen ⊢
    rw [allDemands, List.forall_mem_append] at hmeets
    rw [allNodes, List.forall_mem_append] at hproper
    rw [allSlots] at hslots
    have h := stretch_code n hat.left (by omega) hmeets.1 hproper.1 (by omega) hst
    have h' := stretch_allCode ns (length_code s x.imports base n ▸ hat.right) (by omega) hmeets.2
      hproper.2 (by omega) h.after
    rw [← Nat.add_assoc]
    exact h.trans h'

end

end Stmt

end Pieces

/-! ## Routines -/

namespace Stmt

variable {s : CodeSettings} {i : Imports}

mutual

/-- If the slots of a statement can be numbered, then so can their number. -/
theorem slots_le : ∀ (n : Stmt) {base : Nat}, (∀ d ∈ n.demands s base, i.Meets d) → base ≤ 65535 →
    base + n.slots s ≤ 65535
  | .branch c yes no, base, hmeets, hbase => by
    simp only [demands, List.forall_mem_append] at hmeets
    have hyes := allSlots_le yes hmeets.1.2 hbase
    rw [slots, ← Nat.add_assoc]
    cases hempty : no.isEmpty with
    | true =>
      rw [List.isEmpty_iff.mp hempty, allSlots]
      exact hyes
    | false =>
      rw [hempty] at hmeets
      simp only [Bool.false_eq_true, if_false, List.forall_mem_cons, List.forall_mem_append]
        at hmeets
      exact allSlots_le no hmeets.2.2.1 hyes
  | .loop kind body warpSafe interval, base, hmeets, hbase => by
    simp only [demands, List.forall_mem_append] at hmeets
    obtain ⟨⟨⟨⟨hcount, hdeadline⟩, -⟩, hbody⟩, -⟩ := hmeets
    have hkind : base + kind.slots ≤ 65535 := by
      cases kind with
      | times count =>
        have hslot : base < 65535 := hcount (.slot base) (by simp [LoopKind.countDemands])
        exact hslot
      | forever | «until» c | «while» c | waitUntil c => exact hbase
    have hcheck : base + kind.slots + s.deadlineSlots warpSafe ≤ 65535 := by
      unfold CodeSettings.deadlineSlots
      split
      · next h =>
        rw [if_pos h] at hdeadline
        exact hdeadline _ (List.mem_singleton.mpr rfl)
      · exact hkind
    rw [slots, ← Nat.add_assoc, ← Nat.add_assoc]
    exact allSlots_le body hbody hcheck
  | .call key args y, _, _, hbase => hbase
  | .set name e, _, _, hbase => hbase
  | .change name e, _, _, hbase => hbase
  | .wait e, _, _, hbase => hbase
  | .host opcode args, _, _, hbase => hbase
  | .done, _, _, hbase => hbase
  | .escape block opcode inputs, _, _, hbase => hbase

theorem allSlots_le : ∀ (ns : List Stmt) {base : Nat}, (∀ d ∈ allDemands s base ns, i.Meets d) →
    base ≤ 65535 → base + allSlots s ns ≤ 65535
  | [], _, _, hbase => hbase
  | n :: ns, base, hmeets, hbase => by
    rw [allDemands, List.forall_mem_append] at hmeets
    rw [allSlots, ← Nat.add_assoc]
    exact allSlots_le ns hmeets.2 (slots_le n hmeets.1 hbase)

end

end Stmt

namespace Routine

/-- What the code of the routine refers to. -/
def scope (r : Routine) (config : CompilerConfig) : CodeScope :=
  ⟨r.imports config, r.arguments, Stmt.allSlots (r.settings config) r.stack⟩

variable {r : Routine} {config : CompilerConfig}

theorem code_getElem?_allSize :
    (r.code config)[Stmt.allSize (r.settings config) r.stack]? = some .ret := by
  rw [code, List.getElem?_append_right (Nat.le_of_eq (Stmt.length_allCode _ _ _ _)),
    Stmt.length_allCode, Nat.sub_self]
  rfl

/-- The stack is empty before the last instruction of a routine. -/
theorem stretch_stack {t : Target} {warp : Bool}
    (hmeets : ∀ d ∈ r.demands config, (r.imports config).Meets d)
    (hproper : ∀ n ∈ Stmt.allNodes r.stack, n.ProperIn t warp r.arguments) :
    Stretch (r.scope config) (r.code config) 0 []
      (Stmt.allSize (r.settings config) r.stack) [] := by
  have hlen : (r.code config).length = Stmt.allSize (r.settings config) r.stack + 1 := by
    rw [code, List.length_append, Stmt.length_allCode, List.length_singleton]
  have h := Stmt.stretch_allCode (x := r.scope config) r.stack (CodeAt.whole _ [.ret])
    (by rw [Nat.zero_add]; exact hlen ▸ Nat.lt_succ_self _) hmeets hproper
    (Nat.le_of_eq (Nat.zero_add _)) (CodeScope.shapesAt_zero _ _)
  rwa [Nat.zero_add] at h

/-- **The code of a routine is fine everywhere**, if its demands are met and its statements fit into
it. -/
theorem fine_code {t : Target} {warp : Bool}
    (hmeets : ∀ d ∈ r.demands config, (r.imports config).Meets d)
    (hproper : ∀ n ∈ Stmt.allNodes r.stack, n.ProperIn t warp r.arguments) {pc : Nat} {op : Instr}
    (hop : (r.code config)[pc]? = some op) : op.FineAt (r.scope config) (r.code config) pc := by
  have hstack := stretch_stack hmeets hproper
  have hall := hstack.trans (Stretch.idle code_getElem?_allSize hstack.after rfl trivial rfl)
  refine hall.fine pc op (Nat.zero_le _) ?_ hop
  have hpc := (List.getElem?_eq_some_iff.mp hop).1
  rwa [code, List.length_append, Stmt.length_allCode] at hpc

end Routine

end BlockScript
