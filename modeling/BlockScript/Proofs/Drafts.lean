import BlockScript.Proofs.Layout

/-!
# What comes of writing an image

The writing of a routine goes from draft to draft. A draft has tables with all that was demanded so
far, and these are the beginnings of the tables that the routine has in the end (`Imports.Begins`),
so that an index which is written once stays right. A piece of code is written exactly if its
demands are met, and then it stands at the end of the draft, with its jumps mended (`Expr.writes`,
`Stmt.writes`).

Main statement: compiling a routine gives the image that is written down at once, or the first
demand that cannot be met (`Routine.compile_eq`). So no instruction is mended that is not a jump, no
counted loop is without a counter, and every name that code calls a function by is a name of that
function.
-/

namespace BlockScript

/-! ## Names of functions -/

theorem UnaryOp.supportName_eq (op : UnaryOp) : op.supportName = op.support.name := by
  cases op <;> rfl

theorem BinaryOp.supportName_eq (op : BinaryOp) : op.supportName = op.support.name := by
  cases op <;> rfl

theorem Support.ofName?_name (f : Support) : ofName? f.name = some f := by
  cases f <;> decide

theorem Support.name_injective : Function.Injective Support.name := by
  intro f g h
  have hf := ofName?_name f
  rw [h, ofName?_name g] at hf
  exact (Option.some.inj hf).symm

/-! ## Tables -/

section Tables

variable {α β : Type} [BEq α] [LawfulBEq α] [BEq β] [LawfulBEq β]

/-- Entering a name is demanding it once more. -/
theorem Draft.enter_eraseDups (l : List α) (a : α) :
    enter l.eraseDups a = (l ++ [a]).eraseDups := by
  rw [List.eraseDups_append, enter]
  by_cases ha : a ∈ l <;> simp [List.removeAll, ha, List.eraseDups_cons]

omit [LawfulBEq α] in
theorem Draft.prefix_enter (table : List α) (a : α) : table <+: enter table a := by
  unfold enter
  split
  · exact List.prefix_rfl
  · exact List.prefix_append _ _

/-- A name has its final index as soon as it is entered. -/
theorem Draft.idxOf_of_enter {table final : List α} {a : α} (h : enter table a <+: final) :
    table.idxOf a = final.idxOf a := by
  obtain ⟨rest, rfl⟩ := h
  unfold enter
  by_cases ha : a ∈ table
  · rw [if_pos (List.contains_iff_mem.mpr ha), List.idxOf_append_of_mem ha]
  · rw [if_neg (fun hc => ha (List.contains_iff_mem.mp hc)), List.append_assoc,
      List.idxOf_append, if_neg ha, List.idxOf_eq_length ha]
    simp

theorem idxOf_map_of_injective {f : α → β} (hf : Function.Injective f) (l : List α) (a : α) :
    (l.map f).idxOf (f a) = l.idxOf a := by
  induction l with
  | nil => rfl
  | cons b l ih =>
    rw [List.map_cons, List.idxOf_cons, List.idxOf_cons, ih]
    have hbeq : (f b == f a) = (b == a) := by
      rw [Bool.eq_iff_iff, beq_iff_eq, beq_iff_eq]
      exact hf.eq_iff
    rw [hbeq]

theorem Draft.enter_map {f : α → β} (hf : Function.Injective f) (l : List α) (a : α) :
    enter (l.map f) (f a) = (enter l a).map f := by
  have hmem : (l.map f).contains (f a) = l.contains a := by
    rw [Bool.eq_iff_iff, List.contains_iff_mem, List.contains_iff_mem]
    exact List.mem_map_of_injective hf
  unfold enter
  rw [hmem]
  split
  · rfl
  · rw [List.map_append, List.map_singleton]

end Tables

namespace Imports

/-- The tables with what a demand asks for. -/
def add (i : Imports) : Demand → Imports
  | .support f => { i with support := Draft.enter i.support f }
  | .host opcode => { i with host := Draft.enter i.host opcode }
  | .procedure key => { i with procedures := Draft.enter i.procedures key }
  | .variant _ | .arguments _ | .slot _ | .forward _ | .backward _ => i

/-- The tables with what demands ask for, one after the other. -/
def addAll (i : Imports) (ds : List Demand) : Imports := ds.foldl add i

theorem addAll_append (i : Imports) (ds ds' : List Demand) :
    i.addAll (ds ++ ds') = (i.addAll ds).addAll ds' := List.foldl_append

theorem ofDemands_concat (ds : List Demand) (d : Demand) :
    ofDemands (ds ++ [d]) = (ofDemands ds).add d := by
  cases d <;> simp [ofDemands, add, Draft.enter_eraseDups]

/-- The tables of demands are those that come of entering what they ask for. -/
theorem ofDemands_append (ds ds' : List Demand) :
    ofDemands (ds ++ ds') = (ofDemands ds).addAll ds' := by
  induction ds' generalizing ds with
  | nil => rw [List.append_nil]; rfl
  | cons d ds' ih => rw [List.append_cons, ih, ofDemands_concat]; rfl

/-- The tables are the beginnings of others. -/
structure Begins (i final : Imports) : Prop where
  support : i.support <+: final.support
  host : i.host <+: final.host
  procedures : i.procedures <+: final.procedures

theorem Begins.of_add {i final : Imports} {d : Demand} (h : (i.add d).Begins final) :
    i.Begins final := by
  obtain ⟨hsupport, hhost, hprocedures⟩ := h
  cases d with
  | support f => exact ⟨(Draft.prefix_enter _ f).trans hsupport, hhost, hprocedures⟩
  | host opcode => exact ⟨hsupport, (Draft.prefix_enter _ opcode).trans hhost, hprocedures⟩
  | procedure key => exact ⟨hsupport, hhost, (Draft.prefix_enter _ key).trans hprocedures⟩
  | variant | arguments | slot | forward | backward => exact ⟨hsupport, hhost, hprocedures⟩

/-- Tables only grow. -/
theorem Begins.of_addAll {final : Imports} : ∀ {i : Imports} (ds : List Demand),
    (i.addAll ds).Begins final → i.Begins final
  | _, [], h => h
  | i, d :: ds, h => Begins.of_add (d := d) (Begins.of_addAll (i := i.add d) ds h)

end Imports

/-! ## Drafts of a routine -/

namespace Routine

/-- The draft of a routine with these tables, this code and so many slots. -/
def draft (r : Routine) (i : Imports) (ops : List Instr) (slots : Nat) : Draft where
  name := r.label
  warp := r.warp
  arity := UInt16.ofNat r.arguments.length
  ops := ops.toArray
  support := i.support.map Support.name
  host := i.host
  procedures := i.procedures
  locals := slots

/-- What comes of writing something: the first of its demands that cannot be met, or a result. -/
def outcome {α : Type} (r : Routine) (p : Program) (config : CompilerConfig) (ds : List Demand)
    (a : α) : Except CompileError α :=
  match ds.findSome? (Demand.failure? r.label p (r.imports config)) with
  | some e => .error e
  | none => .ok a

/-- From any draft of the routine with `base` slots, the writing meets the demands `ds`, adds the
code, and gives out `slots` more slots, as long as the tables begin those of the whole routine. -/
def Writes (r : Routine) (p : Program) (config : CompilerConfig) (base slots : Nat)
    (ds : List Demand) (code : List Instr) (write : Draft → Except CompileError Draft) : Prop :=
  ∀ i ops, (i.addAll ds).Begins (r.imports config) →
    write (r.draft i ops base)
      = r.outcome p config ds (r.draft (i.addAll ds) (ops ++ code) (base + slots))

variable {r : Routine} {p : Program} {config : CompilerConfig} {i : Imports} {ops : List Instr}
  {base : Nat}

theorem outcome_bind {α β : Type} (ds rest : List Demand) {a : α} {b : β}
    {k : α → Except CompileError β} (hk : k a = r.outcome p config rest b) :
    (r.outcome p config ds a >>= k) = r.outcome p config (ds ++ rest) b := by
  unfold outcome at hk ⊢
  rw [List.findSome?_append]
  cases ds.findSome? (Demand.failure? r.label p (r.imports config)) with
  | some e => rfl
  | none => exact hk

/-- A writing, and what is done with its draft. -/
theorem Writes.bind {β : Type} {m : Nat} {ds rest : List Demand} {code : List Instr}
    {write : Draft → Except CompileError Draft} {k : Draft → Except CompileError β} {b : β}
    (h : r.Writes p config base m ds code write)
    (hbegins : (i.addAll (ds ++ rest)).Begins (r.imports config))
    (hk : k (r.draft (i.addAll ds) (ops ++ code) (base + m)) = r.outcome p config rest b) :
    (write (r.draft i ops base) >>= k) = r.outcome p config (ds ++ rest) b := by
  rw [Imports.addAll_append] at hbegins
  rw [h i ops hbegins.of_addAll]
  exact outcome_bind ds rest hk

/-- One writing after the other. -/
theorem Writes.comp {m n : Nat} {ds ds' : List Demand} {code code' : List Instr}
    {write write' : Draft → Except CompileError Draft} (h : r.Writes p config base m ds code write)
    (h' : r.Writes p config (base + m) n ds' code' write') :
    r.Writes p config base (m + n) (ds ++ ds') (code ++ code') fun d => write d >>= write' := by
  intro i ops hbegins
  refine h.bind hbegins ?_
  rw [Imports.addAll_append] at hbegins
  rw [h' _ _ hbegins, Imports.addAll_append, List.append_assoc, Nat.add_assoc]

/-! ## Single instructions -/

theorem emit_draft (op : Instr) : (r.draft i ops base).emit op = r.draft i (ops ++ [op]) base := by
  simp only [draft, Draft.emit, List.push_toArray]

theorem here_draft : (r.draft i ops base).here = ops.length := by
  simp only [draft, Draft.here, List.size_toArray]

theorem writes_nil : r.Writes p config base 0 [] [] pure := by
  intro i ops _
  rw [List.append_nil]
  rfl

theorem writes_emit (op : Instr) : r.Writes p config base 0 [] [op] fun d => pure (d.emit op) := by
  intro i ops _
  dsimp only
  rw [emit_draft]
  rfl

theorem index_draft (p : Program) (config : CompilerConfig) (d : Demand) {what : String} {n : Nat}
    (hd : d.failure? r.label p (r.imports config)
      = if n < 65536 then none else some (.tooMany what r.label)) :
    (r.draft i ops base).index what n = r.outcome p config [d] (UInt16.ofNat n) := by
  rw [Draft.index, outcome, List.findSome?_singleton, hd]
  split <;> rfl

/-- A function is called by its name. There are always enough indices for the names of functions. -/
theorem writes_callSupport (f : Support) (argc : Nat) :
    r.Writes p config base 0 [.support f] [(r.imports config).callSupport f argc]
      (·.callSupport f.name (UInt16.ofNat argc)) := by
  intro i ops hbegins
  have hindex : (i.support.map Support.name).idxOf f.name = (r.imports config).support.idxOf f := by
    rw [idxOf_map_of_injective Support.name_injective, Draft.idxOf_of_enter hbegins.support]
  have hfew : (r.imports config).support.idxOf f < 65536 := by
    have hlength : (r.imports config).support.length ≤ 21 := Imports.length_support_le _
    have hle : (r.imports config).support.idxOf f ≤ (r.imports config).support.length :=
      List.idxOf_le_length
    omega
  have hok : (r.draft i ops base).index "support imports"
      ((r.draft i ops base).support.idxOf f.name)
      = .ok (UInt16.ofNat ((r.imports config).support.idxOf f)) := by
    rw [Draft.index, draft, hindex, if_pos hfew]
  have hdraft : { r.draft i ops base with
      support := Draft.enter (r.draft i ops base).support f.name }
      = r.draft (i.add (.support f)) ops base := by
    simp only [draft, Imports.add, Draft.enter_map Support.name_injective]
  dsimp only [Draft.callSupport]
  rw [hok, hdraft]
  exact congrArg Except.ok (emit_draft _)

theorem writes_callHost (opcode : String) (args : Nat) :
    r.Writes p config base 0 [.arguments args, .host opcode]
      [(r.imports config).callHost opcode args]
      fun d => d.index "call arguments" args >>= (d.callHost opcode ·) := by
  intro i ops hbegins
  have hindex : i.host.idxOf opcode = (r.imports config).host.idxOf opcode :=
    Draft.idxOf_of_enter hbegins.host
  dsimp only
  rw [index_draft p config (.arguments args) rfl]
  refine outcome_bind [.arguments args] [.host opcode] ?_
  dsimp only [Draft.callHost]
  rw [index_draft p config (.host opcode) (by rw [Demand.failure?, ← hindex]; rfl)]
  refine outcome_bind [.host opcode] [] ?_
  rw [show (r.draft i ops base).host = i.host from rfl, hindex]
  exact congrArg Except.ok (emit_draft (i := i.add (.host opcode)) _)

theorem writes_callProcedure (key : VariantKey) (args : Nat) :
    r.Writes p config base 0 [.procedure key, .arguments args]
      [(r.imports config).callProcedure key args] (·.callProcedure key args) := by
  intro i ops hbegins
  have hindex : i.procedures.idxOf key = (r.imports config).procedures.idxOf key :=
    Draft.idxOf_of_enter hbegins.procedures
  dsimp only [Draft.callProcedure]
  rw [index_draft p config (.procedure key) (by rw [Demand.failure?, ← hindex]; rfl)]
  refine outcome_bind [.procedure key] [.arguments args] ?_
  rw [index_draft p config (.arguments args) rfl]
  refine outcome_bind [.arguments args] [] ?_
  rw [show (r.draft i ops base).procedures = i.procedures from rfl, hindex]
  exact congrArg Except.ok (emit_draft (i := i.add (.procedure key)) _)

theorem checkVariant_draft (key : VariantKey) :
    (r.draft i ops base).checkVariant p key = r.outcome p config [.variant key] () := by
  rw [Draft.checkVariant, outcome, List.findSome?_singleton, Demand.failure?]
  split <;> rfl

theorem allocLocal_draft :
    (r.draft i ops base).allocLocal
      = r.outcome p config [.slot base] (localSlot base, r.draft i ops (base + 1)) := by
  rw [Draft.allocLocal, outcome, List.findSome?_singleton, Demand.failure?]
  by_cases hfits : base < 65535
  · rw [if_pos (show (r.draft i ops base).locals < 65535 from hfits), if_pos hfits]
    rfl
  · rw [if_neg (show ¬ (r.draft i ops base).locals < 65535 from hfits), if_neg hfits]
    rfl

/-! ## Jumps -/

/-- A jump that was written before `rest` is mended to lead over it. -/
theorem patch_draft (p : Program) (config : CompilerConfig) {op op' : Instr} {rest : List Instr}
    (hop : op.withOffset? (forward (rest.length + 1)) = some op') :
    (r.draft i (ops ++ op :: rest) base).patch ops.length
      = r.outcome p config [.forward (rest.length + 1)] (r.draft i (ops ++ op' :: rest) base) := by
  have hdistance : ((r.draft i (ops ++ op :: rest) base).here : Int) - ops.length
      = (rest.length + 1 : Nat) := by
    simp only [Draft.here, draft, List.size_toArray, List.length_append, List.length_cons]
    omega
  have hoffset : (r.draft i (ops ++ op :: rest) base).offset ops.length
      (r.draft i (ops ++ op :: rest) base).here
      = r.outcome p config [.forward (rest.length + 1)] (forward (rest.length + 1)) := by
    dsimp only [Draft.offset]
    rw [hdistance, outcome, List.findSome?_singleton, Demand.failure?]
    by_cases hfits : rest.length + 1 < 2147483648
    · rw [if_pos (by omega), if_pos hfits]
      rfl
    · rw [if_neg (by omega), if_neg hfits]
      rfl
  have hfound : (r.draft i (ops ++ op :: rest) base).ops[ops.length]? = some op := by
    simp [draft]
  dsimp only [Draft.patch]
  rw [hoffset]
  refine outcome_bind [.forward (rest.length + 1)] [] ?_
  rw [hfound, Option.bind_some, hop]
  refine congrArg Except.ok ?_
  simp [draft]

-- What is no jump cannot be mended.
example : ({ name := "r", warp := false, ops := #[.drop] } : Draft).patch 0
    = .error (.internal "cannot patch Some(Drop) at pc=0 as a jump") := by
  rfl

/-- When the end of a branch has been written, the jump to the other branch is mended. -/
theorem skipElse_draft (p : Program) (config : CompilerConfig) (yes : List Instr) :
    ((r.draft i (ops ++ .jumpIfFalse 0 :: yes) base).emit (.jump 0)).patch ops.length
      = r.outcome p config [.forward (yes.length + 2)]
        (r.draft i (ops ++ .jumpIfFalse (forward (yes.length + 2)) :: yes ++ [.jump 0]) base) := by
  rw [emit_draft, List.append_assoc, List.append_assoc, List.cons_append, List.cons_append]
  refine (patch_draft p config rfl).trans ?_
  rw [List.length_append]
  rfl

/-- A jump back leads over `rest`. -/
theorem jumpBack_draft {rest : List Instr} :
    (r.draft i (ops ++ rest) base).jumpBack ops.length
      = r.outcome p config [.backward rest.length]
        (r.draft i (ops ++ (rest ++ [.jump (backward rest.length)])) base) := by
  have hdistance : (ops.length : Int) - (r.draft i (ops ++ rest) base).here
      = -(rest.length : Int) := by
    simp only [Draft.here, draft, List.size_toArray, List.length_append]
    omega
  have hoffset :
      (r.draft i (ops ++ rest) base).offset (r.draft i (ops ++ rest) base).here ops.length
      = r.outcome p config [.backward rest.length] (backward rest.length) := by
    dsimp only [Draft.offset]
    rw [hdistance, outcome, List.findSome?_singleton, Demand.failure?]
    by_cases hfits : rest.length ≤ 2147483648
    · rw [if_pos (by omega), if_pos hfits]
      rfl
    · rw [if_neg (by omega), if_neg hfits]
      rfl
  dsimp only [Draft.jumpBack]
  rw [hoffset]
  refine outcome_bind [.backward rest.length] [] ?_
  rw [emit_draft, List.append_assoc]
  rfl

end Routine

/-! ## Expressions -/

section Writing

variable {r : Routine} {p : Program} {config : CompilerConfig}

/-- The functions of operators are called by the names that the operators have for them. -/
theorem UnaryOp.writes_call (op : UnaryOp) (base : Nat) :
    r.Writes p config base 0 [.support op.support] [(r.imports config).callSupport op.support 1]
      (·.callSupport op.supportName 1) := by
  rw [op.supportName_eq]
  exact Routine.writes_callSupport op.support 1

theorem BinaryOp.writes_call (op : BinaryOp) (base : Nat) :
    r.Writes p config base 0 [.support op.support] [(r.imports config).callSupport op.support 2]
      (·.callSupport op.supportName 2) := by
  rw [op.supportName_eq]
  exact Routine.writes_callSupport op.support 2

namespace Expr

mutual

/-- **The code of an expression is written** if its demands are met. -/
theorem writes (base : Nat) : ∀ e : Expr,
    r.Writes p config base 0 e.demands (e.code (r.imports config)) e.write
  | .const v => Routine.writes_emit (.push v)
  | .arg index _ => Routine.writes_emit (.loadArg index)
  | .var name => Routine.writes_emit (.getVariable name)
  | .unary op e => (writes base e).comp (op.writes_call base)
  | .binary op a b => by
    rw [demands, code, List.append_assoc, List.append_assoc]
    exact (writes base a).comp ((writes base b).comp (op.writes_call base))
  | .host opcode args _ =>
    (writes_all base args).comp (Routine.writes_callHost opcode args.length)
  | .escape block opcode inputs => by
    rw [demands, ← List.append_nil (inputDemands inputs)]
    exact (writes_inputs base inputs).comp (Routine.writes_emit _)

theorem writes_all (base : Nat) : ∀ es : List Expr,
    r.Writes p config base 0 (allDemands es) (allCode (r.imports config) es) (writeAll es)
  | [] => Routine.writes_nil
  | e :: es => (writes base e).comp (writes_all base es)

theorem writes_inputs (base : Nat) : ∀ es : List (String × Expr),
    r.Writes p config base 0 (inputDemands es) (inputCode (r.imports config) es) (writeInputs es)
  | [] => Routine.writes_nil
  | (_, e) :: es => (writes base e).comp (writes_inputs base es)

end

theorem writes_condition (base : Nat) (e : Expr) :
    r.Writes p config base 0 e.conditionDemands (e.conditionCode (r.imports config))
      e.writeCondition := by
  unfold conditionDemands conditionCode writeCondition
  cases hshape : e.shape.isBoolean with
  | true =>
    have hwrites : r.Writes p config base 0 (e.demands ++ []) (e.code (r.imports config) ++ [])
        fun d => e.write d >>= pure := (writes base e).comp Routine.writes_nil
    rwa [List.append_nil, List.append_nil] at hwrites
  | false => exact (writes base e).comp (Routine.writes_callSupport .toBoolean 1)

end Expr

/-! ## Loops -/

namespace LoopKind

/-- The slot of the counter of a loop whose slots begin at `base`. -/
def counter? (base : Nat) : LoopKind → Option UInt16
  | .times _ => some (localSlot base)
  | _ => none

/-- The part of the test before each round that comes before the jump. -/
def testStart (i : Imports) : LoopKind → List Instr
  | .times _ | .forever => []
  | .until c | .waitUntil c | .while c => c.conditionCode i

/-- The jump that leaves a loop whose slots begin at `base`. -/
def exitJump? (base : Nat) (offset : Int32) : LoopKind → Option Instr
  | .times _ => some (.countdown (localSlot base) offset)
  | .forever => none
  | .until _ | .waitUntil _ => some (.jumpIfTrue offset)
  | .while _ => some (.jumpIfFalse offset)

theorem testCode_eq (i : Imports) (base rest : Nat) (kind : LoopKind) :
    kind.testCode i base rest
      = kind.testStart i ++ (kind.exitJump? base (forward (rest + 1))).toList := by
  cases kind <;> simp [testCode, testStart, exitJump?]

theorem writeCount_draft {base : Nat} {i : Imports} (kind : LoopKind) (ops : List Instr)
    (hbegins : (i.addAll (kind.countDemands base)).Begins (r.imports config)) :
    kind.writeCount (r.draft i ops base) = r.outcome p config (kind.countDemands base)
      (kind.counter? base, r.draft (i.addAll (kind.countDemands base))
        (ops ++ kind.countCode (r.imports config) base) (base + kind.slots)) := by
  cases kind with
  | times count =>
    refine (Expr.writes base count).bind hbegins ?_
    rw [countDemands, Imports.addAll_append] at hbegins
    refine (Routine.writes_callSupport .repeatCount 1).bind hbegins ?_
    rw [Routine.allocLocal_draft]
    refine Routine.outcome_bind [.slot base] [] ?_
    dsimp only
    rw [Routine.emit_draft, List.append_assoc, List.append_assoc, countDemands,
      Imports.addAll_append]
    rfl
  | forever | «until» | «while» | waitUntil =>
    simp only [countCode, List.append_nil]
    rfl

/-- The test before each round is written with a jump that leads nowhere yet. -/
theorem writeTest_draft {base slots : Nat} {i : Imports} (kind : LoopKind) (ops : List Instr)
    (hbegins : (i.addAll kind.testDemands).Begins (r.imports config)) :
    kind.writeTest (kind.counter? base) (r.draft i ops slots)
      = r.outcome p config kind.testDemands
        ((kind.exitJump? base 0).map fun _ => (ops ++ kind.testStart (r.imports config)).length,
          r.draft (i.addAll kind.testDemands) (ops ++ kind.testStart (r.imports config)
            ++ (kind.exitJump? base 0).toList) slots) := by
  cases kind with
  | times count =>
    simp only [writeTest, counter?, testStart, List.append_nil]
    rw [Routine.emit_draft]
    rfl
  | forever => simp only [writeTest, testStart, exitJump?, List.append_nil, Option.toList_none]; rfl
  | «until» c | «while» c | waitUntil c =>
    rw [testDemands, ← List.append_nil c.conditionDemands] at hbegins ⊢
    refine (Expr.writes_condition slots c).bind hbegins ?_
    rw [Routine.emit_draft, List.append_nil]
    rfl

end LoopKind

namespace Routine

theorem startDeadline_draft {base : Nat} {i : Imports} (warpSafe : Bool) (ops : List Instr) :
    (r.draft i ops base).startDeadline ((r.settings config).checksDeadline warpSafe)
      = r.outcome p config
        (if (r.settings config).checksDeadline warpSafe then [.slot base] else [])
        (if (r.settings config).checksDeadline warpSafe then some (localSlot base) else none,
          r.draft i (ops ++ Stmt.deadlineStart (r.settings config) warpSafe base)
            (base + (r.settings config).deadlineSlots warpSafe)) := by
  unfold Stmt.deadlineStart CodeSettings.deadlineSlots
  cases (r.settings config).checksDeadline warpSafe with
  | true =>
    simp only [Draft.startDeadline, if_true]
    rw [allocLocal_draft]
    refine outcome_bind [.slot base] [] ?_
    dsimp only
    rw [emit_draft, emit_draft, List.append_assoc]
    rfl
  | false =>
    simp only [Draft.startDeadline, Bool.false_eq_true, if_false, List.append_nil]
    rfl

theorem endRound_draft {slots slot : Nat} {i : Imports} (warpSafe : Bool) (interval : UInt32)
    (ops : List Instr) :
    (r.draft i ops slots).endRound ((r.settings config).runsWarp warpSafe)
        (if (r.settings config).checksDeadline warpSafe then some (localSlot slot) else none)
        interval
      = r.draft i (ops ++ Stmt.roundEnd (r.settings config) warpSafe slot interval) slots := by
  unfold Draft.endRound Stmt.roundEnd CodeSettings.checksDeadline
  cases (r.settings config).runsWarp warpSafe with
  | true =>
    cases (r.settings config).timer with
    | true => simp only [Bool.and_true, if_true, emit_draft]
    | false => simp
  | false => simp only [Bool.false_eq_true, if_false, emit_draft]

/-- The jump that leaves a loop is mended to lead over the round and the jump back. -/
theorem endLoop_draft {base slots : Nat} {i : Imports} (kind : LoopKind) (ops round : List Instr)
    (back : Instr) :
    (r.draft i (ops ++ ((kind.exitJump? base 0).toList ++ (round ++ [back]))) slots).endLoop
        ((kind.exitJump? base 0).map fun _ => ops.length)
      = r.outcome p config (kind.exitDemands round.length)
        (r.draft i (ops ++ ((kind.exitJump? base (forward (round.length + 2))).toList
          ++ (round ++ [back]))) slots) := by
  have hlength : (round ++ [back]).length + 1 = round.length + 2 := by simp
  have hpatch : ∀ {op op' : Instr}, op.withOffset? (forward (round.length + 2)) = some op' →
      (r.draft i (ops ++ op :: (round ++ [back])) slots).patch ops.length
        = r.outcome p config [.forward (round.length + 2)]
          (r.draft i (ops ++ op' :: (round ++ [back])) slots) := by
    intro op op' hop
    rw [← hlength] at hop ⊢
    exact patch_draft p config hop
  cases kind with
  | times | «until» | «while» | waitUntil => exact hpatch rfl
  | forever => rfl

/-- A loop is closed: it jumps back to its test, and then the jump that leaves it is mended. -/
theorem closeLoop_draft (p : Program) {base slots : Nat} {i : Imports} (kind : LoopKind)
    (ops round : List Instr) :
    ((r.draft i (ops ++ kind.testStart (r.imports config) ++ (kind.exitJump? base 0).toList
          ++ round) slots).jumpBack ops.length
        >>= (·.endLoop ((kind.exitJump? base 0).map fun _ =>
          (ops ++ kind.testStart (r.imports config)).length)))
      = r.outcome p config
        (.backward (kind.testSize + round.length) :: kind.exitDemands round.length)
        (r.draft i (ops ++ (kind.testCode (r.imports config) base (round.length + 1)
          ++ (round ++ [.jump (backward (kind.testSize + round.length))]))) slots) := by
  have hsize :
      (kind.testStart (r.imports config) ++ ((kind.exitJump? base 0).toList ++ round)).length
      = kind.testSize + round.length := by
    have htest := LoopKind.length_testCode (r.imports config) base 0 kind
    rw [LoopKind.testCode_eq, List.length_append] at htest
    rw [List.length_append, List.length_append, ← htest, Nat.add_assoc]
    cases kind <;> rfl
  rw [List.append_assoc, List.append_assoc, jumpBack_draft, hsize]
  refine outcome_bind [.backward _] (kind.exitDemands round.length) ?_
  rw [LoopKind.testCode_eq, List.append_assoc, List.append_assoc, List.append_assoc,
    ← List.append_assoc ops, ← List.append_assoc ops]
  exact endLoop_draft kind _ round _

end Routine

/-! ## Statements -/

namespace Stmt

/-- The code of statements is written if their demands are met. -/
def AllWritten (r : Routine) (p : Program) (config : CompilerConfig) (ns : List Stmt) : Prop :=
  ∀ base, r.Writes p config base (allSlots (r.settings config) ns)
    (allDemands (r.settings config) base ns)
    (allCode (r.settings config) (r.imports config) base ns) (writeAll p config ns)

/-- The code of a statement is written if its demands are met. -/
def Written (r : Routine) (p : Program) (config : CompilerConfig) (n : Stmt) : Prop :=
  ∀ base, r.Writes p config base (slots (r.settings config) n) (demands (r.settings config) base n)
    (code (r.settings config) (r.imports config) base n) (write p config n)

theorem written_branch (c : Expr) {yes no : List Stmt} (hyes : AllWritten r p config yes)
    (hno : AllWritten r p config no) : Written r p config (.branch c yes no) := by
  intro base i ops hbegins
  rw [demands, List.append_assoc] at hbegins ⊢
  rw [write]
  refine (Expr.writes_condition base c).bind hbegins ?_
  rw [Imports.addAll_append] at hbegins ⊢
  dsimp only
  rw [Routine.emit_draft, Routine.here_draft]
  refine (hyes base).bind hbegins ?_
  rw [Imports.addAll_append] at hbegins ⊢
  rw [List.append_assoc (ops ++ _), List.singleton_append,
    ← length_allCode _ (r.imports config) base]
  cases hempty : no.isEmpty with
  | true =>
    simp only [if_true]
    refine (Routine.patch_draft p config rfl).trans ?_
    rw [code, slots, List.isEmpty_iff.mp hempty]
    simp only [List.isEmpty_nil, if_true, allSlots, Nat.add_zero, List.append_assoc]
    rfl
  | false =>
    simp only [hempty, Bool.false_eq_true, if_false] at hbegins ⊢
    rw [Routine.skipElse_draft p config]
    refine Routine.outcome_bind [.forward _] _ ?_
    refine (hno _).bind hbegins ?_
    have hplace : ∀ offset : Int32, (r.draft
          ((i.addAll c.conditionDemands).addAll (allDemands (r.settings config) base yes))
          (ops ++ c.conditionCode (r.imports config)
            ++ .jumpIfFalse 0 :: allCode (r.settings config) (r.imports config) base yes)
          (base + allSlots (r.settings config) yes)).here
        = (ops ++ c.conditionCode (r.imports config)
          ++ .jumpIfFalse offset
            :: allCode (r.settings config) (r.imports config) base yes).length := by
      intro offset
      simp [Routine.here_draft]
    rw [hplace (forward _), List.append_assoc _ [_], List.singleton_append,
      ← length_allCode _ (r.imports config)]
    refine (Routine.patch_draft p config rfl).trans ?_
    rw [← List.cons_append, Imports.addAll_append, code, slots]
    simp only [hempty, Bool.false_eq_true, if_false, List.append_assoc, Nat.add_assoc]
    rfl

theorem written_loop {kind : LoopKind} {body : List Stmt} {warpSafe : Bool} {interval : UInt32}
    (hbody : AllWritten r p config body) :
    Written r p config (.loop kind body warpSafe interval) := by
  intro base i ops hbegins
  have hslot : ∀ i : Imports, i.addAll (if (r.settings config).checksDeadline warpSafe
      then [.slot (base + kind.slots)] else []) = i := by
    intro i
    split <;> rfl
  have hexit : ∀ (i : Imports) (n round : Nat),
      i.addAll (.backward n :: kind.exitDemands round) = i := by
    intro i n round
    cases kind <;> rfl
  simp only [demands, List.append_assoc, Imports.addAll_append, hslot, hexit] at hbegins ⊢
  rw [write, LoopKind.writeCount_draft kind ops hbegins.of_addAll.of_addAll]
  refine Routine.outcome_bind _ _ ?_
  change (Draft.startDeadline _ ((r.settings config).checksDeadline warpSafe) >>= _) = _
  rw [Routine.startDeadline_draft]
  refine Routine.outcome_bind _ _ ?_
  dsimp only
  rw [LoopKind.writeTest_draft kind _ hbegins.of_addAll]
  refine Routine.outcome_bind _ _ ?_
  rw [hbody _ _ _ hbegins]
  refine Routine.outcome_bind _ _ ?_
  change (Draft.jumpBack (Draft.endRound _ ((r.settings config).runsWarp warpSafe) _ _) _ >>= _) = _
  have hround : allSize (r.settings config) body + (r.settings config).roundEndSize warpSafe
      = (allCode (r.settings config) (r.imports config)
          (base + kind.slots + (r.settings config).deadlineSlots warpSafe) body
        ++ roundEnd (r.settings config) warpSafe (base + kind.slots) interval).length := by
    rw [List.length_append, length_allCode, length_roundEnd]
  rw [Routine.endRound_draft, Routine.here_draft, List.append_assoc _ (allCode _ _ _ _), hround]
  refine (Routine.closeLoop_draft p kind _ _).trans ?_
  simp only [code, slots, LoopKind.length_testCode, List.append_assoc, Nat.add_assoc]

theorem written_call (key : VariantKey) (args : List Expr) (y : Bool) :
    Written r p config (.call key args y) := by
  intro base i ops hbegins
  have hyield : r.Writes p config base 0 [] (if y then [.yield .soft] else [])
      fun d => pure (if y then d.emit (.yield .soft) else d) := by
    cases y with
    | true => exact Routine.writes_emit _
    | false => exact Routine.writes_nil
  have hcall := hyield.comp
    ((Expr.writes_all base args).comp (Routine.writes_callProcedure key args.length))
  rw [write, Routine.checkVariant_draft]
  refine Routine.outcome_bind [.variant key] _ ?_
  rw [demands] at hbegins ⊢
  rw [code, List.append_assoc]
  exact hcall i ops hbegins

mutual

/-- **The code of a statement is written** if its demands are met. -/
theorem writes : ∀ n : Stmt, Written r p config n
  | .branch c yes no => written_branch c (writes_all yes) (writes_all no)
  | .loop _ body _ _ => written_loop (writes_all body)
  | .call key args y => written_call key args y
  | .set name e => fun base => by
    rw [demands, ← List.append_nil e.demands]
    exact (e.writes base).comp (Routine.writes_emit _)
  | .change name e => fun base =>
    (Routine.writes_emit _).comp ((e.writes base).comp
      ((Routine.writes_callSupport .add 2).comp (Routine.writes_emit _)))
  | .wait e => fun base =>
    (e.writes base).comp ((Routine.writes_callSupport .waitDuration 1).comp
      ((Routine.writes_emit _).comp ((Routine.writes_emit _).comp (Routine.writes_emit _))))
  | .host opcode args => fun base => by
    have hwrites : r.Writes p config base _ _ _ _ := (Expr.writes_all base args).comp
      ((Routine.writes_callHost opcode args.length).comp (Routine.writes_emit .drop))
    simp only [bind_assoc] at hwrites
    exact hwrites
  | .done => fun base => Routine.writes_emit _
  | .escape block opcode inputs => fun base => by
    rw [demands, ← List.append_nil (Expr.inputDemands inputs)]
    exact (Expr.writes_inputs base inputs).comp
      ((Routine.writes_emit _).comp (Routine.writes_emit _))

theorem writes_all : ∀ ns : List Stmt, AllWritten r p config ns
  | [] => fun _ => Routine.writes_nil
  | n :: ns => fun base => (writes n base).comp (writes_all ns (base + slots (r.settings config) n))

end

end Stmt

end Writing

/-! ## Routines -/

namespace Routine

/--
**Compiling a routine gives its image, or its first demand that cannot be met.**

The image is written instruction by instruction, with jumps that are mended later, and with tables
that grow. What comes of it is what can be told from the statements of the routine alone.
-/
theorem compile_eq (r : Routine) (p : Program) (config : CompilerConfig) :
    r.compile p config = match r.compileError? p config with
      | some e => .error e
      | none => .ok (r.image config) := by
  unfold compile compileError?
  dsimp only
  by_cases hargs : r.arguments.length < 65536
  · have harity : Draft.index ⟨r.label, r.warp, 0, #[], [], [], [], 0⟩ "arguments"
        r.arguments.length = .ok (UInt16.ofNat r.arguments.length) := by
      rw [Draft.index, if_pos hargs]
    have htables : (⟨[], [], []⟩ : Imports).addAll (r.demands config) = r.imports config := by
      rw [imports, ← List.nil_append (r.demands config), Imports.ofDemands_append]
      rfl
    have hwritten := Stmt.writes_all (p := p) r.stack 0 ⟨[], [], []⟩ []
      (show (Imports.addAll _ (r.demands config)).Begins (r.imports config) by
        rw [htables]
        exact ⟨List.prefix_rfl, List.prefix_rfl, List.prefix_rfl⟩)
    rw [harity, if_neg (by omega)]
    change (Stmt.writeAll p config r.stack (r.draft ⟨[], [], []⟩ [] 0) >>= fun d =>
      pure (d.emit .ret).image) = _
    rw [hwritten]
    unfold outcome demands
    cases (Stmt.allDemands (r.settings config) 0 r.stack).findSome?
        (Demand.failure? r.label p (r.imports config)) with
    | some e => rfl
    | none =>
      refine congrArg Except.ok ?_
      rw [emit_draft]
      change Draft.image (r.draft (Imports.addAll _ (r.demands config)) _ _) = _
      rw [htables, Nat.zero_add]
      rfl
  · rw [Draft.index, if_neg hargs, if_pos (by omega)]
    rfl

variable {r : Routine} {p : Program} {config : CompilerConfig} {image : Image}

/-- A routine compiles to its image, and then all its demands are met. -/
theorem compile_eq_ok (h : r.compile p config = .ok image) :
    image = r.image config ∧ r.arguments.length < 65536
      ∧ ∀ d ∈ r.demands config, (r.imports config).Meets d := by
  rw [compile_eq] at h
  split at h
  · cases h
  · next herror =>
    cases h
    unfold compileError? at herror
    split at herror
    · cases herror
    · next hargs =>
      refine ⟨rfl, by omega, fun d hd => ?_⟩
      exact Imports.meets_of_failure?_eq_none hd (List.findSome?_eq_none_iff.mp herror d hd)

end Routine

end BlockScript
