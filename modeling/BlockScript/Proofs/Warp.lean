import BlockScript.Proofs.Drafts
import BlockScript.Proofs.Layout
import BlockScript.Proofs.Lowering

/-!
# Statements and code in warp

Whether a loop is safe to run in warp, and whether the thread gives way before a call, is decided
where the statement is made, and nowhere else: each loop and each call of a routine was made in the
routine's surroundings (`Target.makes_of_routineOf`).

In code there are three instructions with which a thread gives way of its own accord. Each of them
belongs to a wait, to the end of a loop's rounds or to a call that gives way
(`Stmt.exists_node_of_pauses`). So a routine in warp that nowhere waits has none of them, apart from
looks at the deadline (`Surroundings.checks_of_pauses`), and those it has only if the compiler was
told to put them there (`Routine.settings_of_checkDeadline`).
-/

namespace BlockScript

/-! ## Loops and calls as they are made -/

/-- If the statement is a loop or a call, it was made in these surroundings. -/
def Surroundings.Makes (s : Surroundings) : Stmt → Prop
  | .loop kind body warpSafe interval => s.makeLoop kind body = .loop kind body warpSafe interval
  | .call key args yieldFirst => ∃ d, s.makeCall d args = .call key args yieldFirst
  | _ => True

/-- The loops and calls in what a slot became were made in these surroundings. -/
def Part.MadeIn (s : Surroundings) : Part → Prop
  | .expr _ => True
  | .body ss => ∀ n ∈ Stmt.allNodes ss, s.Makes n

theorem Part.makes_bodyAt {s : Surroundings} {parts : List (String × Part)}
    (h : ∀ q ∈ parts, q.2.MadeIn s) (name : String) :
    ∀ n ∈ Stmt.allNodes (bodyAt parts name), s.Makes n := by
  unfold bodyAt
  split
  · next ss hs => exact h _ (mem_of_lookup hs)
  · simp [Stmt.allNodes]

namespace Surroundings

variable {s : Surroundings}

/-- The statement of a block was made in the surroundings that the block is read with. -/
theorem makes_statement {parts : List (String × Part)} (h : ∀ q ∈ parts, q.2.MadeIn s)
    {id : BlockId} {b : Block} {stmt : Stmt} (hstmt : s.statement? id b parts = some stmt) :
    ∀ n ∈ stmt.nodes, s.Makes n := by
  have hbody := fun name => Part.makes_bodyAt h name
  unfold statement? at hstmt
  split at hstmt
  · cases hstmt
  · cases hstmt
    rw [makeLoop, Stmt.nodes, List.forall_mem_cons]
    exact ⟨rfl, forall_allNodes_loopBody (hbody _) _⟩
  · next withElse _ =>
    cases hstmt
    rw [Stmt.nodes, List.forall_mem_cons, List.forall_mem_append]
    refine ⟨trivial, hbody _, ?_⟩
    cases withElse with
    | false => simp [Stmt.allNodes]
    | true => exact hbody _
  · cases hstmt
    exact List.forall_mem_singleton.mpr trivial
  · cases hstmt
    exact List.forall_mem_singleton.mpr trivial
  · cases hstmt
    exact List.forall_mem_singleton.mpr trivial
  · cases hstmt
    exact List.forall_mem_singleton.mpr trivial
  · obtain ⟨d, -, rfl⟩ := Option.map_eq_some_iff.mp hstmt
    exact List.forall_mem_singleton.mpr ⟨d, rfl⟩
  · cases hstmt
    exact List.forall_mem_singleton.mpr trivial
  · cases hstmt
    exact List.forall_mem_singleton.mpr trivial

theorem carries_makes : s.Carries (Part.MadeIn s) where
  literal _ := trivial
  reporter _ _ _ _ := trivial
  nil := by simp [Part.MadeIn, Stmt.allNodes]
  append hss hts := by
    rw [Part.MadeIn, Stmt.allNodes_append, List.forall_mem_append]
    exact ⟨hss, hts⟩
  statement h hstmt := by
    rw [Part.MadeIn, Stmt.allNodes, Stmt.allNodes, List.append_nil]
    exact makes_statement h hstmt

end Surroundings

/-- **The loops and calls of a routine were made in its surroundings.** -/
theorem Target.makes_of_routineOf {s : Surroundings} {script : Script} {arguments : List Shape}
    {key : Option VariantKey} {r : Routine} (h : routineOf s script arguments key = .ok r) :
    r.script = script ∧ ∀ n ∈ Stmt.allNodes r.stack, s.Makes n := by
  unfold routineOf at h
  split at h
  · cases h
  · next trees _ =>
    cases h
    exact ⟨rfl, Surroundings.carries_makes.statements trees⟩

/-! ## Waiting -/

namespace Stmt

/-- The statement itself waits for time to pass or for a condition to hold. -/
def IsWait : Stmt → Prop
  | .wait _ => True
  | .loop kind _ _ _ => kind.isWait = true
  | _ => False

mutual

theorem waits_eq_false_iff : ∀ {n : Stmt}, n.waits = false ↔ ∀ m ∈ n.nodes, ¬ m.IsWait
  | .branch c yes no => by
    rw [waits, Bool.or_eq_false_iff, anyWaits_eq_false_iff, anyWaits_eq_false_iff, nodes,
      List.forall_mem_cons, List.forall_mem_append]
    simp [IsWait]
  | .loop kind body warpSafe interval => by
    rw [waits, Bool.or_eq_false_iff, anyWaits_eq_false_iff, nodes, List.forall_mem_cons]
    simp [IsWait]
  | .wait e => by simp [waits, nodes, IsWait]
  | .call _ _ _ | .set _ _ | .change _ _ | .host _ _ | .done | .escape _ _ _ => by
    simp [waits, nodes, IsWait]

/-- Statements wait if there is a wait at any depth of them. -/
theorem anyWaits_eq_false_iff :
    ∀ {ss : List Stmt}, anyWaits ss = false ↔ ∀ m ∈ allNodes ss, ¬ m.IsWait
  | [] => by simp [anyWaits, allNodes]
  | n :: ss => by
    rw [anyWaits, Bool.or_eq_false_iff, waits_eq_false_iff, anyWaits_eq_false_iff, allNodes,
      List.forall_mem_append]

end

end Stmt

/-- Nothing in the routine waits, at any depth. Calls are not looked into. -/
def Routine.WaitFree (r : Routine) : Prop := ∀ n ∈ Stmt.allNodes r.stack, ¬ n.IsWait

/-! ## Instructions of expressions -/

namespace Instr

/-- The instruction leaves a value on the stack, and takes only values from it. -/
def computes : Instr → Bool
  | .push _ | .loadArg _ | .callSupport _ _ | .callHost _ _ | .escape _ _ _ | .getVariable _ => true
  | _ => false

/-- With the instruction a thread may give way of its own accord. -/
def pauses : Instr → Bool
  | .yield _ | .checkDeadline _ _ | .waitTimer => true
  | _ => false

theorem pauses_eq_false_of_computes {op : Instr} (h : op.computes = true) : op.pauses = false := by
  cases op with
  | yield | checkDeadline | waitTimer => cases h
  | _ => rfl

end Instr

namespace Expr

variable {i : Imports}

mutual

theorem computes_code : ∀ (e : Expr), ∀ op ∈ e.code i, op.computes = true
  | .const v | .arg index shape | .var name => by simp [code, Instr.computes]
  | .unary op e => by
    rw [code, List.forall_mem_append, List.forall_mem_singleton]
    exact ⟨computes_code e, rfl⟩
  | .binary op e₁ e₂ => by
    rw [code, List.forall_mem_append, List.forall_mem_append, List.forall_mem_singleton]
    exact ⟨⟨computes_code e₁, computes_code e₂⟩, rfl⟩
  | .host opcode args shape => by
    rw [code, List.forall_mem_append, List.forall_mem_singleton]
    exact ⟨computes_allCode args, rfl⟩
  | .escape block opcode inputs => by
    rw [code, List.forall_mem_append, List.forall_mem_singleton]
    exact ⟨computes_inputCode inputs, rfl⟩

theorem computes_allCode : ∀ (es : List Expr), ∀ op ∈ allCode i es, op.computes = true
  | [] => by simp [allCode]
  | e :: es => by
    rw [allCode, List.forall_mem_append]
    exact ⟨computes_code e, computes_allCode es⟩

theorem computes_inputCode : ∀ (inputs : List (String × Expr)), ∀ op ∈ inputCode i inputs,
    op.computes = true
  | [] => by simp [inputCode]
  | (_, e) :: inputs => by
    rw [inputCode, List.forall_mem_append]
    exact ⟨computes_code e, computes_inputCode inputs⟩

end

theorem computes_conditionCode (e : Expr) : ∀ op ∈ e.conditionCode i, op.computes = true := by
  unfold conditionCode
  split
  · exact computes_code e
  · rw [List.forall_mem_append, List.forall_mem_singleton]
    exact ⟨computes_code e, rfl⟩

end Expr

/-! ## Instructions that give way -/

theorem Expr.not_mem_of_pauses {i : Imports} {op : Instr} (hop : op.pauses = true) :
    (∀ e : Expr, op ∉ e.code i) ∧ (∀ e : Expr, op ∉ e.conditionCode i)
      ∧ (∀ es, op ∉ Expr.allCode i es) ∧ ∀ inputs, op ∉ Expr.inputCode i inputs := by
  have hcomputes : ¬ op.computes = true := fun h => by
    rw [Instr.pauses_eq_false_of_computes h] at hop
    cases hop
  exact ⟨fun e h => hcomputes (computes_code e op h),
    fun e h => hcomputes (computes_conditionCode e op h),
    fun es h => hcomputes (computes_allCode es op h),
    fun inputs h => hcomputes (computes_inputCode inputs op h)⟩

/-- Nothing gives way before a loop and in the test before its rounds. -/
theorem LoopKind.not_mem_of_pauses {i : Imports} {op : Instr} (hop : op.pauses = true)
    (kind : LoopKind) (base rest : Nat) :
    op ∉ kind.countCode i base ∧ op ∉ kind.testCode i base rest := by
  obtain ⟨hcode, hcondition, -, -⟩ := Expr.not_mem_of_pauses (i := i) hop
  cases kind with
  | times count =>
    simp only [countCode, testCode, List.mem_append, List.mem_cons, List.not_mem_nil,
      or_false, hcode, false_or]
    constructor
    · rintro (rfl | rfl) <;> cases hop
    · rintro rfl
      cases hop
  | forever => simp [countCode, testCode]
  | «until» c | «while» c | waitUntil c =>
    simp only [countCode, testCode, List.mem_append, List.mem_cons, List.not_mem_nil, or_false,
      hcondition, false_or, not_false_eq_true, true_and]
    rintro rfl
    cases hop

namespace Stmt

/-- The instructions of a statement, apart from the statements inside it, with which a thread may
give way. A loop that looks at the deadline counts in `slot`. -/
def pauses (s : CodeSettings) (slot : Nat) : Stmt → List Instr
  | .wait _ => [.yield .frame, .waitTimer]
  | .loop _ _ warpSafe interval => roundEnd s warpSafe slot interval
  | .call _ _ yieldFirst => if yieldFirst then [.yield .soft] else []
  | _ => []

section

variable {s : CodeSettings} {i : Imports} {op : Instr}

theorem not_mem_deadlineStart_of_pauses (hop : op.pauses = true) (warpSafe : Bool) (slot : Nat) :
    op ∉ deadlineStart s warpSafe slot := by
  unfold deadlineStart
  split
  · simp only [List.mem_cons, List.not_mem_nil, or_false]
    rintro (rfl | rfl) <;> cases hop
  · exact List.not_mem_nil

mutual

/-- **Each instruction that gives way belongs to a statement that does.** -/
theorem exists_node_of_pauses (hop : op.pauses = true) : ∀ {base : Nat} {t : Stmt},
    op ∈ code s i base t → ∃ n ∈ t.nodes, ∃ slot, op ∈ n.pauses s slot
  | base, .branch c yes no, h => by
    rw [nodes]
    have hcondition := (Expr.not_mem_of_pauses (i := i) hop).2.1 c
    have hyes : op ∈ allCode s i base yes →
        ∃ n ∈ allNodes yes ++ allNodes no, ∃ slot, op ∈ n.pauses s slot :=
      fun h => by
        obtain ⟨n, hn, hslot⟩ := exists_node_of_pauses_all hop h
        exact ⟨n, List.mem_append_left _ hn, hslot⟩
    have hno : op ∈ allCode s i (base + allSlots s yes) no →
        ∃ n ∈ allNodes yes ++ allNodes no, ∃ slot, op ∈ n.pauses s slot := fun h => by
      obtain ⟨n, hn, hslot⟩ := exists_node_of_pauses_all hop h
      exact ⟨n, List.mem_append_right _ hn, hslot⟩
    have hinside : op ∈ allCode s i base yes ∨ op ∈ allCode s i (base + allSlots s yes) no := by
      rw [code] at h
      split at h
      · simp only [List.mem_append, List.mem_cons, hcondition, false_or] at h
        rcases h with rfl | h
        · cases hop
        · exact Or.inl h
      · simp only [List.mem_append, List.mem_cons, hcondition, false_or] at h
        rcases h with (rfl | h) | rfl | h
        · cases hop
        · exact Or.inl h
        · cases hop
        · exact Or.inr h
    obtain ⟨n, hn, hslot⟩ := hinside.elim hyes hno
    exact ⟨n, List.mem_cons_of_mem _ hn, hslot⟩
  | base, .loop kind body warpSafe interval, h => by
    rw [nodes]
    rw [code] at h
    simp only [List.mem_append, List.mem_singleton] at h
    rcases h with (((h | h) | h) | h | h) | rfl
    · exact absurd h (kind.not_mem_of_pauses hop base 0).1
    · exact absurd h (not_mem_deadlineStart_of_pauses hop warpSafe _)
    · exact absurd h (kind.not_mem_of_pauses hop base _).2
    · obtain ⟨n, hn, hslot⟩ := exists_node_of_pauses_all hop h
      exact ⟨n, List.mem_cons_of_mem _ hn, hslot⟩
    · exact ⟨_, List.mem_cons_self, _, h⟩
    · cases hop
  | base, .call key args yieldFirst, h => by
    have hargs := (Expr.not_mem_of_pauses (i := i) hop).2.2.1 args
    rw [code] at h
    simp only [List.mem_append, List.mem_singleton, hargs, or_false] at h
    rcases h with h | rfl
    · exact ⟨_, self_mem_nodes _, 0, h⟩
    · cases hop
  | base, .set name e, h => by
    simp only [code, List.mem_append, List.mem_singleton, Expr.not_mem_of_pauses hop, false_or] at h
    cases h
    cases hop
  | base, .change name e, h => by
    simp only [code, List.mem_append, List.mem_cons, List.not_mem_nil, Expr.not_mem_of_pauses hop,
      false_or, or_false] at h
    rcases h with rfl | rfl | rfl <;> cases hop
  | base, .wait e, h => by
    simp only [code, List.mem_append, List.mem_cons, List.not_mem_nil, Expr.not_mem_of_pauses hop,
      false_or, or_false] at h
    refine ⟨_, self_mem_nodes _, 0, ?_⟩
    rcases h with rfl | rfl | rfl | rfl
    · cases hop
    · cases hop
    · exact List.mem_cons_self
    · exact List.mem_cons_of_mem _ List.mem_cons_self
  | base, .host opcode args, h => by
    simp only [code, List.mem_append, List.mem_cons, List.not_mem_nil, Expr.not_mem_of_pauses hop,
      false_or, or_false] at h
    rcases h with rfl | rfl <;> cases hop
  | base, .done, h => by
    cases List.mem_singleton.mp h
    cases hop
  | base, .escape block opcode inputs, h => by
    simp only [code, List.mem_append, List.mem_cons, List.not_mem_nil, Expr.not_mem_of_pauses hop,
      false_or, or_false] at h
    rcases h with rfl | rfl <;> cases hop

theorem exists_node_of_pauses_all (hop : op.pauses = true) : ∀ {base : Nat} {ts : List Stmt},
    op ∈ allCode s i base ts → ∃ n ∈ allNodes ts, ∃ slot, op ∈ n.pauses s slot
  | base, [], h => by cases h
  | base, t :: ts, h => by
    rw [allCode, List.mem_append] at h
    rw [allNodes]
    rcases h with h | h
    · obtain ⟨n, hn, hslot⟩ := exists_node_of_pauses hop h
      exact ⟨n, List.mem_append_left _ hn, hslot⟩
    · obtain ⟨n, hn, hslot⟩ := exists_node_of_pauses_all hop h
      exact ⟨n, List.mem_append_right _ hn, hslot⟩

end

/-- Looks at the deadline are there only if the settings ask for them. -/
theorem settings_of_checkDeadline {n : Stmt} {slot : Nat} {counter : UInt16} {interval : UInt32}
    (h : .checkDeadline counter interval ∈ n.pauses s slot) : s.warp = true ∧ s.timer = true := by
  cases n with
  | loop kind body warpSafe interval' =>
    rw [pauses, roundEnd] at h
    split at h
    · next hwarp =>
      split at h
      · next htimer => exact ⟨((Bool.and_eq_true _ _).mp hwarp).1, htimer⟩
      · cases h
    · cases List.mem_singleton.mp h
  | call key args yieldFirst =>
    rw [pauses] at h
    split at h
    · cases List.mem_singleton.mp h
    · cases h
  | wait e => simp [pauses] at h
  | branch | set | change | host | done | escape => cases h

end

end Stmt

/-- Only routines in warp look at the deadline, and only if the compiler was told so. -/
theorem Routine.settings_of_checkDeadline {r : Routine} {p : Program} {config : CompilerConfig}
    {image : Image} (h : r.compile p config = .ok image) {counter : UInt16} {interval : UInt32}
    (hop : .checkDeadline counter interval ∈ image.ops) :
    r.warp = true ∧ config.warpTimer = true := by
  rw [(Routine.compile_eq_ok h).1] at hop
  rcases List.mem_append.mp hop with hop | hop
  · obtain ⟨n, -, slot, hslot⟩ := Stmt.exists_node_of_pauses_all rfl hop
    exact Stmt.settings_of_checkDeadline hslot
  · cases List.mem_singleton.mp hop

/-- Only a look at the deadline gives way in a statement that was made in warp and has no wait in
it. -/
theorem Surroundings.checks_of_pauses {x : Surroundings} (hwarp : x.warp = true) {s : CodeSettings}
    (hs : s.warp = true) {n : Stmt} (hmade : x.Makes n) (hwait : ∀ m ∈ n.nodes, ¬ m.IsWait)
    {slot : Nat} {op : Instr} (h : op ∈ n.pauses s slot) :
    ∃ counter interval, op = .checkDeadline counter interval := by
  cases n with
  | wait e => exact absurd trivial (hwait _ (Stmt.self_mem_nodes _))
  | loop kind body warpSafe interval =>
    rw [Stmt.nodes, List.forall_mem_cons, ← Stmt.anyWaits_eq_false_iff] at hwait
    have hkind : kind.isWait = false := Bool.eq_false_iff.mpr hwait.1
    have hsafe : warpSafe = true := by
      have hsafe := (Stmt.loop.inj hmade).2.2.1
      rw [hkind, hwait.2] at hsafe
      exact hsafe.symm
    rw [Stmt.pauses, Stmt.roundEnd, CodeSettings.runsWarp, hs, hsafe, Bool.and_self,
      if_pos rfl] at h
    split at h
    · exact ⟨_, _, List.mem_singleton.mp h⟩
    · cases h
  | call key args yieldFirst =>
    obtain ⟨d, hcall⟩ := hmade
    have hyield : yieldFirst = false := by
      have hyield := (Stmt.call.inj hcall).2.2
      rw [hwarp] at hyield
      exact hyield.symm
    rw [Stmt.pauses, hyield] at h
    cases h
  | branch | set | change | host | done | escape => cases h

end BlockScript
