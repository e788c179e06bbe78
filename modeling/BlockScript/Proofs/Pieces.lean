import BlockScript.Proofs.Simulation

/-!
# What stands in the code of a routine

The code of a routine is put together from the code of its statements and expressions, at any depth.
So its escapes have no more inputs than those of the statements and expressions
(`Stmt.escapeFits_allCode`), and the code of each expression and of each statement stands somewhere
in it, with the demands met (`Routine.placed_of_compile`, `Routine.exists_placedAt`).
-/

namespace BlockScript

/-! ## Escapes in code -/

/-- An escape has so few inputs that the machine can count them. -/
def Instr.EscapeFits : Instr → Prop
  | .escape _ _ inputs => inputs.length < 65536
  | _ => True

namespace Expr

variable {i : Imports}

mutual

theorem escapeFits_code : ∀ {e : Expr}, (∀ n ∈ e.nodes, n.EscapesFit) → ∀ op ∈ e.code i,
    op.EscapeFits
  | .const v, _ | .arg index shape, _ | .var name, _ => by simp [code, Instr.EscapeFits]
  | .unary op e, h => by
    rw [nodes, List.forall_mem_cons] at h
    rw [code, List.forall_mem_append, List.forall_mem_singleton]
    exact ⟨escapeFits_code h.2, trivial⟩
  | .binary op e₁ e₂, h => by
    rw [nodes, List.forall_mem_cons, List.forall_mem_append] at h
    rw [code, List.forall_mem_append, List.forall_mem_append, List.forall_mem_singleton]
    exact ⟨⟨escapeFits_code h.2.1, escapeFits_code h.2.2⟩, trivial⟩
  | .host opcode args shape, h => by
    rw [nodes, List.forall_mem_cons] at h
    rw [code, List.forall_mem_append, List.forall_mem_singleton]
    exact ⟨escapeFits_allCode h.2, trivial⟩
  | .escape block opcode inputs, h => by
    rw [nodes, List.forall_mem_cons] at h
    rw [code, List.forall_mem_append, List.forall_mem_singleton]
    refine ⟨escapeFits_inputCode h.2, ?_⟩
    rw [Instr.EscapeFits, List.length_map]
    exact h.1

theorem escapeFits_allCode : ∀ {es : List Expr}, (∀ n ∈ allNodes es, n.EscapesFit) →
    ∀ op ∈ allCode i es, op.EscapeFits
  | [], _ => fun _ h => by cases h
  | e :: es, h => by
    rw [allNodes, List.forall_mem_append] at h
    rw [allCode, List.forall_mem_append]
    exact ⟨escapeFits_code h.1, escapeFits_allCode h.2⟩

theorem escapeFits_inputCode : ∀ {inputs : List (String × Expr)},
    (∀ n ∈ inputNodes inputs, n.EscapesFit) → ∀ op ∈ inputCode i inputs, op.EscapeFits
  | [], _ => fun _ h => by cases h
  | (_, e) :: inputs, h => by
    rw [inputNodes, List.forall_mem_append] at h
    rw [inputCode, List.forall_mem_append]
    exact ⟨escapeFits_code h.1, escapeFits_inputCode h.2⟩

end

theorem escapeFits_conditionCode {e : Expr} (h : ∀ n ∈ e.nodes, n.EscapesFit) :
    ∀ op ∈ e.conditionCode i, op.EscapeFits := by
  unfold conditionCode
  split
  · exact escapeFits_code h
  · rw [List.forall_mem_append, List.forall_mem_singleton]
    exact ⟨escapeFits_code h, trivial⟩

end Expr

/-- The code of a loop around its body. -/
theorem LoopKind.escapeFits_code {i : Imports} {kind : LoopKind}
    (h : ∀ n ∈ Expr.allNodes kind.exprs, n.EscapesFit) (base rest : Nat) :
    (∀ op ∈ kind.countCode i base, op.EscapeFits)
      ∧ ∀ op ∈ kind.testCode i base rest, op.EscapeFits := by
  cases kind with
  | times count =>
    rw [exprs, Expr.allNodes, List.forall_mem_append] at h
    rw [countCode, List.forall_mem_append, testCode, List.forall_mem_singleton]
    exact ⟨⟨Expr.escapeFits_code h.1, by simp [Imports.callSupport, Instr.EscapeFits]⟩, trivial⟩
  | forever => exact ⟨fun _ h => (List.not_mem_nil h).elim, fun _ h => (List.not_mem_nil h).elim⟩
  | «until» c | «while» c | waitUntil c =>
    rw [exprs, Expr.allNodes, List.forall_mem_append] at h
    rw [testCode, List.forall_mem_append, List.forall_mem_singleton]
    exact ⟨fun _ h => (List.not_mem_nil h).elim, Expr.escapeFits_conditionCode h.1, trivial⟩

namespace Stmt

variable {s : CodeSettings} {i : Imports}

mutual

theorem escapeFits_code : ∀ {n : Stmt} {base : Nat}, (∀ m ∈ n.nodes, m.EscapesFit) →
    ∀ op ∈ n.code s i base, op.EscapeFits
  | .branch c yes no, base, h => by
    have hexprs := (h _ (self_mem_nodes _)).exprs
    rw [nodes, List.forall_mem_cons, List.forall_mem_append] at h
    rw [exprs, Expr.allNodes, List.forall_mem_append] at hexprs
    have hc := Expr.escapeFits_conditionCode (i := i) hexprs.1
    have hyes : ∀ op ∈ allCode s i base yes, op.EscapeFits := escapeFits_allCode h.2.1
    have hno : ∀ op ∈ allCode s i (base + allSlots s yes) no, op.EscapeFits :=
      escapeFits_allCode h.2.2
    rw [code]
    split
    · rw [List.forall_mem_append, List.forall_mem_cons]
      exact ⟨hc, trivial, hyes⟩
    · rw [List.forall_mem_append, List.forall_mem_append, List.forall_mem_cons,
        List.forall_mem_cons]
      exact ⟨⟨hc, trivial, hyes⟩, trivial, hno⟩
  | .loop kind body warpSafe interval, base, h => by
    have hexprs := (h _ (self_mem_nodes _)).exprs
    rw [nodes, List.forall_mem_cons] at h
    have hstart : ∀ op ∈ deadlineStart s warpSafe (base + kind.slots), op.EscapeFits := by
      unfold deadlineStart
      split <;> simp [Instr.EscapeFits]
    have hend : ∀ op ∈ roundEnd s warpSafe (base + kind.slots) interval, op.EscapeFits := by
      unfold roundEnd
      split
      · split <;> simp [Instr.EscapeFits]
      · simp [Instr.EscapeFits]
    rw [code, List.forall_mem_append, List.forall_mem_append, List.forall_mem_append,
      List.forall_mem_append, List.forall_mem_append, List.forall_mem_singleton]
    obtain ⟨hcount, htest⟩ := LoopKind.escapeFits_code (i := i) hexprs base
      ((allCode s i (base + kind.slots + s.deadlineSlots warpSafe) body
        ++ roundEnd s warpSafe (base + kind.slots) interval).length + 1)
    exact ⟨⟨⟨⟨hcount, hstart⟩, htest⟩, escapeFits_allCode h.2, hend⟩, trivial⟩
  | .call key args y, base, h => by
    have hexprs := (h _ (self_mem_nodes _)).exprs
    rw [code, List.forall_mem_append, List.forall_mem_append, List.forall_mem_singleton]
    refine ⟨⟨?_, Expr.escapeFits_allCode hexprs⟩, trivial⟩
    cases y <;> simp [Instr.EscapeFits]
  | .set name e, base, h => by
    have hexprs := (h _ (self_mem_nodes _)).exprs
    rw [exprs, Expr.allNodes, List.forall_mem_append] at hexprs
    rw [code, List.forall_mem_append, List.forall_mem_singleton]
    exact ⟨Expr.escapeFits_code hexprs.1, trivial⟩
  | .change name e, base, h => by
    have hexprs := (h _ (self_mem_nodes _)).exprs
    rw [exprs, Expr.allNodes, List.forall_mem_append] at hexprs
    rw [code, List.forall_mem_cons, List.forall_mem_append]
    exact ⟨trivial, Expr.escapeFits_code hexprs.1, by simp [Imports.callSupport, Instr.EscapeFits]⟩
  | .wait e, base, h => by
    have hexprs := (h _ (self_mem_nodes _)).exprs
    rw [exprs, Expr.allNodes, List.forall_mem_append] at hexprs
    rw [code, List.forall_mem_append]
    exact ⟨Expr.escapeFits_code hexprs.1, by simp [Imports.callSupport, Instr.EscapeFits]⟩
  | .host opcode args, base, h => by
    have hexprs := (h _ (self_mem_nodes _)).exprs
    rw [code, List.forall_mem_append]
    exact ⟨Expr.escapeFits_allCode hexprs, by simp [Imports.callHost, Instr.EscapeFits]⟩
  | .done, base, h => by simp [code, Instr.EscapeFits]
  | .escape block opcode inputs, base, h => by
    have hself := h _ (self_mem_nodes _)
    have hexprs := hself.exprs
    rw [exprs, ← Expr.inputNodes_eq] at hexprs
    rw [code, List.forall_mem_append, List.forall_mem_cons, List.forall_mem_singleton]
    refine ⟨Expr.escapeFits_inputCode hexprs, ?_, trivial⟩
    rw [Instr.EscapeFits, List.length_map]
    exact hself.inputs

theorem escapeFits_allCode : ∀ {ns : List Stmt} {base : Nat}, (∀ m ∈ allNodes ns, m.EscapesFit) →
    ∀ op ∈ allCode s i base ns, op.EscapeFits
  | [], _, _ => fun _ h => by cases h
  | n :: ns, base, h => by
    rw [allNodes, List.forall_mem_append] at h
    rw [allCode, List.forall_mem_append]
    exact ⟨escapeFits_code h.1, escapeFits_allCode h.2⟩

end

end Stmt

/-! ## Where the code of inner expressions stands -/

/-- An instruction of a piece of code. -/
theorem CodeAt.getElem?_add {code piece : List Instr} {a n : Nat} (h : CodeAt code a piece)
    (hn : n < piece.length) : code[a + n]? = piece[n]? := by
  obtain ⟨before, after, rfl, rfl⟩ := h
  rw [List.append_assoc, List.getElem?_append_right (Nat.le_add_right _ _), Nat.add_sub_cancel_left,
    List.getElem?_append_left hn]

/-- The code of the expression stands somewhere in the code, and its demands are met. -/
structure Expr.Placed (i : Imports) (code : List Instr) (e : Expr) : Prop where
  codeAt : ∃ a, CodeAt code a (e.code i)
  met : ∀ d ∈ e.demands, i.Meets d

variable {i : Imports} {code : List Instr} {a : Nat}

namespace Expr

theorem placed_of_allCode : ∀ {es : List Expr} {a : Nat}, CodeAt code a (allCode i es) →
    (∀ d ∈ allDemands es, i.Meets d) → ∀ e ∈ es, e.Placed i code
  | [], _, _, _ => fun _ he => by cases he
  | e :: es, a, hat, hmet => by
    rw [allCode] at hat
    rw [allDemands, List.forall_mem_append] at hmet
    rw [List.forall_mem_cons]
    exact ⟨⟨⟨a, hat.left⟩, hmet.1⟩, placed_of_allCode hat.right hmet.2⟩

theorem placed_of_inputCode : ∀ {inputs : List (String × Expr)} {a : Nat},
    CodeAt code a (inputCode i inputs) → (∀ d ∈ inputDemands inputs, i.Meets d) →
    ∀ e ∈ inputs.map Prod.snd, e.Placed i code
  | [], _, _, _ => fun _ he => by cases he
  | (_, e) :: inputs, a, hat, hmet => by
    rw [inputCode] at hat
    rw [inputDemands, List.forall_mem_append] at hmet
    rw [List.map_cons, List.forall_mem_cons]
    exact ⟨⟨⟨a, hat.left⟩, hmet.1⟩, placed_of_inputCode hat.right hmet.2⟩

theorem placed_of_conditionCode {e : Expr} (hat : CodeAt code a (e.conditionCode i))
    (hmet : ∀ d ∈ e.conditionDemands, i.Meets d) : e.Placed i code := by
  unfold conditionCode at hat
  unfold conditionDemands at hmet
  split at hat
  · next hshape =>
    rw [if_pos hshape] at hmet
    exact ⟨⟨a, hat⟩, hmet⟩
  · next hshape =>
    rw [if_neg hshape, List.forall_mem_append] at hmet
    exact ⟨⟨a, hat.left⟩, hmet.1⟩

theorem Placed.children {e : Expr} (h : e.Placed i code) : ∀ c ∈ e.children, c.Placed i code := by
  obtain ⟨⟨a, hat⟩, hmet⟩ := h
  cases e with
  | const | arg | var => exact fun _ hc => by cases hc
  | unary op e =>
    rw [Expr.code] at hat
    rw [demands, List.forall_mem_append] at hmet
    exact List.forall_mem_singleton.mpr ⟨⟨a, hat.left⟩, hmet.1⟩
  | binary op e₁ e₂ =>
    rw [Expr.code] at hat
    rw [demands, List.forall_mem_append, List.forall_mem_append] at hmet
    rw [Expr.children, List.forall_mem_cons, List.forall_mem_singleton]
    exact ⟨⟨⟨a, hat.left.left⟩, hmet.1.1⟩, ⟨⟨_, hat.left.right⟩, hmet.1.2⟩⟩
  | host opcode args shape =>
    rw [Expr.code] at hat
    rw [demands, List.forall_mem_append] at hmet
    exact placed_of_allCode hat.left hmet.1
  | escape block opcode inputs =>
    rw [Expr.code] at hat
    rw [demands] at hmet
    exact placed_of_inputCode hat.left hmet

end Expr

theorem LoopKind.placed_exprs {kind : LoopKind} {base b rest : Nat}
    (hcount : CodeAt code a (kind.countCode i base))
    (htest : CodeAt code b (kind.testCode i base rest))
    (hmetCount : ∀ d ∈ kind.countDemands base, i.Meets d)
    (hmetTest : ∀ d ∈ kind.testDemands, i.Meets d) : ∀ e ∈ kind.exprs, e.Placed i code := by
  cases kind with
  | times count =>
    rw [countCode] at hcount
    rw [countDemands, List.forall_mem_append] at hmetCount
    exact List.forall_mem_singleton.mpr ⟨⟨a, hcount.left⟩, hmetCount.1⟩
  | forever => exact fun _ he => by cases he
  | «until» c | «while» c | waitUntil c =>
    rw [testCode] at htest
    exact List.forall_mem_singleton.mpr (Expr.placed_of_conditionCode htest.left hmetTest)

namespace Stmt

variable {s : CodeSettings}

mutual

theorem placed_of_code : ∀ {n : Stmt} {base a : Nat}, CodeAt code a (n.code s i base) →
    (∀ d ∈ n.demands s base, i.Meets d) → ∀ m ∈ n.nodes, ∀ e ∈ m.exprs, e.Placed i code
  | .branch c yes no, base, a, hat, hmet => by
    simp only [demands, List.forall_mem_append] at hmet
    rw [nodes, List.forall_mem_cons, List.forall_mem_append, exprs, List.forall_mem_singleton]
    cases hempty : no.isEmpty with
    | true =>
      obtain ⟨hcond, hyes⟩ := branchAt_of_isEmpty hempty hat
      refine ⟨Expr.placed_of_conditionCode hcond.left hmet.1.1, placed_of_allCode hyes hmet.1.2, ?_⟩
      rw [List.isEmpty_iff.mp hempty]
      exact fun _ hm => by cases hm
    | false =>
      obtain ⟨hcond, hyes, -, hno⟩ := branchAt_of_not_isEmpty hempty hat
      simp only [hempty, Bool.false_eq_true, if_false, List.forall_mem_cons,
        List.forall_mem_append] at hmet
      exact ⟨Expr.placed_of_conditionCode hcond.left hmet.1.1, placed_of_allCode hyes hmet.1.2,
        placed_of_allCode hno hmet.2.2.1⟩
  | .loop kind body warpSafe interval, base, a, hat, hmet => by
    have hloop := loopAt hat
    simp only [demands, List.forall_mem_append] at hmet
    obtain ⟨⟨⟨⟨hcount, -⟩, htest⟩, hbody⟩, -⟩ := hmet
    rw [nodes, List.forall_mem_cons]
    exact ⟨LoopKind.placed_exprs hloop.countAt hloop.testAt hcount htest,
      placed_of_allCode hloop.bodyAt hbody⟩
  | .call key args y, base, a, hat, hmet => by
    rw [Stmt.code] at hat
    rw [demands, List.forall_mem_cons, List.forall_mem_append] at hmet
    exact List.forall_mem_singleton.mpr (Expr.placed_of_allCode hat.left.right hmet.2.1)
  | .set name e, base, a, hat, hmet => by
    rw [Stmt.code] at hat
    rw [demands] at hmet
    exact List.forall_mem_singleton.mpr (List.forall_mem_singleton.mpr ⟨⟨a, hat.left⟩, hmet⟩)
  | .change name e, base, a, hat, hmet => by
    rw [Stmt.code] at hat
    rw [demands, List.forall_mem_append] at hmet
    exact List.forall_mem_singleton.mpr
      (List.forall_mem_singleton.mpr ⟨⟨a + 1, hat.tail.left⟩, hmet.1⟩)
  | .wait e, base, a, hat, hmet => by
    rw [Stmt.code] at hat
    rw [demands, List.forall_mem_append] at hmet
    exact List.forall_mem_singleton.mpr (List.forall_mem_singleton.mpr ⟨⟨a, hat.left⟩, hmet.1⟩)
  | .host opcode args, base, a, hat, hmet => by
    rw [Stmt.code] at hat
    rw [demands, List.forall_mem_append] at hmet
    exact List.forall_mem_singleton.mpr (Expr.placed_of_allCode hat.left hmet.1)
  | .done, _, _, _, _ => List.forall_mem_singleton.mpr fun _ he => by cases he
  | .escape block opcode inputs, base, a, hat, hmet => by
    rw [Stmt.code] at hat
    rw [demands] at hmet
    exact List.forall_mem_singleton.mpr (Expr.placed_of_inputCode hat.left hmet)

theorem placed_of_allCode : ∀ {ns : List Stmt} {base a : Nat}, CodeAt code a (allCode s i base ns) →
    (∀ d ∈ allDemands s base ns, i.Meets d) → ∀ m ∈ allNodes ns, ∀ e ∈ m.exprs, e.Placed i code
  | [], _, _, _, _ => fun _ hm => by cases hm
  | n :: ns, base, a, hat, hmet => by
    rw [allCode] at hat
    rw [allDemands, List.forall_mem_append] at hmet
    rw [allNodes, List.forall_mem_append]
    exact ⟨placed_of_code hat.left hmet.1, placed_of_allCode hat.right hmet.2⟩

end

end Stmt

/-- **The code of each expression of a routine stands somewhere in the code of the routine.** -/
theorem Routine.placed_of_compile {r : Routine} {p : Program} {c : CompilerConfig} {image : Image}
    (h : r.compile p c = .ok image) :
    ∀ e ∈ Stmt.allExprs r.stack, e.Placed (r.imports c) (r.code c) := by
  obtain ⟨-, -, hmet⟩ := compile_eq_ok h
  intro e he
  obtain ⟨n, hn, he⟩ := List.mem_flatMap.mp he
  exact Expr.forall_allNodes (fun _ h => h.children)
    (Stmt.placed_of_allCode (CodeAt.whole _ _) hmet n hn) e he

/-! ## Where the code of inner statements stands -/

namespace Stmt

/-- The code of the statement stands at position `a`, its local slots begin with `base`, and its
demands are met. -/
structure PlacedAt (s : CodeSettings) (i : Imports) (code : List Instr) (n : Stmt) (a base : Nat) :
    Prop where
  codeAt : CodeAt code a (n.code s i base)
  met : ∀ d ∈ n.demands s base, i.Meets d

variable {s : CodeSettings}

mutual

theorem PlacedAt.nodes : ∀ {n : Stmt} {a base : Nat}, n.PlacedAt s i code a base →
    ∀ m ∈ n.nodes, ∃ a base, m.PlacedAt s i code a base
  | .branch c yes no, a, base, h => by
    have hmet := h.met
    simp only [demands, List.forall_mem_append] at hmet
    rw [Stmt.nodes, List.forall_mem_cons, List.forall_mem_append]
    cases hempty : no.isEmpty with
    | true =>
      obtain ⟨-, hyes⟩ := branchAt_of_isEmpty hempty h.codeAt
      refine ⟨⟨a, base, h⟩, placedAt_of_allCode hyes hmet.1.2, ?_⟩
      rw [List.isEmpty_iff.mp hempty]
      exact fun _ hm => by cases hm
    | false =>
      obtain ⟨-, hyes, -, hno⟩ := branchAt_of_not_isEmpty hempty h.codeAt
      simp only [hempty, Bool.false_eq_true, if_false, List.forall_mem_cons,
        List.forall_mem_append] at hmet
      exact ⟨⟨a, base, h⟩, placedAt_of_allCode hyes hmet.1.2, placedAt_of_allCode hno hmet.2.2.1⟩
  | .loop kind body warpSafe interval, a, base, h => by
    have hmet := h.met
    simp only [demands, List.forall_mem_append] at hmet
    obtain ⟨⟨-, hbody⟩, -⟩ := hmet
    rw [Stmt.nodes, List.forall_mem_cons]
    exact ⟨⟨a, base, h⟩, placedAt_of_allCode (loopAt h.codeAt).bodyAt hbody⟩
  | .call _ _ _, a, base, h | .set _ _, a, base, h | .change _ _, a, base, h | .wait _, a, base, h
  | .host _ _, a, base, h | .done, a, base, h | .escape _ _ _, a, base, h =>
    List.forall_mem_singleton.mpr ⟨a, base, h⟩

theorem placedAt_of_allCode :
    ∀ {ns : List Stmt} {a base : Nat}, CodeAt code a (allCode s i base ns) →
      (∀ d ∈ allDemands s base ns, i.Meets d) →
      ∀ m ∈ allNodes ns, ∃ a base, m.PlacedAt s i code a base
  | [], _, _, _, _ => fun _ hm => by cases hm
  | n :: ns, a, base, hat, hmet => by
    rw [allCode] at hat
    rw [allDemands, List.forall_mem_append] at hmet
    rw [allNodes, List.forall_mem_append]
    exact ⟨PlacedAt.nodes ⟨hat.left, hmet.1⟩, placedAt_of_allCode hat.right hmet.2⟩

end

end Stmt

/-- **The code of each statement of a routine stands somewhere in the code of the routine.** -/
theorem Routine.exists_placedAt {r : Routine} {p : Program} {c : CompilerConfig} {image : Image}
    (h : r.compile p c = .ok image) : ∀ n ∈ Stmt.allNodes r.stack,
      ∃ a base, n.PlacedAt (r.settings c) (r.imports c) image.ops a base := by
  obtain ⟨rfl, -, hmet⟩ := compile_eq_ok h
  exact Stmt.placedAt_of_allCode (CodeAt.whole _ _) hmet

end BlockScript
