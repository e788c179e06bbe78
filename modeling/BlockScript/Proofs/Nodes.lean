import BlockScript.Routine.Basic

/-!
# Nodes at any depth

A routine is a tree of statements with trees of expressions in them. `Stmt.allNodes` lists the
statements of a stack at any depth, `Expr.nodes` an expression with all that it is made of. What
holds of a tree everywhere is said as `∀ n ∈ nodes, …`, and the lemmas here take such a statement
apart along the tree.
-/

namespace BlockScript

/-! ## Expressions -/

namespace Expr

mutual

/-- The expression and all expressions inside it. -/
def nodes : Expr → List Expr
  | .const v => [.const v]
  | .arg index shape => [.arg index shape]
  | .var name => [.var name]
  | .unary op operand => .unary op operand :: operand.nodes
  | .binary op left right => .binary op left right :: (left.nodes ++ right.nodes)
  | .host opcode args shape => .host opcode args shape :: allNodes args
  | .escape block opcode inputs => .escape block opcode inputs :: inputNodes inputs

/-- The nodes of expressions. -/
def allNodes : List Expr → List Expr
  | [] => []
  | e :: es => e.nodes ++ allNodes es

/-- The nodes of named expressions. -/
def inputNodes : List (String × Expr) → List Expr
  | [] => []
  | (_, e) :: es => e.nodes ++ inputNodes es

end

/-- An expression is a node of itself. -/
theorem self_mem_nodes (e : Expr) : e ∈ e.nodes := by
  cases e <;> simp [nodes]

theorem inputNodes_eq (inputs : List (String × Expr)) :
    inputNodes inputs = allNodes (inputs.map Prod.snd) := by
  induction inputs with
  | nil => rfl
  | cons input inputs ih => rw [inputNodes, List.map_cons, allNodes, ih]

theorem mem_allNodes_iff {x : Expr} {es : List Expr} :
    x ∈ allNodes es ↔ ∃ e ∈ es, x ∈ e.nodes := by
  induction es with
  | nil => simp [allNodes]
  | cons e es ih => simp [allNodes, ih]

/-- The expressions that an expression is put together from. -/
def children : Expr → List Expr
  | .const _ | .arg _ _ | .var _ => []
  | .unary _ operand => [operand]
  | .binary _ left right => [left, right]
  | .host _ args _ => args
  | .escape _ _ inputs => inputs.map Prod.snd

theorem nodes_eq (e : Expr) : e.nodes = e :: allNodes e.children := by
  cases e with
  | escape block opcode inputs => rw [nodes, children, inputNodes_eq]
  | _ => simp [nodes, children, allNodes]

mutual

/-- What passes from each expression to its children passes to all expressions inside it. -/
theorem forall_nodes {P : Expr → Prop} (hP : ∀ e, P e → ∀ c ∈ e.children, P c) :
    ∀ {e : Expr}, P e → ∀ x ∈ e.nodes, P x
  | .const _, h | .arg _ _, h | .var _, h => List.forall_mem_singleton.mpr h
  | .unary op e, h => by
    rw [nodes, List.forall_mem_cons]
    exact ⟨h, forall_nodes hP (hP _ h e List.mem_cons_self)⟩
  | .binary op e₁ e₂, h => by
    rw [nodes, List.forall_mem_cons, List.forall_mem_append]
    exact ⟨h, forall_nodes hP (hP _ h e₁ List.mem_cons_self),
      forall_nodes hP (hP _ h e₂ (List.mem_cons_of_mem _ List.mem_cons_self))⟩
  | .host opcode args shape, h => by
    rw [nodes, List.forall_mem_cons]
    exact ⟨h, forall_allNodes hP (hP _ h)⟩
  | .escape block opcode inputs, h => by
    rw [nodes, List.forall_mem_cons]
    exact ⟨h, forall_inputNodes hP (hP _ h)⟩

theorem forall_allNodes {P : Expr → Prop} (hP : ∀ e, P e → ∀ c ∈ e.children, P c) :
    ∀ {es : List Expr}, (∀ e ∈ es, P e) → ∀ x ∈ allNodes es, P x
  | [], _ => fun _ hx => by cases hx
  | e :: es, h => by
    rw [List.forall_mem_cons] at h
    rw [allNodes, List.forall_mem_append]
    exact ⟨forall_nodes hP h.1, forall_allNodes hP h.2⟩

theorem forall_inputNodes {P : Expr → Prop} (hP : ∀ e, P e → ∀ c ∈ e.children, P c) :
    ∀ {inputs : List (String × Expr)}, (∀ e ∈ inputs.map Prod.snd, P e) →
      ∀ x ∈ inputNodes inputs, P x
  | [], _ => fun _ hx => by cases hx
  | (_, e) :: inputs, h => by
    rw [List.map_cons, List.forall_mem_cons] at h
    rw [inputNodes, List.forall_mem_append]
    exact ⟨forall_nodes hP h.1, forall_inputNodes hP h.2⟩

end

/-- What an inner expression is made of, the outer ones are made of too. -/
theorem nodes_subset {es : List Expr} {x : Expr} (hx : x ∈ allNodes es) :
    x.nodes ⊆ allNodes es := by
  refine forall_allNodes (P := fun e => e.nodes ⊆ allNodes es) (fun e he c hc y hy => he ?_)
    (fun e he y hy => mem_allNodes_iff.mpr ⟨e, he, hy⟩) x hx
  rw [nodes_eq]
  exact List.mem_cons_of_mem _ (mem_allNodes_iff.mpr ⟨c, hc, hy⟩)

end Expr

/-! ## Statements -/

/-- The expression that a loop looks at. -/
def LoopKind.exprs : LoopKind → List Expr
  | .times e | .until e | .while e | .waitUntil e => [e]
  | .forever => []

namespace Stmt

/-- The expressions that stand in the statement itself, not in statements inside it. -/
def exprs : Stmt → List Expr
  | .branch condition _ _ => [condition]
  | .loop kind _ _ _ => kind.exprs
  | .call _ args _ | .host _ args => args
  | .set _ e | .change _ e | .wait e => [e]
  | .done => []
  | .escape _ _ inputs => inputs.map Prod.snd

mutual

/-- The statement and all statements inside it. -/
def nodes : Stmt → List Stmt
  | .branch c yes no => .branch c yes no :: (allNodes yes ++ allNodes no)
  | .loop kind body warpSafe interval => .loop kind body warpSafe interval :: allNodes body
  | s => [s]

/-- The nodes of statements. -/
def allNodes : List Stmt → List Stmt
  | [] => []
  | s :: ss => s.nodes ++ allNodes ss

end

/-- The expressions at any depth of a stack of statements. -/
def allExprs (ss : List Stmt) : List Expr := (allNodes ss).flatMap fun s => Expr.allNodes s.exprs

/-- A statement is a node of itself. -/
theorem self_mem_nodes (s : Stmt) : s ∈ s.nodes := by
  cases s <;> simp [nodes]

theorem allNodes_append (ss ts : List Stmt) : allNodes (ss ++ ts) = allNodes ss ++ allNodes ts := by
  induction ss with
  | nil => rfl
  | cons s ss ih => rw [List.cons_append, allNodes, allNodes, ih, List.append_assoc]

mutual

theorem nodes_subset_nodes : ∀ {t n : Stmt}, n ∈ t.nodes → n.nodes ⊆ t.nodes
  | .branch c yes no, n, hn => by
    rw [nodes, List.mem_cons, List.mem_append] at hn
    rcases hn with rfl | hn | hn
    · exact List.Subset.refl _
    · rw [nodes]
      exact fun m hm => List.mem_cons_of_mem _ (List.mem_append_left _ (nodes_subset hn hm))
    · rw [nodes]
      exact fun m hm => List.mem_cons_of_mem _ (List.mem_append_right _ (nodes_subset hn hm))
  | .loop kind body warpSafe interval, n, hn => by
    rw [nodes, List.mem_cons] at hn
    rcases hn with rfl | hn
    · exact List.Subset.refl _
    · rw [nodes]
      exact fun m hm => List.mem_cons_of_mem _ (nodes_subset hn hm)
  | .call _ _ _, n, hn | .set _ _, n, hn | .change _ _, n, hn | .wait _, n, hn | .host _ _, n, hn
  | .done, n, hn | .escape _ _ _, n, hn => by
    rw [nodes, List.mem_singleton] at hn
    rw [hn]
    exact List.Subset.refl _
    all_goals simp

/-- What is inside an inner statement is inside the outer ones too. -/
theorem nodes_subset : ∀ {ts : List Stmt} {n : Stmt}, n ∈ allNodes ts → n.nodes ⊆ allNodes ts
  | [], n, hn => by cases hn
  | t :: ts, n, hn => by
    rw [allNodes, List.mem_append] at hn
    rw [allNodes]
    rcases hn with hn | hn
    · exact fun m hm => List.mem_append_left _ (nodes_subset_nodes hn hm)
    · exact fun m hm => List.mem_append_right _ (nodes_subset hn hm)

end

mutual

/-- The variants that a statement calls are those that its call nodes name. -/
theorem mem_calls_iff {k : VariantKey} :
    ∀ {s : Stmt}, k ∈ s.calls ↔ ∃ args y, .call k args y ∈ s.nodes
  | .branch c yes no => by
    simp only [calls, nodes, List.mem_append, List.mem_cons, mem_allCalls_iff, reduceCtorEq,
      false_or]
    constructor
    · rintro (⟨args, y, h⟩ | ⟨args, y, h⟩)
      · exact ⟨args, y, Or.inl h⟩
      · exact ⟨args, y, Or.inr h⟩
    · rintro ⟨args, y, h | h⟩
      · exact Or.inl ⟨args, y, h⟩
      · exact Or.inr ⟨args, y, h⟩
  | .loop kind body warpSafe interval => by
    simp only [calls, nodes, List.mem_cons, mem_allCalls_iff, reduceCtorEq, false_or]
  | .call key args y => by
    simp only [calls, nodes, List.mem_singleton, Stmt.call.injEq]
    constructor
    · rintro rfl
      exact ⟨args, y, rfl, rfl, rfl⟩
    · rintro ⟨_, _, h, -⟩
      exact h
  | .set name e | .change name e => by simp [calls, nodes]
  | .wait e => by simp [calls, nodes]
  | .host opcode args => by simp [calls, nodes]
  | .done => by simp [calls, nodes]
  | .escape block opcode inputs => by simp [calls, nodes]

/-- The variants that statements call are those that their call nodes name. -/
theorem mem_allCalls_iff {k : VariantKey} :
    ∀ {ss : List Stmt}, k ∈ allCalls ss ↔ ∃ args y, .call k args y ∈ allNodes ss
  | [] => by simp [allCalls, allNodes]
  | s :: ss => by
    simp only [allCalls, allNodes, List.mem_append, mem_calls_iff, mem_allCalls_iff]
    constructor
    · rintro (⟨args, y, h⟩ | ⟨args, y, h⟩)
      · exact ⟨args, y, Or.inl h⟩
      · exact ⟨args, y, Or.inr h⟩
    · rintro ⟨args, y, h | h⟩
      · exact Or.inl ⟨args, y, h⟩
      · exact Or.inr ⟨args, y, h⟩

end

end Stmt

end BlockScript
