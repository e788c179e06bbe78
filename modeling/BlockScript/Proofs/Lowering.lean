import BlockScript.Proofs.Nodes
import BlockScript.Program

/-!
# What blocks become

Facts about the statements that a stack of blocks becomes, at any depth of them:

* an argument is one that the routine has, with the shape that the routine is made for
  (`Expr.ScopedIn`), and the answer of a primitive is never known to be a truth value;
* a call names a variant of a procedure that is defined, for the shapes of the arguments that it
  passes, in warp if the caller or the procedure is (`Stmt.CallsProperly`).

The induction through the trees of blocks is `Surroundings.Carries.statements`: what one block
carries from what its slots became to what it becomes holds of everything. The slots of a block
become parts, and a part is looked at through `Part.exprAt`, `Part.bodyAt` and `Part.exprs` only.
-/

namespace BlockScript

theorem eq_ok_of_toOption {ε α : Type} {r : Except ε α} {a : α} (h : r.toOption = some a) :
    r = .ok a := by
  cases r with
  | error e => cases h
  | ok b =>
    cases h
    rfl

/-- What is found under a key stands in the list. -/
theorem mem_of_lookup {α β : Type} [BEq α] [LawfulBEq α] {l : List (α × β)} {a : α} {b : β}
    (h : l.lookup a = some b) : (a, b) ∈ l := by
  obtain ⟨l₁, l₂, rfl, -⟩ := List.lookup_eq_some_iff.mp h
  exact List.mem_append_right _ List.mem_cons_self

/-! ## Routines in their surroundings -/

/-- The expression fits into a routine whose arguments have the shapes `sig`. -/
def Expr.ScopedIn (sig : List Shape) : Expr → Prop
  | .arg index shape => sig[index.toNat]? = some shape
  | .host _ _ shape => shape ≠ .boolean
  | _ => True

/-- The key names a variant of a procedure `d` that is defined in the target. -/
structure VariantKey.Names (t : Target) (k : VariantKey) (d : Procedure) : Prop where
  defined : t.procedure? k.proccode = some d
  arity : k.signature.length = d.params.length
  canonical : ∀ s ∈ k.signature, s.widen = s
  warp : d.warp = true → k.warp = true

/-- If the statement is a call, its key names a variant for the shapes of its arguments; the variant
runs in warp if the caller does. -/
def Stmt.CallsProperly (t : Target) (warp : Bool) : Stmt → Prop
  | .call key args _ =>
    (∃ d, key.Names t d) ∧ args.map (fun e => e.shape.widen) = key.signature
      ∧ (warp = true → key.warp = true)
  | _ => True

/-- The statement, apart from the statements inside it, fits into a routine. -/
structure Stmt.ProperIn (t : Target) (warp : Bool) (sig : List Shape) (s : Stmt) : Prop where
  inScope : ∀ x ∈ Expr.allNodes s.exprs, x.ScopedIn sig
  calls : s.CallsProperly t warp

namespace Surroundings

/-- The shapes of the arguments. -/
def signature (s : Surroundings) : List Shape := (s.variant.map fun v => v.1.signature).getD []

/-- The blocks belong to a variant with one shape for each parameter, if to any. -/
def Fits (s : Surroundings) : Prop :=
  ∀ key d, s.variant = some (key, d) → key.signature.length = d.params.length

end Surroundings

/-- A slot became an expression or a stack that fits into a routine. -/
def Part.ProperIn (t : Target) (warp : Bool) (sig : List Shape) : Part → Prop
  | .expr e => ∀ x ∈ e.nodes, x.ScopedIn sig
  | .body ss => ∀ n ∈ Stmt.allNodes ss, n.ProperIn t warp sig

namespace Part

variable {t : Target} {warp : Bool} {sig : List Shape} {parts : List (String × Part)}

theorem scoped_exprAt (h : ∀ q ∈ parts, q.2.ProperIn t warp sig) (name : String) (absent : Value) :
    ∀ x ∈ (exprAt parts name absent).nodes, x.ScopedIn sig := by
  unfold exprAt
  split
  · next e he => exact h _ (mem_of_lookup he)
  · simp [Expr.nodes, Expr.ScopedIn]

theorem proper_bodyAt (h : ∀ q ∈ parts, q.2.ProperIn t warp sig) (name : String) :
    ∀ n ∈ Stmt.allNodes (bodyAt parts name), n.ProperIn t warp sig := by
  unfold bodyAt
  split
  · next ss hs => exact h _ (mem_of_lookup hs)
  · simp [Stmt.allNodes]

theorem scoped_exprs (h : ∀ q ∈ parts, q.2.ProperIn t warp sig) :
    ∀ x ∈ Expr.inputNodes (exprs parts), x.ScopedIn sig := by
  intro x hx
  rw [Expr.inputNodes_eq, Expr.mem_allNodes_iff] at hx
  obtain ⟨e, he, hx⟩ := hx
  simp only [exprs, List.mem_map, List.mem_filterMap] at he
  obtain ⟨⟨name, e'⟩, ⟨⟨n, part⟩, hp, hpe⟩, rfl⟩ := he
  cases part with
  | expr e =>
    simp only [Option.some.injEq, Prod.mk.injEq] at hpe
    obtain ⟨rfl, rfl⟩ := hpe
    exact h _ hp x hx
  | body ss => cases hpe

/-- Several slots, read one after the other. -/
theorem scoped_map_exprAt (h : ∀ q ∈ parts, q.2.ProperIn t warp sig) {α : Type} (name : α → String)
    (absent : α → Value) (as : List α) :
    ∀ x ∈ Expr.allNodes (as.map fun a => exprAt parts (name a) (absent a)), x.ScopedIn sig := by
  intro x hx
  rw [Expr.mem_allNodes_iff] at hx
  obtain ⟨e, he, hx⟩ := hx
  obtain ⟨a, -, rfl⟩ := List.mem_map.mp he
  exact scoped_exprAt h (name a) (absent a) x hx

end Part

/-! ## One block -/

/-- No primitive answers with what is known to be a truth value. -/
theorem Block.shape_ne_boolean {b : Block} {p : Primitive} {shape : Shape}
    (h : b.reporterKind = .primitive p shape) : shape ≠ .boolean := by
  have htable : ∀ q ∈ Primitive.all, q.kind ≠ .reporter .boolean := by decide
  have hhost : b.hostReporter = .primitive p shape := by
    unfold reporterKind at h
    split at h <;> try cases h
    unfold operatorKind at h
    split at h
    · cases h
    · cases h
    · exact h
  unfold hostReporter at hhost
  split at hhost
  · next q hq =>
    split at hhost
    · next shape' hk =>
      cases hhost
      rintro rfl
      exact htable p (List.mem_of_find?_eq_some hq) hk
    · cases hhost
  · cases hhost

/-- What the target finds under a code bears that code. -/
theorem Target.proccode_of_procedure? {t : Target} {code : String} {d : Procedure}
    (h : t.procedure? code = some d) : d.proccode = code := by
  simpa using List.find?_some h

theorem Shape.widen_widen (s : Shape) : s.widen.widen = s.widen := by
  cases s <;> rfl

namespace Surroundings

variable {s : Surroundings}

/-- An argument reporter becomes an argument that the routine has, or a constant. -/
theorem scoped_argument (hs : s.Fits) (name : String) (kind : ParamKind) :
    ∀ x ∈ (s.argument name kind).nodes, x.ScopedIn s.signature := by
  unfold argument
  dsimp only
  split
  · next i shape? hi =>
    simp only [Option.bind_eq_some_iff] at hi
    obtain ⟨⟨key, d⟩, hv, j, hj, hij⟩ := hi
    split at hij
    · next hlt =>
      simp only [Option.some.injEq, Prod.mk.injEq] at hij
      obtain ⟨rfl, rfl⟩ := hij
      have hparams : j < d.params.length := (List.findIdx?_eq_some_iff_findIdx_eq.mp hj).1
      have hsig : j < key.signature.length := by rw [hs key d hv]; exact hparams
      intro x hx
      rw [Expr.nodes, List.mem_singleton] at hx
      subst hx
      have hmod : (UInt16.ofNat j).toNat = j := by simp; omega
      simp [Expr.ScopedIn, signature, hv, hmod, hsig]
    · cases hij
  · simp [Expr.nodes, Expr.ScopedIn]
  · simp [Expr.nodes, Expr.ScopedIn]

theorem scoped_reporter (hs : s.Fits) {parts : List (String × Part)}
    (h : ∀ q ∈ parts, q.2.ProperIn s.target s.warp s.signature) (id : BlockId) (b : Block) :
    ∀ x ∈ (s.reporter id b parts).nodes, x.ScopedIn s.signature := by
  unfold reporter
  split
  · simp [Expr.nodes, Expr.ScopedIn]
  · simp [Expr.nodes, Expr.ScopedIn]
  · next op _ =>
    intro x hx
    rw [Expr.nodes, List.mem_cons] at hx
    rcases hx with rfl | hx
    · trivial
    · exact Part.scoped_exprAt h _ _ x hx
  · next op _ =>
    intro x hx
    rw [Expr.nodes, List.mem_cons, List.mem_append] at hx
    rcases hx with rfl | hx | hx
    · trivial
    · exact Part.scoped_exprAt h _ _ x hx
    · exact Part.scoped_exprAt h _ _ x hx
  · simp [Expr.nodes, Expr.ScopedIn]
  · next kind _ => exact scoped_argument hs _ kind
  · next p shape hk =>
    intro x hx
    rw [Expr.nodes, List.mem_cons] at hx
    rcases hx with rfl | hx
    · exact Block.shape_ne_boolean hk
    · exact Part.scoped_map_exprAt h (fun n => n) (fun _ => .empty) p.inputs x hx
  · intro x hx
    rw [Expr.nodes, List.mem_cons] at hx
    rcases hx with rfl | hx
    · trivial
    · exact Part.scoped_exprs h x hx

/-- A call names a variant of the procedure that it calls. -/
theorem callsProperly_makeCall {code : String} {d : Procedure}
    (hd : s.target.procedure? code = some d) {args : List Expr}
    (hargs : args.length = d.params.length) :
    (s.makeCall d args).CallsProperly s.target s.warp := by
  refine ⟨⟨d, ?_, ?_, ?_, ?_⟩, ?_, ?_⟩
  · have hcode := Target.proccode_of_procedure? hd
    rw [VariantKey.ofCall, hcode]
    exact hd
  · simpa [VariantKey.ofCall] using hargs
  · simp [VariantKey.ofCall, Shape.widen_widen]
  · intro hw
    simp [VariantKey.ofCall, hw]
  · simp [VariantKey.ofCall]
  · intro hw
    simp [VariantKey.ofCall, hw]

/-- A statement with no statements inside. -/
theorem proper_leaf {n : Stmt} (hleaf : n.nodes = [n])
    (hn : ∀ x ∈ Expr.allNodes n.exprs, x.ScopedIn s.signature)
    (hcall : n.CallsProperly s.target s.warp) :
    ∀ m ∈ n.nodes, m.ProperIn s.target s.warp s.signature := by
  rw [hleaf]
  simpa using (⟨hn, hcall⟩ : n.ProperIn s.target s.warp s.signature)

/-- What holds of a stack inside a block holds of what a loop makes of it. -/
theorem forall_allNodes_loopBody {parts : List (String × Part)} {P : Stmt → Prop}
    (h : ∀ n ∈ Stmt.allNodes (Part.bodyAt parts "SUBSTACK"), P n) (form : LoopForm) :
    ∀ n ∈ Stmt.allNodes (loopBody parts form), P n := by
  cases form with
  | waitUntil => exact fun _ hn => by cases hn
  | times | forever | «until» | «while» => exact h

/-- The statement of a block, without those in the stacks inside it, fits into the routine. -/
theorem proper_statement {parts : List (String × Part)}
    (h : ∀ q ∈ parts, q.2.ProperIn s.target s.warp s.signature) {id : BlockId} {b : Block}
    {stmt : Stmt} (hstmt : s.statement? id b parts = some stmt) :
    ∀ n ∈ stmt.nodes, n.ProperIn s.target s.warp s.signature := by
  have hexpr := fun name absent => Part.scoped_exprAt h name absent
  have hbody := fun name => Part.proper_bodyAt h name
  unfold statement? at hstmt
  split at hstmt
  · cases hstmt
  · next form _ =>
    cases hstmt
    intro n hn
    rw [makeLoop, Stmt.nodes, List.mem_cons] at hn
    rcases hn with rfl | hn
    · refine ⟨?_, trivial⟩
      cases form with
      | forever => simp [Stmt.exprs, loopKind, LoopKind.exprs, Expr.allNodes]
      | _ => simpa [Stmt.exprs, loopKind, LoopKind.exprs, Expr.allNodes] using hexpr _ _
    · exact forall_allNodes_loopBody (hbody _) form n hn
  · next withElse _ =>
    cases hstmt
    intro n hn
    rw [Stmt.nodes, List.mem_cons, List.mem_append] at hn
    rcases hn with rfl | hn | hn
    · exact ⟨by simpa [Stmt.exprs, Expr.allNodes] using hexpr _ _, trivial⟩
    · exact hbody _ n hn
    · cases withElse with
      | false => simp [Stmt.allNodes] at hn
      | true => exact hbody _ n hn
  · cases hstmt
    exact proper_leaf rfl (by simpa [Stmt.exprs, Expr.allNodes] using hexpr _ _) trivial
  · cases hstmt
    exact proper_leaf rfl (by simp [Stmt.exprs, Expr.allNodes]) trivial
  · cases hstmt
    exact proper_leaf rfl (by simpa [Stmt.exprs, Expr.allNodes] using hexpr _ _) trivial
  · cases hstmt
    exact proper_leaf rfl (by simpa [Stmt.exprs, Expr.allNodes] using hexpr _ _) trivial
  · obtain ⟨d, hd, rfl⟩ := Option.map_eq_some_iff.mp hstmt
    exact proper_leaf rfl
      (Part.scoped_map_exprAt h (fun q : Param => q.id) (fun q => q.kind.default) d.params)
      (callsProperly_makeCall hd (by simp))
  · next p _ =>
    cases hstmt
    exact proper_leaf rfl
      (Part.scoped_map_exprAt h (fun n => n) (fun _ => .empty) p.inputs) trivial
  · cases hstmt
    refine proper_leaf rfl ?_ trivial
    rw [Stmt.exprs, ← Expr.inputNodes_eq]
    exact Part.scoped_exprs h

/-- A property of parts that each block carries from what its slots became to what it becomes. -/
structure Carries (s : Surroundings) (Q : Part → Prop) : Prop where
  literal : ∀ v, Q (.expr (.const v))
  reporter : ∀ (id : BlockId) (b : Block) {parts : List (String × Part)}, (∀ q ∈ parts, Q q.2) →
    Q (.expr (s.reporter id b parts))
  nil : Q (.body [])
  append : ∀ {ss ts : List Stmt}, Q (.body ss) → Q (.body ts) → Q (.body (ss ++ ts))
  statement : ∀ {id : BlockId} {b : Block} {parts : List (String × Part)} {stmt : Stmt},
    (∀ q ∈ parts, Q q.2) → s.statement? id b parts = some stmt → Q (.body [stmt])

section

variable {Q : Part → Prop}

mutual

theorem Carries.part (hQ : s.Carries Q) : ∀ tree : Tree, Q (s.part tree)
  | .literal v => by
    rw [Surroundings.part]
    exact hQ.literal v
  | .block id b slots => by
    rw [Surroundings.part]
    exact hQ.reporter id b (hQ.parts slots)
  | .stack members => by
    rw [Surroundings.part]
    exact hQ.statements members

theorem Carries.parts (hQ : s.Carries Q) :
    ∀ slots : List (String × Tree), ∀ q ∈ s.parts slots, Q q.2
  | [] => by simp [Surroundings.parts]
  | (name, tree) :: rest => by
    rw [Surroundings.parts, List.forall_mem_cons]
    exact ⟨hQ.part tree, hQ.parts rest⟩

/-- **What every block carries holds of everything that a stack of blocks becomes.** -/
theorem Carries.statements (hQ : s.Carries Q) : ∀ trees : List Tree, Q (.body (s.statements trees))
  | [] => by
    rw [Surroundings.statements]
    exact hQ.nil
  | tree :: rest => by
    rw [Surroundings.statements]
    exact hQ.append (hQ.member tree) (hQ.statements rest)

theorem Carries.member (hQ : s.Carries Q) : ∀ tree : Tree, Q (.body (s.member tree))
  | .literal _ | .stack _ => by
    rw [Surroundings.member]
    exact hQ.nil
  | .block id b slots => by
    rw [Surroundings.member]
    cases hstmt : s.statement? id b (s.parts slots) with
    | none => exact hQ.nil
    | some stmt => exact hQ.statement (hQ.parts slots) hstmt

end

end

theorem carries_proper (hs : s.Fits) : s.Carries (Part.ProperIn s.target s.warp s.signature) where
  literal v := by simp [Part.ProperIn, Expr.nodes, Expr.ScopedIn]
  reporter id b _ h := scoped_reporter hs h id b
  nil := by simp [Part.ProperIn, Stmt.allNodes]
  append hss hts := by
    rw [Part.ProperIn, Stmt.allNodes_append, List.forall_mem_append]
    exact ⟨hss, hts⟩
  statement h hstmt := by
    rw [Part.ProperIn, Stmt.allNodes, Stmt.allNodes, List.append_nil]
    exact proper_statement h hstmt

end Surroundings

namespace Target

variable {t : Target} {config : CompilerConfig}

/-- What is in a routine fits into it, if its arguments have the shapes that its surroundings
say. -/
theorem proper_of_routineOf {s : Surroundings} (hs : s.Fits) {script : Script}
    {arguments : List Shape} {key : Option VariantKey} {r : Routine}
    (h : routineOf s script arguments key = .ok r) :
    ∀ n ∈ Stmt.allNodes r.stack, n.ProperIn s.target s.warp s.signature := by
  unfold routineOf at h
  split at h
  · cases h
  · next trees _ =>
    cases h
    exact (Surroundings.carries_proper hs).statements trees

/-- The routine of a script has no arguments. -/
theorem entryRoutine_eq_ok {script : Script} {r : Routine}
    (h : t.entryRoutine config script = .ok r) :
    r.script = script ∧ r.arguments = [] ∧ r.key = none
      ∧ ∀ n ∈ Stmt.allNodes r.stack, n.ProperIn t r.warp [] := by
  unfold entryRoutine at h
  split at h
  · cases h
  · have hproper := proper_of_routineOf (s := ⟨t, config, script.warp, none⟩)
      (by intro key d hv; cases hv) h
    unfold routineOf at h
    split at h
    · cases h
    · cases h
      exact ⟨rfl, rfl, rfl, hproper⟩

/-- The routine of a variant has the arguments and runs in the warp that the key says. -/
theorem variantRoutine_eq_ok {k : VariantKey} {d : Procedure} {r : Routine} (hk : k.Names t d)
    (h : t.variantRoutine config ⟨k, d⟩ = .ok r) :
    r.script = d.variantScript t.blocks k ∧ r.arguments = k.signature ∧ r.key = some k
      ∧ ∀ n ∈ Stmt.allNodes r.stack, n.ProperIn t k.warp k.signature := by
  have hproper := proper_of_routineOf (s := ⟨t, config, k.warp, some (k, d)⟩) (by
    intro key d' hv
    cases hv
    exact hk.arity) h
  unfold variantRoutine routineOf at h
  split at h
  · cases h
  · cases h
    exact ⟨rfl, rfl, rfl, hproper⟩

end Target

end BlockScript
