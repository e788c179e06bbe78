import BlockScript.Proofs.Lowering
import Mathlib.Data.List.Forall2

/-!
# Routines apart from their intervals

The settings of the compiler show in a routine in one place only: how often a loop in warp looks at
the deadline. `Stmt.untimed` forgets this number, and what blocks become without it is the same with
all settings (`Target.untimed_entryRoutine`, `Target.untimed_variantRoutine`). A routine that was
compiled earlier with other settings therefore calls the same variants and has the same expressions.
-/

namespace BlockScript

namespace Stmt

mutual

/-- The statement without the intervals of its loops. -/
def untimed : Stmt → Stmt
  | .loop kind body warpSafe _ => .loop kind (allUntimed body) warpSafe 0
  | .branch c yes no => .branch c (allUntimed yes) (allUntimed no)
  | s => s

/-- Statements without the intervals of their loops. -/
def allUntimed : List Stmt → List Stmt
  | [] => []
  | s :: ss => s.untimed :: allUntimed ss

end

theorem allUntimed_append (ss ts : List Stmt) :
    allUntimed (ss ++ ts) = allUntimed ss ++ allUntimed ts := by
  induction ss with
  | nil => rfl
  | cons s ss ih => rw [List.cons_append, allUntimed, allUntimed, ih, List.cons_append]

mutual

theorem waits_untimed : ∀ s : Stmt, s.untimed.waits = s.waits
  | .loop kind body warpSafe interval => by
    rw [untimed, waits, waits, anyWaits_allUntimed body]
  | .branch c yes no => by
    rw [untimed, waits, waits, anyWaits_allUntimed yes, anyWaits_allUntimed no]
  | .call _ _ _ | .set _ _ | .change _ _ | .wait _ | .host _ _ | .done | .escape _ _ _ => rfl

theorem anyWaits_allUntimed : ∀ ss : List Stmt, anyWaits (allUntimed ss) = anyWaits ss
  | [] => rfl
  | s :: ss => by rw [allUntimed, anyWaits, anyWaits, waits_untimed s, anyWaits_allUntimed ss]

end

mutual

theorem nodes_untimed : ∀ s : Stmt, s.untimed.nodes = s.nodes.map untimed
  | .loop kind body warpSafe interval => by
    rw [untimed, nodes, nodes, allNodes_allUntimed body, List.map_cons, untimed]
  | .branch c yes no => by
    rw [untimed, nodes, nodes, allNodes_allUntimed yes, allNodes_allUntimed no, List.map_cons,
      List.map_append, untimed]
  | .call _ _ _ | .set _ _ | .change _ _ | .wait _ | .host _ _ | .done | .escape _ _ _ => rfl

theorem allNodes_allUntimed : ∀ ss : List Stmt, allNodes (allUntimed ss) = (allNodes ss).map untimed
  | [] => rfl
  | s :: ss => by
    rw [allUntimed, allNodes, allNodes, nodes_untimed s, allNodes_allUntimed ss, List.map_append]

end

theorem exprs_untimed (s : Stmt) : s.untimed.exprs = s.exprs := by
  cases s <;> rfl

/-- Only loops and branches change. -/
theorem eq_of_untimed {s n : Stmt} (h : s.untimed = n) (hloop : ∀ k b w i, n ≠ .loop k b w i)
    (hbranch : ∀ c y e, n ≠ .branch c y e) : s = n := by
  cases s with
  | loop => exact absurd h.symm (hloop _ _ _ _)
  | branch => exact absurd h.symm (hbranch _ _ _)
  | _ => exact h

end Stmt

/-! ## One block -/

/-- What a slot became, without the intervals of loops. -/
def Part.untimed : Part → Part
  | .expr e => .expr e
  | .body ss => .body (Stmt.allUntimed ss)

namespace Part

/-- The parts are the same apart from the intervals of loops. -/
def Alike (ps qs : List (String × Part)) : Prop :=
  List.Forall₂ (fun p q => p.1 = q.1 ∧ p.2.untimed = q.2.untimed) ps qs

variable {ps qs : List (String × Part)}

theorem Alike.lookup (h : Alike ps qs) (name : String) :
    (ps.lookup name).map untimed = (qs.lookup name).map untimed := by
  induction h with
  | nil => rfl
  | @cons p q ps qs hpq _ ih =>
    obtain ⟨n, p⟩ := p
    obtain ⟨n', q⟩ := q
    obtain ⟨rfl, hpq⟩ := hpq
    rw [List.lookup_cons, List.lookup_cons]
    cases hname : name == n with
    | true => exact congrArg some hpq
    | false => exact ih

theorem Alike.exprAt (h : Alike ps qs) (name : String) (absent : Value) :
    Part.exprAt ps name absent = Part.exprAt qs name absent := by
  have hlookup := h.lookup name
  unfold Part.exprAt
  generalize ps.lookup name = p at hlookup ⊢
  generalize qs.lookup name = q at hlookup ⊢
  rcases p with - | e | ss <;> rcases q with - | e' | ss'
  case some.body.some.body => rfl
  all_goals cases hlookup <;> rfl

theorem Alike.bodyAt (h : Alike ps qs) (name : String) :
    Stmt.allUntimed (Part.bodyAt ps name) = Stmt.allUntimed (Part.bodyAt qs name) := by
  have hlookup := h.lookup name
  unfold Part.bodyAt
  generalize ps.lookup name = p at hlookup ⊢
  generalize qs.lookup name = q at hlookup ⊢
  rcases p with - | e | ss <;> rcases q with - | e' | ss'
  case some.body.some.body => exact Part.body.inj (Option.some.inj hlookup)
  all_goals cases hlookup <;> rfl

/-- Several slots, read one after the other. -/
theorem Alike.map_exprAt (h : Alike ps qs) {α : Type} (name : α → String) (absent : α → Value)
    (as : List α) : as.map (fun a => Part.exprAt ps (name a) (absent a))
      = as.map fun a => Part.exprAt qs (name a) (absent a) :=
  List.map_congr_left fun a _ => h.exprAt (name a) (absent a)

theorem Alike.exprs (h : Alike ps qs) : Part.exprs ps = Part.exprs qs := by
  induction h with
  | nil => rfl
  | @cons p q ps qs hpq _ ih =>
    obtain ⟨n, p⟩ := p
    obtain ⟨n', q⟩ := q
    obtain ⟨rfl, hpq⟩ := hpq
    unfold Part.exprs at ih ⊢
    cases p <;> cases q <;> simp_all [untimed]

end Part

namespace Surroundings

/-- The same surroundings with other settings. -/
def under (s : Surroundings) (config : CompilerConfig) : Surroundings := { s with config := config }

variable {s : Surroundings} {config : CompilerConfig} {ps qs : List (String × Part)}

theorem reporter_under (h : Part.Alike ps qs) (id : BlockId) (b : Block) :
    (s.under config).reporter id b ps = s.reporter id b qs := by
  unfold reporter
  cases b.reporterKind with
  | numeral | text | «variable» | argument => rfl
  | unary op => exact congrArg _ (h.exprAt _ _)
  | binary op => exact congrArg₂ _ (h.exprAt _ _) (h.exprAt _ _)
  | primitive p shape => exact congrArg (Expr.host _ · _) (h.map_exprAt (fun n => n) _ p.inputs)
  | escape => exact congrArg _ h.exprs

/-- A loop with other settings around bodies that are the same apart from their intervals. -/
theorem untimed_makeLoop_under {kind : LoopKind} {body body' : List Stmt}
    (h : Stmt.allUntimed body = Stmt.allUntimed body') :
    ((s.under config).makeLoop kind body).untimed = (s.makeLoop kind body').untimed := by
  have hwaits : Stmt.anyWaits body = Stmt.anyWaits body' := by
    rw [← Stmt.anyWaits_allUntimed body, h, Stmt.anyWaits_allUntimed]
  rw [makeLoop, makeLoop, Stmt.untimed, Stmt.untimed, h, hwaits]

theorem loopKind_eq (h : Part.Alike ps qs) (form : LoopForm) :
    loopKind ps form = loopKind qs form := by
  cases form with
  | forever => rfl
  | _ => exact congrArg _ (h.exprAt _ _)

theorem allUntimed_loopBody (h : Part.Alike ps qs) (form : LoopForm) :
    Stmt.allUntimed (loopBody ps form) = Stmt.allUntimed (loopBody qs form) := by
  cases form with
  | waitUntil => rfl
  | times | forever | «until» | «while» => exact h.bodyAt _

theorem untimed_statement?_under (h : Part.Alike ps qs) (id : BlockId) (b : Block) :
    ((s.under config).statement? id b ps).map Stmt.untimed
      = (s.statement? id b qs).map Stmt.untimed := by
  unfold statement?
  cases b.statementKind with
  | hat | stop => rfl
  | loop form =>
    simp only [Option.map_some, loopKind_eq h]
    exact congrArg some (untimed_makeLoop_under (allUntimed_loopBody h form))
  | branch withElse =>
    simp only [Option.map_some, Stmt.untimed, h.exprAt, h.bodyAt]
    cases withElse with
    | true => simp only [if_true, h.bodyAt]
    | false => rfl
  | wait | set | change => simp only [h.exprAt]
  | call =>
    simp only [h.map_exprAt (fun q : Param => q.id) (fun q => q.kind.default)]
    rfl
  | primitive p => simp only [h.map_exprAt (fun n => n) (fun _ => .empty)]
  | escape => simp only [h.exprs]

mutual

theorem untimed_part_under :
    ∀ tree : Tree, ((s.under config).part tree).untimed = (s.part tree).untimed
  | .literal v => by rw [part, part]
  | .block id b slots => by
    rw [part, part, reporter_under (alike_parts_under slots)]
  | .stack members => by
    rw [part, part, Part.untimed, Part.untimed, untimed_statements_under members]

theorem alike_parts_under : ∀ slots : List (String × Tree),
    Part.Alike ((s.under config).parts slots) (s.parts slots)
  | [] => by
    rw [parts, parts]
    exact .nil
  | (name, tree) :: rest => by
    rw [parts, parts]
    exact .cons ⟨rfl, untimed_part_under tree⟩ (alike_parts_under rest)

/-- **Settings show in the intervals of loops only.** -/
theorem untimed_statements_under : ∀ trees : List Tree,
    Stmt.allUntimed ((s.under config).statements trees) = Stmt.allUntimed (s.statements trees)
  | [] => by rw [statements, statements]
  | tree :: rest => by
    rw [statements, statements, Stmt.allUntimed_append, Stmt.allUntimed_append,
      untimed_member_under tree, untimed_statements_under rest]

theorem untimed_member_under : ∀ tree : Tree,
    Stmt.allUntimed ((s.under config).member tree) = Stmt.allUntimed (s.member tree)
  | .literal _ | .stack _ => by rw [member, member]
  | .block id b slots => by
    have hone : ∀ stmt? : Option Stmt,
        Stmt.allUntimed stmt?.toList = (stmt?.map Stmt.untimed).toList := by
      intro stmt?
      cases stmt? <;> rfl
    rw [member, member, hone, hone, untimed_statement?_under (alike_parts_under slots)]

end

end Surroundings

/-! ## Routines -/

/-- The routine without the intervals of its loops. -/
def Routine.untimed (r : Routine) : Routine := { r with stack := Stmt.allUntimed r.stack }

namespace Routine

variable {r r' : Routine}

/-- Routines that differ in their intervals have the same nodes apart from those. -/
theorem exists_node_of_untimed (h : r.untimed = r'.untimed) {n : Stmt}
    (hn : n ∈ Stmt.allNodes r.stack) : ∃ n' ∈ Stmt.allNodes r'.stack, n.untimed = n'.untimed := by
  have hstack : Stmt.allUntimed r.stack = Stmt.allUntimed r'.stack := congrArg Routine.stack h
  have hnodes : (Stmt.allNodes r.stack).map Stmt.untimed
      = (Stmt.allNodes r'.stack).map Stmt.untimed := by
    rw [← Stmt.allNodes_allUntimed, hstack, Stmt.allNodes_allUntimed]
  have hmem := hnodes ▸ List.mem_map_of_mem hn
  obtain ⟨n', hn', heq⟩ := List.mem_map.mp hmem
  exact ⟨n', hn', heq.symm⟩

end Routine

namespace Target

variable {t : Target} {c c' : CompilerConfig} {r r' : Routine}

theorem untimed_routineOf {s : Surroundings} {script : Script} {arguments : List Shape}
    {key : Option VariantKey} (h : routineOf s script arguments key = .ok r)
    (h' : routineOf (s.under c) script arguments key = .ok r') : r'.untimed = r.untimed := by
  have htarget : (s.under c).target = s.target := rfl
  unfold routineOf at h h'
  rw [htarget] at h'
  split at h
  · cases h
  · next trees htrees =>
    rw [htrees] at h'
    cases h
    cases h'
    exact congrArg (Routine.mk script arguments key) (Surroundings.untimed_statements_under trees)

theorem untimed_entryRoutine {script : Script} (h : t.entryRoutine c script = .ok r)
    (h' : t.entryRoutine c' script = .ok r') : r'.untimed = r.untimed := by
  unfold entryRoutine at h h'
  split at h
  · cases h
  · next htop =>
    rw [htop] at h'
    exact untimed_routineOf h h'

theorem untimed_variantRoutine {request : VariantRequest} (h : t.variantRoutine c request = .ok r)
    (h' : t.variantRoutine c' request = .ok r') : r'.untimed = r.untimed :=
  untimed_routineOf h h'

end Target

end BlockScript
