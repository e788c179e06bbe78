import BlockScript.Proofs.Lowering
import BlockScript.Proofs.Slots
import BlockScript.Proofs.Trails

/-!
# Blocks that are left to the host

A block without a meaning of its own becomes an *escape*, a statement or an expression that bears
the number of the block. Every block is met once, so no two escapes of a routine bear the same
number.

What a slot became is looked up by the name of the slot, and a call may look at one name twice,
since two parameters of a procedure may have the same slot. If there is a block in the slot it is
met twice then, so that there is no routine; and what was typed into a slot is no escape
(`Filled.escapesAt_sublist`).

Main statement: a routine is made exactly if the graph below its first block, along the slots that
blocks use, is a tree, and otherwise the error names the first bad block
(`Target.makesRoutine_of_top`).
-/

namespace BlockScript

/-! ## Escapes -/

/-- The block that the expression leaves to the host. -/
def Expr.escapeId? : Expr → Option BlockId
  | .escape block _ _ => some block
  | _ => none

/-- The blocks that the expression leaves to the host, those of the expressions inside it
included. -/
def Expr.escapes (e : Expr) : List BlockId := e.nodes.filterMap Expr.escapeId?

/-- The block that the statement leaves to the host. -/
def Stmt.escapeId? : Stmt → Option BlockId
  | .escape block _ _ => some block
  | _ => none

/-- The blocks that the statement leaves to the host itself and by the expressions in it. -/
def Stmt.ownEscapes (s : Stmt) : List BlockId := s.escapeId?.toList ++ s.exprs.flatMap Expr.escapes

/-- The blocks that statements leave to the host at any depth, one for each escape. -/
def Stmt.allEscapes (ss : List Stmt) : List BlockId := (allNodes ss).flatMap ownEscapes

/-- The blocks that a slot leaves to the host. -/
def Part.escapes : Part → List BlockId
  | .expr e => e.escapes
  | .body ss => Stmt.allEscapes ss

theorem Expr.filterMap_allNodes (es : List Expr) :
    (allNodes es).filterMap escapeId? = es.flatMap escapes := by
  induction es with
  | nil => rfl
  | cons e es ih => rw [allNodes, List.filterMap_append, ih, List.flatMap_cons, escapes]

theorem Expr.escapes_eq (e : Expr) :
    e.escapes = e.escapeId?.toList ++ e.children.flatMap escapes := by
  rw [escapes, nodes_eq, List.filterMap_cons, filterMap_allNodes]
  cases e.escapeId? <;> rfl

theorem Stmt.allEscapes_append (ss ts : List Stmt) :
    allEscapes (ss ++ ts) = allEscapes ss ++ allEscapes ts := by
  rw [allEscapes, allNodes_append, List.flatMap_append, allEscapes, allEscapes]

/-- A statement with no statements inside it. -/
theorem Stmt.allEscapes_plain {stmt : Stmt} (h : stmt.nodes = [stmt]) :
    allEscapes [stmt] = stmt.escapeId?.toList ++ stmt.exprs.flatMap Expr.escapes := by
  rw [allEscapes, allNodes, allNodes, h, List.append_nil, List.flatMap_singleton, ownEscapes]

theorem Stmt.allEscapes_loop (kind : LoopKind) (body : List Stmt) (warpSafe : Bool)
    (interval : UInt32) :
    allEscapes [.loop kind body warpSafe interval]
      = kind.exprs.flatMap Expr.escapes ++ allEscapes body := by
  rw [allEscapes, allNodes, allNodes, nodes, List.append_nil, List.flatMap_cons, ← allEscapes]
  rfl

theorem Stmt.allEscapes_branch (c : Expr) (yes no : List Stmt) :
    allEscapes [.branch c yes no] = c.escapes ++ allEscapes yes ++ allEscapes no := by
  rw [allEscapes, allNodes, allNodes, nodes, List.append_nil, List.flatMap_cons,
    List.flatMap_append, ← allEscapes, ← allEscapes, List.append_assoc]
  simp [ownEscapes, escapeId?, exprs]

namespace Part

/-- The blocks that the first slot of a name leaves to the host. -/
def escapesAt (parts : List (String × Part)) (name : String) : List BlockId :=
  ((parts.lookup name).map escapes).getD []

variable {parts : List (String × Part)}

theorem escapes_exprAt (name : String) (absent : Value) :
    (exprAt parts name absent).escapes.Sublist (escapesAt parts name) := by
  unfold exprAt escapesAt
  cases parts.lookup name with
  | none => exact List.Sublist.refl _
  | some part =>
    cases part with
    | expr e => exact List.Sublist.refl _
    | body ss => exact List.nil_sublist _

theorem escapes_bodyAt (name : String) :
    (Stmt.allEscapes (bodyAt parts name)).Sublist (escapesAt parts name) := by
  unfold bodyAt escapesAt
  cases parts.lookup name with
  | none => exact List.Sublist.refl _
  | some part =>
    cases part with
    | expr e => exact List.nil_sublist _
    | body ss => exact List.Sublist.refl _

end Part

/-- Shorter pieces make a shorter whole. -/
theorem flatMap_sublist {α β : Type} {f g : α → List β} {l : List α}
    (h : ∀ x ∈ l, (f x).Sublist (g x)) : (l.flatMap f).Sublist (l.flatMap g) := by
  induction l with
  | nil => exact List.Sublist.refl _
  | cons x l ih =>
    rw [List.forall_mem_cons] at h
    rw [List.flatMap_cons, List.flatMap_cons]
    exact h.1.append (ih h.2)

/-- Several slots, looked at one after the other. -/
theorem Part.escapes_map_exprAt {α : Type} (parts : List (String × Part)) (name : α → String)
    (absent : α → Value) (as : List α) :
    ((as.map fun x => exprAt parts (name x) (absent x)).flatMap Expr.escapes).Sublist
      ((as.map name).flatMap (escapesAt parts)) := by
  rw [List.flatMap_map, List.flatMap_map]
  exact flatMap_sublist fun x _ => escapes_exprAt (name x) (absent x)

/-! ## The slots of a block -/

namespace Surroundings

/-- A reporter leaves to the host only blocks that were met, each once. -/
def ReporterEscapes (s : Surroundings) (id : BlockId) (tree : Tree) (ids : List BlockId) : Prop :=
  id ∈ ids ∧ (s.part tree).escapes.Sublist ids

/-- A stack leaves to the host only blocks that were met, each once. -/
def StackEscapes (s : Surroundings) (id : BlockId) (trees : List Tree)
    (ids : List BlockId) : Prop :=
  id ∈ ids ∧ (Stmt.allEscapes (s.statements trees)).Sublist ids

/-- What is found in slots, where only blocks that were met are left to the host. -/
abbrev Collects (s : Surroundings) : List Reading → List (String × Tree) → List BlockId → Prop :=
  Filled s.ReporterEscapes s.StackEscapes

end Surroundings

section

variable {s : Surroundings} {r : Reading} {rs : List Reading} {slots : List (String × Tree)}
  {ids : List BlockId}

/-- What is found in the first slot. -/
theorem Filled.exists_head (h : s.Collects (r :: rs) slots ids) :
    ∃ tree rest ids₁ ids₂, slots = (r.name, tree) :: rest ∧ ids = ids₁ ++ ids₂
      ∧ (s.part tree).escapes.Sublist ids₁
      ∧ (r.visit? = none → (s.part tree).escapes = [])
      ∧ (∀ v, r.visit? = some v → v.id ∈ ids₁)
      ∧ s.Collects rs rest ids₂ := by
  cases h with
  | literal hrest =>
    refine ⟨_, _, [], _, rfl, rfl, ?_, fun _ => ?_, fun _ hv => ?_, hrest⟩
    · rw [Surroundings.part]
      exact List.Sublist.refl _
    · rw [Surroundings.part]
      rfl
    · cases hv
  | reporter hfirst hrest =>
    refine ⟨_, _, _, _, rfl, rfl, hfirst.2, fun hv => ?_, fun v hv => ?_, hrest⟩
    · cases hv
    · cases hv
      exact hfirst.1
  | stack hfirst hrest =>
    refine ⟨_, _, _, _, rfl, rfl, ?_, fun hv => ?_, fun v hv => ?_, hrest⟩
    · rw [Surroundings.part]
      exact hfirst.2
    · cases hv
    · cases hv
      exact hfirst.1

/-- A block in a slot is met. -/
theorem Filled.mem (h : s.Collects rs slots ids) {v : Visit} (hr : r ∈ rs)
    (hv : r.visit? = some v) : v.id ∈ ids := by
  induction rs generalizing slots ids with
  | nil => cases hr
  | cons r' rs ih =>
    obtain ⟨tree, rest, ids₁, ids₂, -, rfl, -, -, hmet, hrest⟩ := h.exists_head
    rcases List.mem_cons.mp hr with rfl | hr
    · exact List.mem_append_left _ (hmet v hv)
    · exact List.mem_append_right _ (ih hrest hr)

/-- A name under which nothing was read. -/
theorem Filled.lookup_eq_none (h : s.Collects rs slots ids) {name : String}
    (hname : ∀ r ∈ rs, r.name ≠ name) : (s.parts slots).lookup name = none := by
  induction rs generalizing slots ids with
  | nil =>
    cases h
    rfl
  | cons r rs ih =>
    obtain ⟨tree, rest, ids₁, ids₂, rfl, -, -, -, -, hrest⟩ := h.exists_head
    rw [List.forall_mem_cons] at hname
    have hne : (name == r.name) = false := beq_eq_false_iff_ne.mpr (Ne.symm hname.1)
    rw [Surroundings.parts, List.lookup_cons, hne]
    exact ih hrest hname.2

/-- **The slots that are looked at by name leave only blocks to the host that were met, each once.**
Under a name that is looked at twice there is no escape. -/
theorem Filled.escapesAt_sublist {read : String → List Reading}
    (hread : ∀ n, read n = [] ∨ ∃ r, read n = [r] ∧ r.name = n) :
    ∀ (names : List String) {slots : List (String × Tree)} {ids : List BlockId},
      s.Collects (names.flatMap read) slots ids → ids.Nodup →
      (names.flatMap (Part.escapesAt (s.parts slots))).Sublist ids
  | [], _, _, _, _ => List.nil_sublist _
  | n :: names, slots, ids, h, hnodup => by
    rw [List.flatMap_cons] at h ⊢
    rcases hread n with hnone | ⟨r, hr, hname⟩
    · rw [hnone, List.nil_append] at h
      have habsent : (s.parts slots).lookup n = none := by
        refine h.lookup_eq_none fun r hr heq => ?_
        obtain ⟨m, -, hm⟩ := List.mem_flatMap.mp hr
        rcases hread m with hempty | ⟨r', hr', hname'⟩
        · rw [hempty] at hm
          cases hm
        · rw [hr', List.mem_singleton] at hm
          rw [← hm, heq] at hname'
          rw [← hname', hnone] at hr'
          cases hr'
      rw [Part.escapesAt, habsent]
      exact h.escapesAt_sublist hread names hnodup
    · rw [hr, List.singleton_append] at h
      obtain ⟨tree, rest, ids₁, ids₂, rfl, rfl, hescapes, hliteral, hmet, hrest⟩ := h.exists_head
      have hdisjoint := List.nodup_append.mp hnodup
      have hfirst : Part.escapesAt (s.parts ((r.name, tree) :: rest)) n
          = (s.part tree).escapes := by
        rw [Part.escapesAt, Surroundings.parts, List.lookup_cons, hname, beq_self_eq_true]
        rfl
      rw [hfirst]
      refine hescapes.append (.trans (flatMap_sublist fun m hm => ?_)
        (hrest.escapesAt_sublist hread names hdisjoint.2.1))
      by_cases hmn : m = n
      · -- The name comes again, so there is no block in its slot.
        rw [hmn] at hm ⊢
        have hnovisit : r.visit? = none := by
          cases hv : r.visit? with
          | none => rfl
          | some v =>
            have hagain : r ∈ names.flatMap read :=
              List.mem_flatMap.mpr ⟨n, hm, by rw [hr]; exact List.mem_singleton.mpr rfl⟩
            exact absurd rfl (hdisjoint.2.2 _ (hmet v hv) _ (hrest.mem hagain hv))
        rw [hfirst, hliteral hnovisit]
        exact List.nil_sublist _
      · have hne : (m == r.name) = false := by
          rw [hname]
          exact beq_eq_false_iff_ne.mpr hmn
        rw [Part.escapesAt, Surroundings.parts, List.lookup_cons, hne]
        exact List.Sublist.refl _

/-- All slots together leave only blocks to the host that were met, each once. -/
theorem Filled.escapes_exprs (h : s.Collects rs slots ids) :
    (((Part.exprs (s.parts slots)).map Prod.snd).flatMap Expr.escapes).Sublist ids := by
  induction rs generalizing slots ids with
  | nil =>
    cases h
    exact List.nil_sublist _
  | cons r rs ih =>
    obtain ⟨tree, rest, ids₁, ids₂, rfl, rfl, hescapes, -, -, hrest⟩ := h.exists_head
    rw [Surroundings.parts]
    cases hpart : s.part tree with
    | expr e =>
      rw [hpart] at hescapes
      exact hescapes.append (ih hrest)
    | body ss => exact (ih hrest).trans (List.sublist_append_right _ _)

end

/-! ## One block -/

namespace Block

theorem readValue_cases (b : Block) (name : String) :
    b.readValue name = [] ∨ ∃ r, b.readValue name = [r] ∧ r.name = name := by
  unfold readValue
  cases b.input? name with
  | none => exact Or.inl rfl
  | some slot => exact Or.inr ⟨_, rfl, rfl⟩

theorem readStack_cases (b : Block) (name : String) :
    b.readStack name = [] ∨ ∃ r, b.readStack name = [r] ∧ r.name = name := by
  unfold readStack
  cases b.input? name with
  | none => exact Or.inl rfl
  | some slot =>
    cases slot with
    | literal v => exact Or.inl rfl
    | block id => exact Or.inr ⟨_, rfl, rfl⟩

/-- A slot of a block with stacks inside it. -/
def readInside (b : Block) (name : String) : List Reading :=
  if name = "SUBSTACK" ∨ name = "SUBSTACK2" then b.readStack name else b.readValue name

theorem readInside_cases (b : Block) (name : String) :
    b.readInside name = [] ∨ ∃ r, b.readInside name = [r] ∧ r.name = name := by
  unfold readInside
  split
  · exact b.readStack_cases name
  · exact b.readValue_cases name

end Block

namespace Surroundings

variable {s : Surroundings} {b : Block} {slots : List (String × Tree)} {ids : List BlockId}

/-- Slots that are read for their values. -/
theorem escapes_values {names : List String}
    (h : s.Collects (names.flatMap b.readValue) slots ids) (hnodup : ids.Nodup)
    {es : List Expr}
    (hes : (es.flatMap Expr.escapes).Sublist (names.flatMap (Part.escapesAt (s.parts slots)))) :
    (es.flatMap Expr.escapes).Sublist ids :=
  hes.trans (h.escapesAt_sublist b.readValue_cases names hnodup)

/-- What a reporter leaves to the host was met, or is the reporter itself. -/
theorem escapes_reporter (id : BlockId)
    (h : s.Collects b.reporterReadings slots ids) (hnodup : ids.Nodup) :
    (s.reporter id b (s.parts slots)).escapes.Sublist (id :: ids) := by
  rw [Block.reporterReadings] at h
  unfold reporter
  rw [Expr.escapes_eq]
  cases hkind : b.reporterKind with
  | numeral | text | «variable» => exact List.nil_sublist _
  | argument kind =>
    have hnone : (s.argument (b.field "VALUE") kind).escapes = [] := by
      unfold argument
      dsimp only
      split <;> rfl
    rw [← Expr.escapes_eq, hnone]
    exact List.nil_sublist _
  | unary op =>
    rw [hkind] at h
    have h : s.Collects ([op.slot].flatMap b.readValue) slots ids := by
      simpa using h
    refine (escapes_values h hnodup ?_).trans (List.sublist_cons_self _ _)
    exact Part.escapes_map_exprAt (s.parts slots) (fun _ => op.slot) (fun _ => op.absent) [()]
  | binary op =>
    rw [hkind] at h
    have h : s.Collects ([op.leftSlot, op.rightSlot].flatMap b.readValue)
        slots ids := by
      simpa using h
    refine (escapes_values h hnodup ?_).trans (List.sublist_cons_self _ _)
    exact Part.escapes_map_exprAt (s.parts slots) (fun n => n) (fun _ => op.absent)
      [op.leftSlot, op.rightSlot]
  | primitive p shape =>
    rw [hkind] at h
    refine (escapes_values h hnodup ?_).trans (List.sublist_cons_self _ _)
    have hes := Part.escapes_map_exprAt (s.parts slots) (fun n => n) (fun _ => .empty) p.inputs
    rwa [List.map_id'] at hes
  | escape =>
    rw [hkind] at h
    exact h.escapes_exprs.cons_cons id

/-- Slots of a block with stacks inside it. -/
theorem escapes_inside {names : List String} {escapes : List BlockId}
    (h : s.Collects (names.flatMap b.readInside) slots ids) (hnodup : ids.Nodup)
    (hescapes : escapes.Sublist (names.flatMap (Part.escapesAt (s.parts slots)))) :
    escapes.Sublist ids :=
  hescapes.trans (h.escapesAt_sublist b.readInside_cases names hnodup)

/-- What a loop leaves to the host was met in its slots. -/
theorem escapes_loop {form : LoopForm} (hkind : b.statementKind = .loop form)
    (h : s.Collects (b.statementReadings s.target) slots ids) (hnodup : ids.Nodup) :
    (Stmt.allEscapes [s.makeLoop (loopKind (s.parts slots) form)
      (loopBody (s.parts slots) form)]).Sublist ids := by
  have hexpr : ∀ name absent, (Part.exprAt (s.parts slots) name absent).escapes.Sublist
      (Part.escapesAt (s.parts slots) name) := Part.escapes_exprAt
  have hbody : (Stmt.allEscapes (Part.bodyAt (s.parts slots) "SUBSTACK")).Sublist
      (Part.escapesAt (s.parts slots) "SUBSTACK") := Part.escapes_bodyAt "SUBSTACK"
  rw [Block.statementReadings, hkind] at h
  rw [makeLoop, Stmt.allEscapes_loop]
  cases form with
  | times =>
    have h : s.Collects (["TIMES", "SUBSTACK"].flatMap b.readInside) slots ids := by
      simpa [Block.readInside] using h
    refine escapes_inside h hnodup ?_
    simpa [loopKind, loopBody, LoopKind.exprs] using (hexpr "TIMES" .empty).append hbody
  | «forever» =>
    have h : s.Collects (["SUBSTACK"].flatMap b.readInside) slots ids := by
      simpa [Block.readInside] using h
    refine escapes_inside h hnodup ?_
    simpa [loopKind, loopBody, LoopKind.exprs] using hbody
  | «until» | «while» =>
    have h : s.Collects (["CONDITION", "SUBSTACK"].flatMap b.readInside) slots ids := by
      simpa [Block.readInside] using h
    refine escapes_inside h hnodup ?_
    simpa [loopKind, loopBody, LoopKind.exprs] using (hexpr "CONDITION" (.bool false)).append hbody
  | waitUntil =>
    have hnothing : Stmt.allEscapes (loopBody (s.parts slots) .waitUntil) = [] := rfl
    rw [hnothing, List.append_nil]
    have h : s.Collects (["CONDITION"].flatMap b.readValue) slots ids := by simpa using h
    refine escapes_values h hnodup ?_
    simpa [loopKind, LoopKind.exprs] using hexpr "CONDITION" (.bool false)

/-- What a branch leaves to the host was met in its slots. -/
theorem escapes_branch {withElse : Bool} (hkind : b.statementKind = .branch withElse)
    (h : s.Collects (b.statementReadings s.target) slots ids) (hnodup : ids.Nodup) :
    (Stmt.allEscapes [.branch (Part.exprAt (s.parts slots) "CONDITION" (.bool false))
      (Part.bodyAt (s.parts slots) "SUBSTACK")
      (if withElse then Part.bodyAt (s.parts slots) "SUBSTACK2" else [])]).Sublist ids := by
  have hcondition : (Part.exprAt (s.parts slots) "CONDITION" (.bool false)).escapes.Sublist
      (Part.escapesAt (s.parts slots) "CONDITION") := Part.escapes_exprAt "CONDITION" (.bool false)
  have hbody : ∀ name, (Stmt.allEscapes (Part.bodyAt (s.parts slots) name)).Sublist
      (Part.escapesAt (s.parts slots) name) := Part.escapes_bodyAt
  rw [Block.statementReadings, hkind] at h
  rw [Stmt.allEscapes_branch]
  cases withElse with
  | false =>
    have h : s.Collects (["CONDITION", "SUBSTACK"].flatMap b.readInside) slots ids := by
      simpa [Block.readInside] using h
    refine escapes_inside h hnodup ?_
    simpa [Stmt.allEscapes, Stmt.allNodes] using hcondition.append (hbody "SUBSTACK")
  | true =>
    have h :
        s.Collects (["CONDITION", "SUBSTACK", "SUBSTACK2"].flatMap b.readInside) slots ids := by
      simpa [Block.readInside] using h
    refine escapes_inside h hnodup ?_
    simpa using (hcondition.append (hbody "SUBSTACK")).append (hbody "SUBSTACK2")

/-- What a member of a stack leaves to the host was met, or is the member itself. -/
theorem escapes_statement (id : BlockId)
    (h : s.Collects (b.statementReadings s.target) slots ids)
    (hnodup : ids.Nodup) :
    (Stmt.allEscapes (s.statement? id b (s.parts slots)).toList).Sublist (id :: ids) := by
  have hvalues : ∀ {names : List String} {es : List Expr},
      s.Collects (names.flatMap b.readValue) slots ids →
      (es.flatMap Expr.escapes).Sublist (names.flatMap (Part.escapesAt (s.parts slots))) →
      (es.flatMap Expr.escapes).Sublist (id :: ids) :=
    fun hfilled hes => (escapes_values hfilled hnodup hes).trans (List.sublist_cons_self _ _)
  unfold statement?
  cases hkind : b.statementKind with
  | hat | stop => exact List.nil_sublist _
  | loop form => exact (escapes_loop hkind h hnodup).trans (List.sublist_cons_self _ _)
  | branch withElse => exact (escapes_branch hkind h hnodup).trans (List.sublist_cons_self _ _)
  | wait =>
    rw [Block.statementReadings, hkind] at h
    have h : s.Collects (["DURATION"].flatMap b.readValue) slots ids := by simpa using h
    rw [Option.toList_some, Stmt.allEscapes_plain rfl]
    exact hvalues h (Part.escapes_map_exprAt _ (fun n => n) (fun _ => .empty) ["DURATION"])
  | set | change =>
    rw [Block.statementReadings, hkind] at h
    have h : s.Collects (["VALUE"].flatMap b.readValue) slots ids := by simpa using h
    rw [Option.toList_some, Stmt.allEscapes_plain rfl]
    exact hvalues h (Part.escapes_map_exprAt _ (fun n => n) (fun _ => .empty) ["VALUE"])
  | call =>
    rw [Block.statementReadings, hkind] at h
    dsimp only at h ⊢
    cases hcallee : b.callee? s.target with
    | none => exact List.nil_sublist _
    | some p =>
      rw [hcallee] at h
      have h : s.Collects ((p.params.map Param.id).flatMap b.readValue) slots ids := by
        rwa [List.flatMap_map]
      rw [Option.map_some, Option.toList_some, makeCall, Stmt.allEscapes_plain rfl]
      exact hvalues h (Part.escapes_map_exprAt _ Param.id (fun q => q.kind.default) p.params)
  | primitive p =>
    rw [Block.statementReadings, hkind] at h
    rw [Option.toList_some, Stmt.allEscapes_plain rfl]
    refine hvalues h ?_
    have hes := Part.escapes_map_exprAt (s.parts slots) (fun n => n) (fun _ => .empty) p.inputs
    rwa [List.map_id'] at hes
  | escape =>
    rw [Block.statementReadings, hkind] at h
    rw [Option.toList_some, Stmt.allEscapes_plain rfl]
    exact h.escapes_exprs.cons_cons id

/-- What is left to the host is gathered on a walk, block by block. -/
theorem gathers (s : Surroundings) (a : Arena) :
    a.Gathers s.target s.ReporterEscapes s.StackEscapes := by
  constructor
  · intro id b slots ids _ hslots hnodup
    refine ⟨List.mem_cons_self, ?_⟩
    rw [part]
    exact escapes_reporter id hslots (List.nodup_cons.mp hnodup).2
  · intro id b slots ids _ hslots hnodup
    refine ⟨List.mem_cons_self, ?_⟩
    rw [statements, statements, List.append_nil, member]
    exact escapes_statement id hslots (List.nodup_cons.mp hnodup).2
  · intro id b slots ids below rest ids' _ hslots hrest hnodup
    refine ⟨List.mem_cons_self, ?_⟩
    have hids : ids.Nodup := (List.nodup_append.mp (List.nodup_cons.mp hnodup).2).1
    rw [statements, member, Stmt.allEscapes_append]
    exact (escapes_statement id hslots hids).append hrest.2

end Surroundings

/-! ## Routines -/

namespace Arena

/-- What is made of the stack that begins with a block. -/
structure MakesRoutine (a : Arena) (t : Target) (first : Option BlockId) (label : String)
    (made : Except GenerationError Routine) : Prop where
  /-- There is a routine exactly if all blocks on the trail are there and each is met once. -/
  succeeds : (∃ r, made = .ok r) ↔ ∀ n, a.Distinct (a.stackTrail t n first)
  /-- The error names the first block on the trail that is missing or is met again. -/
  fails : ∀ e, made = .error e ↔ ∃ w, a.Rejects t first w ∧ e = .ofWalk label w
  /-- After as many blocks as the arena has, the trail has ended or has come to a bad block. -/
  ends : ∃ n ≤ a.size, a.stackTrail t (n + 1) first = a.stackTrail t n first
    ∨ ¬ a.Distinct (a.stackTrail t (n + 1) first)
  /-- No two escapes of the routine bear the same number. -/
  escapes : ∀ r, made = .ok r → (Stmt.allEscapes r.stack).Nodup

/-- The links of blocks that go to the host, and of calls of procedures that are not defined. -/
structure LinksOutside (a : Arena) (t : Target) : Prop where
  member : ∀ {id b}, a.get? id = some b → b.statementKind = .escape →
    a.links t (.member id)
      = b.readOutside.filterMap Reading.visit? ++ b.next.toList.map Visit.member
  reporter : ∀ {id b}, a.get? id = some b → b.reporterKind = .escape →
    a.links t (.reporter id) = b.readOutside.filterMap Reading.visit?
  /-- Among them are all slots but those whose names begin with `SUBSTACK`. -/
  outside : ∀ (b : Block) (v : Visit), v ∈ b.readOutside.filterMap Reading.visit?
    ↔ ∃ name id', (name, Slot.block id') ∈ b.inputs ∧ v = .reporter id'
      ∧ ¬ "SUBSTACK".toList <+: name.toList
  undefined : ∀ {id b}, a.get? id = some b → b.statementKind = .call →
    t.procedure? (b.proccode.getD "") = none →
    a.links t (.member id) = b.next.toList.map Visit.member

theorem linksOutside (a : Arena) (t : Target) : a.LinksOutside t := by
  constructor
  · intro id b hb hkind
    rw [links, hb]
    simp [Block.statementReadings, hkind]
  · intro id b hb hkind
    rw [links, hb]
    simp [Block.reporterReadings, hkind]
  · intro b v
    rw [List.mem_filterMap, Block.readOutside]
    constructor
    · rintro ⟨r, hr, hv⟩
      obtain ⟨⟨name, slot⟩, hslot, rfl⟩ := List.mem_map.mp hr
      rw [List.mem_filter] at hslot
      cases slot with
      | literal _ => cases hv
      | block id' =>
        cases hv
        refine ⟨name, id', hslot.1, rfl, fun hname => ?_⟩
        have hfalse : (!"SUBSTACK".toList.isPrefixOf name.toList) = true := hslot.2
        rw [List.isPrefixOf_iff_prefix.mpr hname] at hfalse
        cases hfalse
    · rintro ⟨name, id', hslot, rfl, hname⟩
      refine ⟨.value name (.block id'), List.mem_map.mpr ⟨(name, .block id'), ?_, rfl⟩, rfl⟩
      refine List.mem_filter.mpr ⟨hslot, ?_⟩
      rw [Bool.not_eq_true']
      exact Bool.eq_false_iff.mpr fun h => hname (List.isPrefixOf_iff_prefix.mp h)
  · intro id b hb hkind hnone
    have hcallee : b.callee? t = none := hnone
    rw [links, hb]
    simp [Block.statementReadings, hkind, hcallee]

end Arena

namespace Target

/-- What becomes of a stack of blocks, in whatever surroundings. -/
theorem makesRoutine_routineOf (s : Surroundings) (script : Script) (arguments : List Shape)
    (key : Option VariantKey) :
    script.blocks.MakesRoutine s.target script.top script.label
      (routineOf s script arguments key) := by
  have hmade : ∀ {trees}, script.blocks.stackTrees s.target script.top = .ok trees →
      routineOf s script arguments key = .ok ⟨script, arguments, key, s.statements trees⟩ := by
    intro trees htrees
    rw [routineOf, htrees]
  rcases Arena.stackTrees_cases (s.gathers script.blocks) script.top with
    ⟨trees, ids, hok, hdistinct, htrail, hescapes⟩
      | ⟨e, before, id, herror, hdistinct, hoffends, htrail⟩
  · have hall : ∀ n, script.blocks.Distinct (script.blocks.stackTrail s.target n script.top) := by
      intro n
      refine hdistinct.sublist ?_
      rw [Arena.stackTrail, Arena.trail_eq_take _ _ _ (Nat.le_add_left n ids.length),
        ← Arena.stackTrail, htrail]
      exact List.take_sublist _ _
    constructor
    · exact ⟨fun _ => hall, fun _ => ⟨_, hmade hok⟩⟩
    · intro e
      rw [hmade hok]
      constructor
      · intro h
        cases h
      · rintro ⟨w, ⟨before, id, htrail', -, hoffends⟩, -⟩
        exact absurd (htrail' ▸ hall _) hoffends.not_distinct
    · exact ⟨ids.length, hdistinct.length_le, Or.inl ((htrail 1).trans (htrail 0).symm)⟩
    · intro r hr
      rw [hmade hok] at hr
      cases hr
      rcases hescapes with rfl | ⟨id, -, hsub⟩
      · rw [Surroundings.statements]
        exact List.nodup_nil
      · exact hdistinct.nodup.sublist hsub
  · have hmade : routineOf s script arguments key = .error (.ofWalk script.label e) := by
      rw [routineOf, herror]
    have hbad := Arena.not_distinct_of_lt htrail hoffends (Nat.lt_succ_self _)
    have hrejects : script.blocks.Rejects s.target script.top e :=
      ⟨before, id, htrail, hdistinct, hoffends⟩
    rw [hmade]
    constructor
    · constructor
      · rintro ⟨r, hr⟩
        cases hr
      · intro hall
        exact absurd (hall _) hbad
    · intro e'
      constructor
      · intro h
        cases h
        exact ⟨e, hrejects, rfl⟩
      · rintro ⟨w, hw, rfl⟩
        rw [hrejects.unique hw]
    · exact ⟨before.length, hdistinct.length_le, Or.inr hbad⟩
    · intro r hr
      cases hr

/--
**A routine is made exactly of those graphs that are trees.**

Of a script with a first block, and of each variant of each procedure, there is a routine exactly if
the trail meets each block once and meets no block that is missing; otherwise the error names the
first bad block. The trail leads through the slots that the blocks use: what is found in them stands
in the statements and expressions of the routine, and no other slot makes a difference. Of blocks
that go to the host these are all slots but for the stacks in them, and of calls that lead nowhere
there are none.
-/
theorem makesRoutine_of_top (t : Target) (config : CompilerConfig) :
    (∀ (script : Script) (root : BlockId), script.top = some root →
        script.blocks.MakesRoutine t (some root) script.label (t.entryRoutine config script))
      ∧ (∀ (key : VariantKey) (p : Procedure),
        t.blocks.MakesRoutine t p.body key.text (t.variantRoutine config ⟨key, p⟩))
      ∧ (∀ a : Arena, a.LinksOutside t)
      ∧ ∀ s : Surroundings, s.target = t → ∀ id b, s.UsesReadings id b := by
  refine ⟨fun script root htop => ?_, fun key p => ?_, fun a => a.linksOutside t,
    fun s _ id b => s.usesReadings id b⟩
  · have hmade := makesRoutine_routineOf ⟨t, config, script.warp, none⟩ script [] none
    rw [htop] at hmade
    rw [entryRoutine, htop]
    exact hmade
  · exact makesRoutine_routineOf ⟨t, config, key.warp, some (key, p)⟩ (p.variantScript t.blocks key)
      key.signature (some key)

end Target

/-- A loop with a sum for the number of rounds and a block in it that goes to the host, with an
operand of its own. In a knot the operand is plugged in a second time, as an operand of the sum. -/
def Script.beat (knot : Bool) : Script where
  label := "beat"
  top := some 3
  blocks := .ofList
    [{ opcode := "operator_add",
       inputs := [("NUM1", .literal (.text "1")), ("NUM2", .block (if knot then 1 else 4))] },
     { opcode := "sensing_timer" },
     { opcode := "music_play", inputs := [("NOTE", .block 1), ("SUBSTACK", .block 3)] },
     { opcode := "control_repeat", inputs := [("TIMES", .block 0), ("SUBSTACK", .block 2)] },
     { opcode := "data_variable", fields := [("VARIABLE", "x")] }]

/-- The trail of the knot comes to the operand again, and without the knot there is a routine. -/
theorem Target.makesRoutine_of_top_knot :
    Arena.Rejects (Script.beat true).blocks {} (some 3) (.repeated 1)
      ∧ (∀ n,
        (Script.beat false).blocks.Distinct ((Script.beat false).blocks.stackTrail {} n (some 3)))
      ∧ (Script.beat false).blocks.stackTrail {} 6 (some 3) = [3, 0, 4, 2, 1] := by
  obtain ⟨hmade, -, -, -⟩ := makesRoutine_of_top {} {}
  refine ⟨?_, ?_, by decide +kernel⟩
  · obtain ⟨w, hrejects, hw⟩ :=
      ((hmade (Script.beat true) 3 rfl).fails (.cycle "beat" 1)).mp (by rfl)
    cases w with
    | missing id => cases hw
    | repeated id =>
      cases hw
      exact hrejects
  · have hok : (({} : Target).entryRoutine {} (Script.beat false)).toOption.isSome = true := by
      decide +kernel
    obtain ⟨r, hr⟩ := Option.isSome_iff_exists.mp hok
    exact (hmade (Script.beat false) 3 rfl).succeeds.mp ⟨r, eq_ok_of_toOption hr⟩

end BlockScript
