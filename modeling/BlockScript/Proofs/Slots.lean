import BlockScript.Proofs.Lowering

/-!
# The slots that a block uses

Which slots of a block are read is decided by its kind, before it is known what is in them
(`Block.statementReadings`, `Block.reporterReadings`). What the block becomes is put together later,
by looking slots up by name. The two agree: what was found in a slot that is read stands in the
statement or the expression, and no other slot of the block makes a difference.

Main statement: `Surroundings.usesReadings`.
-/

namespace BlockScript

/-- The stacks that stand in a statement itself. -/
def Stmt.bodies : Stmt → List (List Stmt)
  | .branch _ yes no => [yes, no]
  | .loop _ body _ _ => [body]
  | _ => []

/-- What a statement is put together from. -/
def Stmt.pieces (s : Stmt) : List Part := s.exprs.map .expr ++ s.bodies.map .body

theorem Stmt.expr_mem_pieces {s : Stmt} {e : Expr} (h : e ∈ s.exprs) : .expr e ∈ s.pieces :=
  List.mem_append_left _ (List.mem_map_of_mem h)

theorem Stmt.body_mem_pieces {s : Stmt} {ss : List Stmt} (h : ss ∈ s.bodies) :
    .body ss ∈ s.pieces :=
  List.mem_append_right _ (List.mem_map_of_mem h)

/-- The part is of the sort that a slot becomes if it is read so. -/
def Reading.Yields : Reading → Part → Prop
  | .value _ _, .expr _ | .stack _ _, .body _ => True
  | _, _ => False

/-- The slot may become the part: a literal becomes its constant. -/
def Slot.MayBecome : Slot → Part → Prop
  | .literal v, part => part = .expr (.const v)
  | .block _, _ => True

/-- Parts that slots of the block may become that are not read. -/
def Block.Unread (b : Block) (rs : List Reading) (others : List (String × Part)) : Prop :=
  ∀ q ∈ others, ∃ slot, b.input? q.1 = some slot ∧ slot.MayBecome q.2 ∧ ∀ r ∈ rs, r.name ≠ q.1

/-! ## Looking slots up -/

namespace Part

variable {b : Block} {r : Reading} {rs : List Reading} {part : Part}
  {parts others : List (String × Part)} {name : String}

/-- What was read for its value is found under its name. -/
theorem eq_exprAt (hr : r ∈ b.readValue name) (hpart : parts.lookup r.name = some part)
    (hyields : r.Yields part) (absent : Value) : part = .expr (exprAt parts name absent) := by
  unfold Block.readValue at hr
  split at hr
  · obtain rfl := List.mem_singleton.mp hr
    cases part with
    | expr e =>
      have hpart : parts.lookup name = some (.expr e) := hpart
      rw [exprAt, hpart]
    | body ss => cases hyields
  · cases hr

/-- What was read as a stack is found under its name. -/
theorem eq_bodyAt (hr : r ∈ b.readStack name) (hpart : parts.lookup r.name = some part)
    (hyields : r.Yields part) : part = .body (bodyAt parts name) := by
  unfold Block.readStack at hr
  split at hr
  · obtain rfl := List.mem_singleton.mp hr
    cases part with
    | expr e => cases hyields
    | body ss =>
      have hpart : parts.lookup name = some (.body ss) := hpart
      rw [bodyAt, hpart]
  · cases hr

/-- What goes to the host is found among all slots. -/
theorem mem_exprs (hr : r ∈ b.readOutside) (hpart : parts.lookup r.name = some part)
    (hyields : r.Yields part) : ∃ e, part = .expr e ∧ e ∈ (exprs parts).map Prod.snd := by
  obtain ⟨⟨name, slot⟩, -, rfl⟩ := List.mem_map.mp hr
  cases part with
  | expr e =>
    refine ⟨e, rfl, List.mem_map.mpr ⟨(name, e), ?_, rfl⟩⟩
    exact List.mem_filterMap.mpr ⟨(name, .expr e), mem_of_lookup hpart, rfl⟩
  | body ss => cases hyields

/-- A slot that is read for its value is not among those that are not read. -/
theorem exprAt_append (h : b.Unread rs others) (hrs : ∀ r ∈ b.readValue name, r ∈ rs)
    (parts : List (String × Part)) (absent : Value) :
    exprAt (parts ++ others) name absent = exprAt parts name absent := by
  have hnone : others.lookup name = none := by
    cases hpart : others.lookup name with
    | none => rfl
    | some part =>
      obtain ⟨slot, hslot, -, hunread⟩ := h _ (mem_of_lookup hpart)
      have hslot : b.input? name = some slot := hslot
      rw [Block.readValue, hslot, List.forall_mem_singleton] at hrs
      exact absurd rfl (hunread _ hrs)
  rw [exprAt, exprAt, List.lookup_append, hnone, Option.or_none]

/-- Several slots, read one after the other. -/
theorem map_exprAt_append {α : Type} {as : List α} {name : α → String} (h : b.Unread rs others)
    (hrs : ∀ a ∈ as, ∀ r ∈ b.readValue (name a), r ∈ rs) (parts : List (String × Part))
    (absent : α → Value) :
    as.map (fun a => exprAt (parts ++ others) (name a) (absent a))
      = as.map fun a => exprAt parts (name a) (absent a) :=
  List.map_congr_left fun a ha => exprAt_append h (hrs a ha) parts (absent a)

/-- A slot that is read as a stack is not among those that are not read, unless it has a literal. -/
theorem bodyAt_append (h : b.Unread rs others) (hrs : ∀ r ∈ b.readStack name, r ∈ rs)
    (parts : List (String × Part)) : bodyAt (parts ++ others) name = bodyAt parts name := by
  have hnobody : ∀ ss, others.lookup name ≠ some (.body ss) := by
    intro ss hpart
    obtain ⟨slot, hslot, hbecomes, hunread⟩ := h _ (mem_of_lookup hpart)
    have hslot : b.input? name = some slot := hslot
    cases slot with
    | literal v => cases hbecomes
    | block id =>
      rw [Block.readStack, hslot, List.forall_mem_singleton] at hrs
      exact absurd rfl (hunread _ hrs)
  unfold bodyAt
  rw [List.lookup_append]
  cases parts.lookup name with
  | some part => rfl
  | none =>
    rw [Option.none_or]
    cases hpart : others.lookup name with
    | none => rfl
    | some part =>
      cases part with
      | expr e => rfl
      | body ss => exact absurd hpart (hnobody ss)

end Part

/-! ## One block -/

namespace Surroundings

/-- The block becomes what is found in the slots that are read, and no other slot makes a
difference. A block that goes to the host takes along whatever was read. -/
structure UsesReadings (s : Surroundings) (id : BlockId) (b : Block) : Prop where
  statement : ∀ (parts : List (String × Part)), ∀ r ∈ b.statementReadings s.target, ∀ part,
    parts.lookup r.name = some part → r.Yields part →
    ∃ stmt, s.statement? id b parts = some stmt ∧ part ∈ stmt.pieces
  statementOnly : b.statementKind ≠ .escape → ∀ parts others : List (String × Part),
    b.Unread (b.statementReadings s.target) others →
    s.statement? id b (parts ++ others) = s.statement? id b parts
  reporter : ∀ (parts : List (String × Part)), ∀ r ∈ b.reporterReadings, ∀ part,
    parts.lookup r.name = some part → r.Yields part →
    ∃ e, part = .expr e ∧ e ∈ (s.reporter id b parts).children
  reporterOnly : b.reporterKind ≠ .escape → ∀ parts others : List (String × Part),
    b.Unread b.reporterReadings others →
    s.reporter id b (parts ++ others) = s.reporter id b parts

variable {s : Surroundings} {b : Block} {r : Reading} {part : Part}
  {parts others : List (String × Part)}

/-- A loop takes what was read in its slots. -/
theorem mem_pieces_loop {form : LoopForm} (hkind : b.statementKind = .loop form)
    (hr : r ∈ b.statementReadings s.target) (hpart : parts.lookup r.name = some part)
    (hyields : r.Yields part) :
    part ∈ (s.makeLoop (loopKind parts form) (loopBody parts form)).pieces := by
  rw [Block.statementReadings, hkind] at hr
  cases form with
  | times =>
    rcases List.mem_append.mp hr with hr | hr
    · rw [Part.eq_exprAt hr hpart hyields .empty]
      exact Stmt.expr_mem_pieces List.mem_cons_self
    · rw [Part.eq_bodyAt hr hpart hyields]
      exact Stmt.body_mem_pieces List.mem_cons_self
  | forever =>
    rw [Part.eq_bodyAt hr hpart hyields]
    exact Stmt.body_mem_pieces List.mem_cons_self
  | «until» | «while» =>
    rcases List.mem_append.mp hr with hr | hr
    · rw [Part.eq_exprAt hr hpart hyields (.bool false)]
      exact Stmt.expr_mem_pieces List.mem_cons_self
    · rw [Part.eq_bodyAt hr hpart hyields]
      exact Stmt.body_mem_pieces List.mem_cons_self
  | waitUntil =>
    rw [Part.eq_exprAt hr hpart hyields (.bool false)]
    exact Stmt.expr_mem_pieces List.mem_cons_self

/-- A branch takes what was read in its slots. -/
theorem mem_pieces_branch {withElse : Bool} (hkind : b.statementKind = .branch withElse)
    (hr : r ∈ b.statementReadings s.target) (hpart : parts.lookup r.name = some part)
    (hyields : r.Yields part) :
    part ∈ (Stmt.branch (Part.exprAt parts "CONDITION" (.bool false)) (Part.bodyAt parts "SUBSTACK")
      (if withElse then Part.bodyAt parts "SUBSTACK2" else [])).pieces := by
  have hfirst : ∀ no, r ∈ b.readValue "CONDITION" ++ b.readStack "SUBSTACK" →
      part ∈ (Stmt.branch (Part.exprAt parts "CONDITION" (.bool false))
        (Part.bodyAt parts "SUBSTACK") no).pieces := by
    intro no hr
    rcases List.mem_append.mp hr with hr | hr
    · rw [Part.eq_exprAt hr hpart hyields (.bool false)]
      exact Stmt.expr_mem_pieces List.mem_cons_self
    · rw [Part.eq_bodyAt hr hpart hyields]
      exact Stmt.body_mem_pieces List.mem_cons_self
  rw [Block.statementReadings, hkind] at hr
  cases withElse with
  | false => exact hfirst _ hr
  | true =>
    rcases List.mem_append.mp hr with hr | hr
    · exact hfirst _ hr
    · rw [Part.eq_bodyAt hr hpart hyields]
      exact Stmt.body_mem_pieces (List.mem_cons_of_mem _ List.mem_cons_self)

/-- A member of a stack takes what was read in its slots. -/
theorem mem_pieces_statement (id : BlockId) (hr : r ∈ b.statementReadings s.target)
    (hpart : parts.lookup r.name = some part) (hyields : r.Yields part) :
    ∃ stmt, s.statement? id b parts = some stmt ∧ part ∈ stmt.pieces := by
  unfold statement?
  cases hkind : b.statementKind with
  | loop form => exact ⟨_, rfl, mem_pieces_loop hkind hr hpart hyields⟩
  | branch withElse => exact ⟨_, rfl, mem_pieces_branch hkind hr hpart hyields⟩
  | hat | stop =>
    rw [Block.statementReadings, hkind] at hr
    cases hr
  | wait | set | change =>
    rw [Block.statementReadings, hkind] at hr
    rw [Part.eq_exprAt hr hpart hyields .empty]
    exact ⟨_, rfl, Stmt.expr_mem_pieces List.mem_cons_self⟩
  | call =>
    rw [Block.statementReadings, hkind] at hr
    dsimp only at hr ⊢
    cases hcallee : b.callee? s.target with
    | none =>
      rw [hcallee] at hr
      cases hr
    | some p =>
      rw [hcallee] at hr
      obtain ⟨q, hq, hr⟩ := List.mem_flatMap.mp hr
      rw [Part.eq_exprAt hr hpart hyields q.kind.default]
      exact ⟨_, rfl, Stmt.expr_mem_pieces (List.mem_map.mpr ⟨q, hq, rfl⟩)⟩
  | primitive p =>
    rw [Block.statementReadings, hkind] at hr
    obtain ⟨n, hn, hr⟩ := List.mem_flatMap.mp hr
    rw [Part.eq_exprAt hr hpart hyields .empty]
    exact ⟨_, rfl, Stmt.expr_mem_pieces (List.mem_map.mpr ⟨n, hn, rfl⟩)⟩
  | escape =>
    rw [Block.statementReadings, hkind] at hr
    obtain ⟨e, rfl, he⟩ := Part.mem_exprs hr hpart hyields
    exact ⟨_, rfl, Stmt.expr_mem_pieces he⟩

/-- A reporter takes what was read in its slots. -/
theorem mem_children_reporter (id : BlockId) (hr : r ∈ b.reporterReadings)
    (hpart : parts.lookup r.name = some part) (hyields : r.Yields part) :
    ∃ e, part = .expr e ∧ e ∈ (s.reporter id b parts).children := by
  unfold reporter
  cases hkind : b.reporterKind with
  | numeral | text | «variable» | argument =>
    rw [Block.reporterReadings, hkind] at hr
    cases hr
  | unary op =>
    rw [Block.reporterReadings, hkind] at hr
    exact ⟨_, Part.eq_exprAt hr hpart hyields op.absent, List.mem_cons_self⟩
  | binary op =>
    rw [Block.reporterReadings, hkind] at hr
    rcases List.mem_append.mp hr with hr | hr
    · exact ⟨_, Part.eq_exprAt hr hpart hyields op.absent, List.mem_cons_self⟩
    · exact ⟨_, Part.eq_exprAt hr hpart hyields op.absent,
        List.mem_cons_of_mem _ List.mem_cons_self⟩
  | primitive p shape =>
    rw [Block.reporterReadings, hkind] at hr
    obtain ⟨n, hn, hr⟩ := List.mem_flatMap.mp hr
    exact ⟨_, Part.eq_exprAt hr hpart hyields .empty, List.mem_map.mpr ⟨n, hn, rfl⟩⟩
  | escape =>
    rw [Block.reporterReadings, hkind] at hr
    exact Part.mem_exprs hr hpart hyields

/-- A member of a stack takes nothing else. -/
theorem statement?_append (id : BlockId) (hkind : b.statementKind ≠ .escape)
    (h : b.Unread (b.statementReadings s.target) others) (parts : List (String × Part)) :
    s.statement? id b (parts ++ others) = s.statement? id b parts := by
  unfold statement?
  unfold Block.statementReadings at h
  cases hk : b.statementKind with
  | hat | stop => rfl
  | loop form =>
    rw [hk] at h
    cases form with
    | times =>
      simp only [loopKind, loopBody, Part.exprAt_append h fun _ => List.mem_append_left _,
        Part.bodyAt_append h fun _ => List.mem_append_right _]
    | «forever» => simp only [loopKind, loopBody, Part.bodyAt_append h fun _ hr => hr]
    | «until» | «while» =>
      simp only [loopKind, loopBody, Part.exprAt_append h fun _ => List.mem_append_left _,
        Part.bodyAt_append h fun _ => List.mem_append_right _]
    | waitUntil => simp only [loopKind, loopBody, Part.exprAt_append h fun _ hr => hr]
  | branch withElse =>
    rw [hk] at h
    cases withElse with
    | false =>
      simp only [Bool.false_eq_true, if_false, Part.exprAt_append h fun _ => List.mem_append_left _,
        Part.bodyAt_append h fun _ => List.mem_append_right _]
    | true =>
      simp only [if_true,
        Part.exprAt_append h fun _ hr => List.mem_append_left _ (List.mem_append_left _ hr),
        Part.bodyAt_append h fun _ hr => List.mem_append_left _ (List.mem_append_right _ hr),
        Part.bodyAt_append h fun _ => List.mem_append_right _]
  | wait | set | change =>
    rw [hk] at h
    simp only [Part.exprAt_append h fun _ hr => hr]
  | call =>
    rw [hk] at h
    dsimp only at h ⊢
    cases hcallee : b.callee? s.target with
    | none => rfl
    | some p =>
      rw [hcallee] at h
      rw [Option.map_some, Option.map_some,
        Part.map_exprAt_append h fun q hq r hr => List.mem_flatMap.mpr ⟨q, hq, hr⟩]
  | primitive p =>
    rw [hk] at h
    dsimp only
    rw [Part.map_exprAt_append h fun n hn r hr => List.mem_flatMap.mpr ⟨n, hn, hr⟩]
  | escape => exact absurd hk hkind

/-- A reporter takes nothing else. -/
theorem reporter_append (id : BlockId) (hkind : b.reporterKind ≠ .escape)
    (h : b.Unread b.reporterReadings others) (parts : List (String × Part)) :
    s.reporter id b (parts ++ others) = s.reporter id b parts := by
  unfold reporter
  unfold Block.reporterReadings at h
  cases hk : b.reporterKind with
  | numeral | text | «variable» | argument => rfl
  | unary op =>
    rw [hk] at h
    simp only [Part.exprAt_append h fun _ hr => hr]
  | binary op =>
    rw [hk] at h
    simp only [Part.exprAt_append h fun _ => List.mem_append_left _,
      Part.exprAt_append h fun _ => List.mem_append_right _]
  | primitive p shape =>
    rw [hk] at h
    dsimp only
    rw [Part.map_exprAt_append h fun n hn r hr => List.mem_flatMap.mpr ⟨n, hn, hr⟩]
  | escape => exact absurd hk hkind

/-- **A block uses exactly the slots that are read.** -/
theorem usesReadings (s : Surroundings) (id : BlockId) (b : Block) : s.UsesReadings id b where
  statement _ _ hr _ hpart hyields := mem_pieces_statement id hr hpart hyields
  statementOnly hkind parts _ hothers := statement?_append id hkind hothers parts
  reporter _ _ hr _ hpart hyields := mem_children_reporter id hr hpart hyields
  reporterOnly hkind parts _ hothers := reporter_append id hkind hothers parts

end Surroundings

end BlockScript
