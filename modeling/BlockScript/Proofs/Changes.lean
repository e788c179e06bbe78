import BlockScript.Proofs.Closure
import BlockScript.Proofs.Sandbox
import BlockScript.Proofs.Warp

/-!
# Changing a variable

A statement that changes a variable reads it, computes by how much it is to change, and writes the
sum. While the change is computed, the value that was read lies on the stack below all that is
computed (`Frame.Inside`), and there it stays, however long the thread has to wait and whatever
becomes of the variable meanwhile. So what is written is the sum of the value that was read at the
beginning and the change (`Session.sums_of_compile`); if the variable has been written in between,
that is lost (`Session.overwrites_tally`).
-/

namespace BlockScript

/-! ## The code of an expression -/

theorem Instr.effect_of_computes {op : Instr} (h : op.computes = true) : op.effect.2 = 1 := by
  cases op with
  | push | loadArg | callSupport | callHost | escape | getVariable => rfl
  | _ => cases h

namespace Expr

variable {x : CodeScope} {e : Expr}

/-- The number of values that the first `n` instructions of an expression leave on the stack, above
what was there. -/
def height (x : CodeScope) (e : Expr) (n : Nat) : Nat := (x.shapesAt (e.code x.imports) n).length

/-- An expression in a routine: its demands are met, and its arguments are those of the routine. -/
structure FitsIn (x : CodeScope) (e : Expr) : Prop where
  met : ∀ d ∈ e.demands, x.imports.Meets d
  scope : ∀ n ∈ e.nodes, n.ScopedIn x.args
  escapes : ∀ n ∈ e.nodes, n.EscapesFit

theorem height_zero : e.height x 0 = 0 := by
  rw [height, CodeScope.shapesAt_zero, List.length_nil]

theorem FitsIn.height_size (h : e.FitsIn x) : e.height x e.size = 1 := by
  have hwhole : CodeAt (e.code x.imports) 0 (e.code x.imports) := ⟨[], [], by simp, rfl⟩
  obtain ⟨shape, -, hstretch⟩ := stretch_code e hwhole h.met h.scope (x.shapesAt_zero _)
  have hafter := hstretch.after
  rw [Nat.zero_add] at hafter
  rw [height, hafter, List.length_singleton]

/-- Each instruction takes only values that were computed by the ones before it, and leaves one. -/
theorem FitsIn.height_succ (h : e.FitsIn x) {n : Nat} {op : Instr}
    (hop : (e.code x.imports)[n]? = some op) :
    op.effect.1 ≤ e.height x n ∧ e.height x (n + 1) + op.effect.1 = e.height x n + 1 := by
  have hwhole : CodeAt (e.code x.imports) 0 (e.code x.imports) := ⟨[], [], by simp, rfl⟩
  have hn : n < e.size := by
    rw [← length_code x.imports]
    exact (List.getElem?_eq_some_iff.mp hop).1
  obtain ⟨shape, -, hstretch⟩ := stretch_code e hwhole h.met h.scope (x.shapesAt_zero _)
  have hheight := (hstretch.fine n op (Nat.zero_le n) (by omega) hop).height
  have hcomputes := computes_code e op (List.mem_of_getElem? hop)
  refine ⟨hheight, ?_⟩
  unfold height
  rw [x.shapesAt_succ hop, CodeScope.scan, List.length_append, x.length_result?,
    Instr.effect_of_computes hcomputes, List.length_drop]
  omega

end Expr

/-! ## Instructions that compute -/

namespace Frame

variable {σ : Type} {h : Host σ} {s : Setting} {callers : List Frame} {w : World σ} {f : Frame}
  {base vs : List Value}

/-- A support function is applied to the values on the top of the stack. -/
theorem exec_callSupport {i argc : UInt16} {fn : Support}
    (hfn : f.routine.support[i.toNat]? = some fn) (hstack : f.stack.toList = base ++ vs)
    (hargc : argc.toNat = vs.length) :
    f.exec h s callers w (.callSupport i argc)
      = ({ f with stack := (base ++ [fn.apply vs]).toArray, pc := f.pc + 1 }, w, .next) := by
  rw [exec]
  simp only [hfn]
  rw [withValues_of_append hstack hargc.symm]
  simp only [push, advance, List.push_toArray]

/-- What an instruction that computes makes of its frame: it takes values from the top of the stack
and leaves one, or waits for that one, or fails. -/
inductive ComputesTo (f : Frame) (rest : List Value) : Frame → Effect → Prop
  | goes {effect} (v : Value) : effect = .next ∨ effect = .nextUnlessStopped →
    ComputesTo f rest { f with stack := (rest ++ [v]).toArray, pc := f.pc + 1 } effect
  | waits (id : PendingId) :
    ComputesTo f rest { f with stack := rest.toArray, pending := some id } (.suspend .blocking)
  | fails (fault : Fault) : ComputesTo f rest f (.fail fault)

/-- An instruction that computes takes nothing before it fails. -/
theorem Faults.stack_eq_of_computes {op : Instr} {stack : Array Value} {fault : Fault}
    (hfault : f.Faults s callers op stack fault) (hcomputes : op.computes = true) :
    stack = f.stack := by
  cases hfault with
  | slot hlocal =>
    cases op with
    | loadLocal | storeLocal | countdown | checkDeadline => cases hcomputes
    | _ => cases hlocal
  | jump hoffset =>
    cases op with
    | jump | jumpIfFalse | jumpIfTrue | countdown => cases hcomputes
    | _ => cases hoffset
  | condition hop => rcases hop with rfl | rfl <;> cases hcomputes
  | _ => rfl

theorem computesTo_exec (h : Host σ) (s : Setting) (callers : List Frame) (w : World σ) (f : Frame)
    {op : Instr} (hcomputes : op.computes = true) (hfits : op.EscapeFits)
    (hstack : f.stack.toList = base ++ vs) (hle : op.effect.1 ≤ vs.length) :
    f.ComputesTo (base ++ vs.take (vs.length - op.effect.1)) (f.exec h s callers w op).1
      (f.exec h s callers w op).2.2 := by
  -- What is taken are the last of the values `vs`.
  have hrest : ∀ {rest taken : List Value}, f.stack.toList = rest ++ taken →
      taken.length = op.effect.1 → base ++ vs.take (vs.length - op.effect.1) = rest := by
    intro rest taken hsplit htaken
    rw [hstack] at hsplit
    have hlength := congrArg List.length hsplit
    rw [List.length_append, List.length_append] at hlength
    have hcount : rest.length = base.length + (vs.length - op.effect.1) := by omega
    rw [← List.take_length_add_append, ← hcount, hsplit, List.take_left]
  obtain ⟨action, hacts, hexec⟩ := f.exists_acts s callers op
  rw [hexec]
  cases hacts with
  | fails hfault =>
    rw [hfault.stack_eq_of_computes hcomputes]
    exact .fails _
  | computes hsplit hvalue =>
    rw [hrest hsplit (hvalue.length_eq.trans hvalue.taken_eq)]
    simp only [Action.perform, List.push_toArray]
    exact .goes _ (Or.inl rfl)
  | evaluates hsplit htaken =>
    rw [Nat.mod_eq_of_lt hfits] at htaken
    rw [hrest hsplit htaken]
    simp only [Action.perform, push, advance, List.push_toArray]
    exact .goes _ (Or.inr rfl)
  | calls _ hsplit htaken =>
    rw [hrest hsplit htaken]
    simp only [Action.perform, callHost]
    split
    · simp only [push, advance, List.push_toArray]
      exact .goes _ (Or.inr rfl)
    · exact .waits _
  | gets name =>
    have hpush : f.stack.push (h.getVariable w.host name).answer
        = (f.stack.toList ++ [(h.getVariable w.host name).answer]).toArray := by
      rw [← Array.toList_push, Array.toArray_toList]
    rw [hrest (List.append_nil _).symm rfl]
    simp only [Action.perform, push, advance, hpush]
    exact .goes _ (Or.inl rfl)
  | jumps _ hjumps => cases hjumps <;> cases hcomputes
  | @passes _ _ _ b _ hop =>
    subst hop
    cases b <;> cases hcomputes
  | _ => cases hcomputes

/-! ## Frames inside an expression -/

/-- Ticks at positions from `lo` up to `hi`, each on any host and in any world, by which the
innermost frame becomes another one. The frames below it stay as they are. -/
inductive Passes (s : Setting) (callers : List Frame) (lo hi : Nat) (f : Frame) : Frame → Prop
  | refl : Passes s callers lo hi f f
  | tick {σ : Type} {g g' : Frame} {w w' : World σ} {flow : Flow} (h : Host σ)
    (before : Passes s callers lo hi f g) (hlo : lo ≤ g.pc) (hhi : g.pc < hi)
    (done : Execution.dispatch h s w (g :: callers) = (g' :: callers, w', flow)) :
    Passes s callers lo hi f g'

/-- The frame is in the midst of an expression, which it began as `o`: above the values that were on
the stack then there are those computed so far, and nothing else has changed. -/
inductive Inside (x : CodeScope) (e : Expr) (o : Frame) : Frame → Prop
  | ready {n : Nat} {vs : List Value} (hn : n ≤ e.size) (height : vs.length = e.height x n) :
    Inside x e o { o with stack := (o.stack.toList ++ vs).toArray, pc := o.pc + n }
  /-- The value of the instruction at the position has not come yet. -/
  | waiting {n : Nat} {vs : List Value} (id : PendingId) (hn : n < e.size)
    (height : vs.length + 1 = e.height x (n + 1)) :
    Inside x e o
      { o with stack := (o.stack.toList ++ vs).toArray, pc := o.pc + n, pending := some id }

namespace Inside

variable {x : CodeScope} {e : Expr} {o g : Frame}

theorem start : Inside x e o o := by
  have hready : Inside x e o { o with stack := (o.stack.toList ++ []).toArray, pc := o.pc + 0 } :=
    .ready (Nat.zero_le _) Expr.height_zero.symm
  rwa [List.append_nil, Array.toArray_toList, Nat.add_zero] at hready

theorem pc_le (hf : Inside x e o f) : f.pc ≤ o.pc + e.size := by
  cases hf with
  | ready hn | waiting _ hn => exact Nat.add_le_add_left (by omega) _

/-- At the end of the expression there is its value. -/
theorem exists_value (hf : Inside x e o f) (hfits : e.FitsIn x) (hpc : f.pc = o.pc + e.size) :
    ∃ v, f = { o with stack := o.stack.push v, pc := o.pc + e.size } := by
  cases hf with
  | @ready n vs hn hheight =>
    obtain rfl : n = e.size := Nat.add_left_cancel hpc
    rw [hfits.height_size] at hheight
    obtain ⟨v, rfl⟩ := List.length_eq_one_iff.mp hheight
    exact ⟨v, by rw [← List.push_toArray, Array.toArray_toList]⟩
  | @waiting n vs _ hn =>
    have : n = e.size := Nat.add_left_cancel hpc
    omega

/-- **What lies below the values of an expression stays** while the expression is computed. -/
theorem exists_dispatch (hf : Inside x e o f) (hfits : e.FitsIn x)
    (hat : CodeAt o.routine.image.ops o.pc (e.code x.imports)) (ho : o.pending = none)
    (hpc : f.pc < o.pc + e.size) (h : Host σ) (w : World σ) :
    ∃ g w' flow, Execution.dispatch h s w (f :: callers) = (g :: callers, w', flow)
      ∧ Inside x e o g := by
  cases hf with
  | @waiting n vs id hn hheight =>
    simp only [Execution.dispatch, Execution.pollFrame]
    split
    · next v _ =>
      refine ⟨_, _, _, rfl, ?_⟩
      have hready : Inside x e o
          { o with stack := (o.stack.toList ++ (vs ++ [v])).toArray, pc := o.pc + (n + 1) } :=
        .ready hn (by simpa using hheight)
      simpa [push, advance, ho, Nat.add_assoc] using hready
    · exact ⟨_, _, _, rfl, .waiting id hn hheight⟩
  | @ready n vs hn hheight =>
    have hn' : n < (e.code x.imports).length := by
      rw [Expr.length_code]
      exact Nat.lt_of_add_lt_add_left hpc
    have hcode := List.getElem?_eq_getElem hn'
    obtain ⟨hle, hsucc⟩ := hfits.height_succ hcode
    have hops := (hat.getElem?_add hn').trans hcode
    have hmem := List.mem_of_getElem? hcode
    generalize (e.code x.imports)[n] = op at hcode hle hsucc hops hmem
    rw [Expr.length_code] at hn'
    rw [← hheight] at hle hsucc
    have hexec := computesTo_exec h s callers w
      { o with stack := (o.stack.toList ++ vs).toArray, pc := o.pc + n }
      (Expr.computes_code e op hmem) (Expr.escapeFits_code hfits.escapes op hmem) rfl hle
    have htake : (vs.take (vs.length - op.effect.1)).length = vs.length - op.effect.1 := by
      rw [List.length_take]
      omega
    rw [Execution.dispatch_of_code (f := { o with stack := _, pc := o.pc + n }) ho hops]
    generalize exec h s callers w _ op = r at hexec
    obtain ⟨f', w₁, effect⟩ := r
    cases hexec with
    | goes v heffect =>
      have hready : Inside x e o { o with
          stack := (o.stack.toList ++ (vs.take (vs.length - op.effect.1) ++ [v])).toArray
          pc := o.pc + (n + 1) } :=
        .ready hn' (by rw [List.length_append, htake, List.length_singleton]; omega)
      rw [← List.append_assoc] at hready
      rcases heffect with rfl | rfl
      · exact ⟨_, _, _, rfl, hready⟩
      · exact ⟨_, _, _, rfl, hready⟩
    | waits id =>
      have hwaiting : Inside x e o { o with
          stack := (o.stack.toList ++ vs.take (vs.length - op.effect.1)).toArray
          pc := o.pc + n
          pending := some id } := .waiting id hn' (by omega)
      exact ⟨_, _, _, rfl, hwaiting⟩
    | fails fault => exact ⟨_, _, _, rfl, .ready hn hheight⟩

/-- However long it takes to compute the expression, what lies below stays. -/
theorem passes (hfits : e.FitsIn x) (hat : CodeAt o.routine.image.ops o.pc (e.code x.imports))
    (ho : o.pending = none) (hpasses : o.Passes s callers o.pc (o.pc + e.size) g) :
    Inside x e o g := by
  induction hpasses with
  | refl => exact start
  | tick h _ _ hhi hdone ih =>
    obtain ⟨g, w', flow, hdispatch, hg⟩ := ih.exists_dispatch hfits hat ho hhi h _
    cases hdone.symm.trans hdispatch
    exact hg

end Inside

end Frame

/-! ## Statements that change a variable -/

/-- At position `a` of the routine stands a statement that changes the variable `name`, with `size`
instructions that compute by how much. -/
structure Linked.ChangesAt (s : Setting) (l : Linked) (a : Nat) (name : String) (size : Nat) :
    Prop where
  /-- It begins by reading the variable. -/
  reads : ∀ (f : Frame) (callers : List Frame), f.routine = l → f.pc = a → f.pending = none →
    ∀ (σ : Type) (h : Host σ) (w : World σ), Execution.dispatch h s w (f :: callers)
      = ({ f with stack := f.stack.push (h.getVariable w.host name).answer, pc := a + 1 }
          :: callers, w.after (h.getVariable w.host name), .next)
  /-- While it computes the change, no other frame is entered, and this one is not left. -/
  stays : ∀ (f : Frame) (callers : List Frame), f.routine = l → f.pc = a → f.pending = none →
    ∀ (old : Value) (g : Frame), Frame.Passes s callers (a + 1) (a + 1 + size)
        { f with stack := f.stack.push old, pc := a + 1 } g →
      g.pc ≤ a + 1 + size ∧ (g.pc < a + 1 + size → ∀ (σ : Type) (h : Host σ) (w : World σ),
        ∃ g' w' flow, Execution.dispatch h s w (g :: callers) = (g' :: callers, w', flow))
  /-- When the change is computed, it is added to what was read, and the sum is written. -/
  sets : ∀ (f : Frame) (callers : List Frame), f.routine = l → f.pc = a → f.pending = none →
    ∀ (old : Value) (g : Frame), Frame.Passes s callers (a + 1) (a + 1 + size)
        { f with stack := f.stack.push old, pc := a + 1 } g → g.pc = a + 1 + size →
      ∃ v, g = { f with stack := (f.stack.push old).push v, pc := a + 1 + size }
        ∧ (∀ (σ : Type) (h : Host σ) (w : World σ), Execution.dispatch h s w (g :: callers)
          = ({ f with stack := f.stack.push (Support.add.apply [old, v]), pc := a + size + 2 }
              :: callers, w, .next))
        ∧ ∀ (σ : Type) (h : Host σ) (w : World σ), Execution.dispatch h s w
            ({ f with stack := f.stack.push (Support.add.apply [old, v]), pc := a + size + 2 }
              :: callers)
          = ({ f with pc := a + size + 3 } :: callers,
            w.after (h.setVariable w.host name (Support.add.apply [old, v])), .next)

theorem Linked.changesAt_of_code {s : Setting} {l : Linked} {x : CodeScope} {a : Nat}
    {name : String} {delta : Expr} (hfits : delta.FitsIn x)
    (hsupport : l.support = x.imports.support) (hadd : x.imports.Meets (.support .add))
    (hat : CodeAt l.image.ops a (.getVariable name :: (delta.code x.imports
      ++ [x.imports.callSupport .add 2, .setVariable name]))) :
    l.ChangesAt s a name delta.size := by
  have hread : l.image.ops[a]? = some (.getVariable name) := hat.head
  have hdelta : CodeAt l.image.ops (a + 1) (delta.code x.imports) := hat.tail.left
  have hlast := Expr.length_code x.imports delta ▸ hat.tail.right
  have hinside : ∀ (f : Frame) (callers : List Frame), f.routine = l → f.pending = none →
      ∀ (old : Value) (g : Frame), Frame.Passes s callers (a + 1) (a + 1 + delta.size)
        { f with stack := f.stack.push old, pc := a + 1 } g →
      Frame.Inside x delta { f with stack := f.stack.push old, pc := a + 1 } g := by
    intro f callers hf hnone old g hpasses
    exact Frame.Inside.passes hfits (by rw [hf]; exact hdelta) hnone hpasses
  refine ⟨?_, ?_, ?_⟩
  · rintro f callers hf rfl hnone σ h w
    rw [← hf] at hread
    rw [Execution.dispatch_of_code hnone hread]
    rfl
  · intro f callers hf hpc hnone old g hpasses
    have hg := hinside f callers hf hnone old g hpasses
    refine ⟨hg.pc_le, fun hlt σ h w => ?_⟩
    obtain ⟨g', w', flow, hdispatch, -⟩ :=
      hg.exists_dispatch hfits (by rw [hf]; exact hdelta) hnone hlt h w
    exact ⟨g', w', flow, hdispatch⟩
  · intro f callers hf hpc hnone old g hpasses hend
    obtain ⟨v, hg⟩ := (hinside f callers hf hnone old g hpasses).exists_value hfits hend
    have hpc' : a + 1 + delta.size + 1 = a + delta.size + 2 := by omega
    refine ⟨v, hg, fun σ h w => ?_, fun σ h w => ?_⟩
    · have hroutine : g.routine = l := by rw [hg, hf]
      have hop : g.routine.image.ops[g.pc]? = some (x.imports.callSupport .add 2) := by
        rw [hroutine, hend]
        exact hlast.head
      have hfn : g.routine.support[(UInt16.ofNat (x.imports.support.idxOf .add)).toNat]?
          = some .add := by
        rw [hroutine, hsupport]
        exact hadd
      have hstack : g.stack.toList = f.stack.toList ++ [old, v] := by
        rw [hg]
        simp
      rw [Execution.dispatch_of_code (by rw [hg, hnone]) hop, Imports.callSupport,
        Frame.exec_callSupport hfn hstack rfl, hend, hpc', ← List.push_toArray,
        Array.toArray_toList, hg]
      rfl
    · have hop : f.routine.image.ops[a + delta.size + 2]? = some (.setVariable name) := by
        rw [hf, ← hpc']
        exact hlast.tail.head
      rw [Execution.dispatch_of_code (f := { f with stack := _, pc := a + delta.size + 2 })
        hnone hop, Frame.exec]
      simp [Frame.withValue, Frame.advance, Execution.applyEffect]

namespace CompiledThread

/-- The linked routine is what became of a routine of the program. -/
inductive Has (thread : CompiledThread) (p : Program) : Routine → Linked → Prop
  | entry : Has thread p p.entry thread.entry
  | variant {k : VariantKey} {own : Routine} {l : Linked} (hown : p.procedures.find? k = some own)
    (hl : thread.variants.find? k = some l) : Has thread p own l

variable {t : Target} {scripts : List Script} {number : Nat} {script : Script}
  {config : CompilerConfig} {p : Program} {thread : CompiledThread} {own : Routine} {l : Linked}

/-- Each routine of a thread was made of what the routine of the program is made of. -/
theorem Has.exists_denotes (h : thread.Has p own l) (hmade : thread.MadeOf t scripts number p)
    (hp : p.GeneratedBy t config script) (hscript : scripts[number]? = some script) :
    ∃ (ref : ScriptRef) (c : CompilerConfig) (r : Routine) (p' : Program),
      ref.Denotes t scripts config own ∧ ref.Denotes t scripts c r
        ∧ r.compile p' c = .ok l.image := by
  cases h with
  | entry =>
    obtain ⟨c, r, p', hr, hcompile⟩ := hmade.entry
    exact ⟨.script number, c, r, p', ⟨script, hscript, hp.entry⟩, hr, hcompile⟩
  | @variant k own l hown hl =>
    obtain ⟨own', hown', c, r, p', hr, hcompile⟩ := VariantTable.exists_find?_left
      (R := fun k _ l => Linked.MadeFor t scripts (.variant k) l) hmade.variants hl
    cases hown.symm.trans hown'
    exact ⟨.variant k, c, r, p', hp.names k own (VariantTable.mem_of_find? hown), hr, hcompile⟩

end CompiledThread

namespace Stmt

/-- The variable that a statement changes, and the number of instructions that compute by how much,
if there are no more inputs to an escape than the machine can count. -/
def changed? : Stmt → Option (String × Nat)
  | .change name delta => if ∀ n ∈ delta.nodes, n.EscapesFit then some (name, delta.size) else none
  | _ => none

theorem exists_change_of_mem {ss : List Stmt} {name : String} {size : Nat}
    (h : (name, size) ∈ (allNodes ss).filterMap changed?) :
    ∃ delta, .change name delta ∈ allNodes ss ∧ (∀ n ∈ delta.nodes, n.EscapesFit)
      ∧ delta.size = size := by
  obtain ⟨n, hn, hchanged⟩ := List.mem_filterMap.mp h
  cases n with
  | change name' delta =>
    rw [changed?] at hchanged
    split at hchanged
    · next hescapes =>
      cases hchanged
      exact ⟨delta, hn, hescapes, rfl⟩
    · cases hchanged
  | branch | loop | call | set | wait | host | done | escape => cases hchanged

end Stmt

/-- The tables that the instructions of a linked routine count in. -/
def Linked.imports (l : Linked) : Imports := ⟨l.support, l.image.host, l.image.procedures⟩

theorem Linked.imports_of_image {l : Linked} {r : Routine} {c : CompilerConfig}
    (h : l.image = r.image c) : l.imports = r.imports c := by
  rw [imports, support_of_image h, h]
  rfl

/-- A statement that changes a variable does not depend on the settings of the code, and has no
local slots. -/
theorem Stmt.PlacedAt.change {s s' : CodeSettings} {i : Imports} {code : List Instr} {name : String}
    {delta : Expr} {a base base' : Nat} (h : (Stmt.change name delta).PlacedAt s i code a base) :
    (Stmt.change name delta).PlacedAt s' i code a base' := by
  obtain ⟨hat, hmet⟩ := h
  rw [Stmt.code] at hat
  rw [demands] at hmet
  exact ⟨by rwa [Stmt.code], by rwa [demands]⟩

/-- The code of a statement that changes a variable, wherever it stands. -/
theorem Routine.changesAt_of_placedAt {ref : ScriptRef} {t : Target} {scripts : List Script}
    {c : CompilerConfig} {r : Routine} {l : Linked} (s : Setting) (hr : ref.Denotes t scripts c r)
    (himage : l.image = r.image c) {name : String} {delta : Expr}
    (hchange : .change name delta ∈ Stmt.allNodes r.stack)
    (hescapes : ∀ n ∈ delta.nodes, n.EscapesFit) {settings : CodeSettings} {a base : Nat}
    (hplaced : (Stmt.change name delta).PlacedAt settings l.imports l.image.ops a base) :
    l.ChangesAt s a name delta.size := by
  obtain ⟨hat, hmet⟩ := hplaced
  rw [Stmt.code] at hat
  rw [Stmt.demands, List.forall_mem_append, List.forall_mem_singleton] at hmet
  obtain ⟨warp, hproper⟩ := hr.proper
  have hscope : ∀ n ∈ delta.nodes, n.ScopedIn r.arguments := fun n hn =>
    (hproper _ hchange).inScope n (List.mem_append_left _ hn)
  rw [Linked.imports_of_image himage] at hat hmet
  have hfits : delta.FitsIn (r.scope c) := ⟨hmet.1, hscope, hescapes⟩
  exact Linked.changesAt_of_code hfits (Linked.support_of_image himage) hmet.2 hat

namespace Session

variable {start s s' : Session} {compiler thread : Nat} {compiled : CompiledThread}

/--
**What a change of a variable writes** is the sum of the value that was read when it began and of
the change.

Take any thread that was compiled in a session, a statement that changes a variable, anywhere in one
of its routines, and any way to compute by how much, as long as its escapes have no more inputs than
the machine can count. The code of the statement stands in the code of the routine, and wherever it
stands, it reads the variable once, right before the change is computed. Then, however many ticks it
takes to compute the change, on whatever hosts and in whatever worlds, the value that was read and
the value of the change are added, and this sum is what the variable is set to. Nothing is read
again.
-/
theorem sums_of_compile (hstart : start.cache = {}) (hs : start.Later s)
    (hcompile : s.compile compiler thread = some (.ok compiled, s')) :
    ∃ c number script p, s.compilers[compiler]? = some c
      ∧ s.scriptOf? thread = some (number, script)
      ∧ (s.target.generate c.config script).outcome = .ok p
      ∧ ∀ own l, compiled.Has p own l → ∀ name delta, .change name delta ∈ Stmt.allNodes own.stack →
        (∀ n ∈ delta.nodes, n.EscapesFit) →
        (∃ a base, (Stmt.change name delta).PlacedAt (own.settings c.config) l.imports l.image.ops a
          base)
        ∧ ∀ a base, (Stmt.change name delta).PlacedAt (own.settings c.config) l.imports
          l.image.ops a base →
          l.ChangesAt compiled.setting a name delta.size := by
  obtain ⟨c, number, script, p, hc, hscript, hp, hmade⟩ :=
    (hs.faithful hstart).exists_madeOf hcompile
  refine ⟨c, number, script, p, hc, hscript, hp, fun own l hhas name delta hchange hescapes => ?_⟩
  obtain ⟨ref, c', r, p', hown, hr, hl⟩ := hhas.exists_denotes hmade
    (Target.generatedBy_of_generate hp) (scripts_of_scriptOf? hscript)
  -- The routine that was compiled has the same statement, since it has nothing to do with
  -- intervals.
  obtain ⟨n, hn, hsame⟩ := Routine.exists_node_of_untimed (hown.untimed hr) hchange
  obtain rfl : n = .change name delta :=
    Stmt.eq_of_untimed hsame.symm (fun _ _ _ _ h => by cases h) fun _ _ _ h => by cases h
  have himage := (Routine.compile_eq_ok hl).1
  refine ⟨?_, fun a base hplaced => Routine.changesAt_of_placedAt _ hr himage hn hescapes hplaced⟩
  obtain ⟨a, base, hplaced⟩ := Routine.exists_placedAt hl _ hn
  rw [← Linked.imports_of_image himage] at hplaced
  exact ⟨a, base, hplaced.change⟩

/-- Blocks that change a variable by what the timer reports. -/
def tallyBlocks : Arena := .ofList
  [{ opcode := "sensing_timer" },
   { opcode := "data_changevariableby", fields := [("VARIABLE", "x")],
     inputs := [("VALUE", .block 0)] }]

/-- The beginning of a session with a script of these blocks. The timer takes a poll to report
five. -/
def tally : Session where
  target := { blocks := tallyBlocks }
  scripts := [⟨"main", tallyBlocks, some 1, false⟩]
  compilers := [{}]
  host := { slow := [("sensing_timer", 1)], results := [("sensing_timer", [.number 5])] }

/-- The first tick of the thread of `tally`: it reads the variable. -/
def tallyReads (thread : CompiledThread) : List Frame × World ScriptedHost × Flow :=
  Execution.dispatch ScriptedHost.host thread.setting ⟨tally.host, false⟩ [.start thread.entry []]

/-- The second tick: it calls the timer. -/
def tallyCalls (thread : CompiledThread) : List Frame × World ScriptedHost × Flow :=
  Execution.dispatch ScriptedHost.host thread.setting (tallyReads thread).2.1 (tallyReads thread).1

/-- The third tick: the timer reports. Before that the variable has become ten. -/
def tallyPolls (thread : CompiledThread) : List Frame × World ScriptedHost × Flow :=
  Execution.dispatch ScriptedHost.host thread.setting
    ⟨(tallyCalls thread).2.1.host.assign "x" (.number 10), (tallyCalls thread).2.1.stop⟩
    (tallyCalls thread).1

/-- A change at the beginning of the thread, followed through these ticks: the variable, which is
ten by now, becomes five. -/
theorem tally_of_changesAt {thread : CompiledThread}
    (hat : thread.entry.ChangesAt thread.setting 0 "x" 1)
    (hcalls : (tallyCalls thread).1.map Frame.pc = [1])
    (hpolls : (tallyPolls thread).1.map (fun f => (f.pc, f.stack))
      = [(2, #[.number 0, .number 5])]) :
    ∃ g g' w flow, tallyPolls thread = ([g], w, flow)
      ∧ Execution.dispatch ScriptedHost.host thread.setting w [g] = ([g'], w, .next)
      ∧ Execution.dispatch ScriptedHost.host thread.setting w [g']
        = ([{ Frame.start thread.entry [] with pc := 4 }],
          w.after (ScriptedHost.host.setVariable w.host "x" (.number 5)), .next) := by
  have hlt : 1 < 1 + 1 := Nat.lt_succ_self 1
  have hold : (ScriptedHost.host.getVariable tally.host "x").answer = .number 0 := by decide +kernel
  have hreads := hat.reads (.start thread.entry []) [] rfl rfl rfl _ ScriptedHost.host
    ⟨tally.host, false⟩
  rw [hold] at hreads
  have hstays := hat.stays (.start thread.entry []) [] rfl rfl rfl (.number 0)
  obtain ⟨g₁, w₁, flow₁, hcall⟩ := (hstays _ .refl).2 hlt _ ScriptedHost.host
    (World.after ⟨tally.host, false⟩ (ScriptedHost.host.getVariable tally.host "x"))
  have hcall' : tallyCalls thread = ([g₁], w₁, flow₁) := by
    rw [tallyCalls, tallyReads, hreads]
    exact hcall
  rw [hcall', List.map_singleton, List.singleton_inj] at hcalls
  have hpasses₁ := Frame.Passes.tick _ .refl (Nat.le_refl 1) hlt hcall
  obtain ⟨g₂, w₂, flow₂, hpoll⟩ := (hstays _ hpasses₁).2 (by rw [hcalls]; exact hlt) _
    ScriptedHost.host ⟨w₁.host.assign "x" (.number 10), w₁.stop⟩
  have hpoll' : tallyPolls thread = ([g₂], w₂, flow₂) := by
    rw [tallyPolls, hcall']
    exact hpoll
  rw [hpoll', List.map_singleton, List.singleton_inj, Prod.mk.injEq] at hpolls
  have hpasses₂ := Frame.Passes.tick _ hpasses₁ (by rw [hcalls]) (by rw [hcalls]; exact hlt) hpoll
  obtain ⟨v, hg, hsum, hset⟩ := hat.sets _ [] rfl rfl rfl (.number 0) g₂ hpasses₂ hpolls.1
  have hv : v = .number 5 := by
    have hstack := congrArg Array.back? ((congrArg Frame.stack hg).symm.trans hpolls.2)
    rw [Array.back?_push] at hstack
    exact Option.some.inj hstack
  have hadd : Support.add.apply [.number 0, .number 5] = .number 5 := by decide +kernel
  rw [hv, hadd] at hsum hset
  exact ⟨g₂, _, w₂, flow₂, hpoll', hsum _ _ _, hset _ _ _⟩

/-- The thread of `tally` has read zero, and the timer has reported five. Though the variable is ten
by now, the next two ticks set it to five. -/
theorem sums_of_compile_tally :
    ∃ compiled s' p delta g g' w flow,
      (tally.newThread 0).compile 0 0 = some (.ok compiled, s')
      ∧ compiled.Has p p.entry compiled.entry ∧ .change "x" delta ∈ Stmt.allNodes p.entry.stack
      ∧ tallyPolls compiled = ([g], w, flow) ∧ w.host.vars.lookup "x" = some (.number 10)
      ∧ Execution.dispatch ScriptedHost.host compiled.setting w [g] = ([g'], w, .next)
      ∧ Execution.dispatch ScriptedHost.host compiled.setting w [g']
        = ([{ Frame.start compiled.entry [] with pc := 4 }],
          w.after (ScriptedHost.host.setVariable w.host "x" (.number 5)), .next) := by
  have hrun : (((tally.newThread 0).compile 0 0).bind fun r => r.1.toOption).map (fun compiled =>
      decide (compiled.entry.image.ops
          = [.getVariable "x", .callHost 0 0, .callSupport 0 2, .setVariable "x", .ret]
        ∧ (tallyCalls compiled).1.map Frame.pc = [1]
        ∧ (tallyPolls compiled).1.map (fun f => (f.pc, f.stack)) = [(2, #[.number 0, .number 5])]
        ∧ (tallyPolls compiled).2.1.host.vars.lookup "x" = some (.number 10))) = some true := by
    decide +kernel
  have hnodes : (tally.target.generate {} ⟨"main", tallyBlocks, some 1, false⟩).outcome.toOption.map
      (fun p => (Stmt.allNodes p.entry.stack).filterMap Stmt.changed?) = some [("x", 1)] := by
    decide +kernel
  obtain ⟨compiled, hcompiled, hrun⟩ := Option.map_eq_some_iff.mp hrun
  obtain ⟨hops, hcalls, hpolls, hvar⟩ := of_decide_eq_true hrun
  obtain ⟨⟨outcome, s'⟩, hcompile, houtcome⟩ := Option.bind_eq_some_iff.mp hcompiled
  cases eq_ok_of_toOption houtcome
  have hempty : tally.cache = {} := rfl
  obtain ⟨c, number, script, p, hc, hscript, hp, hchanges⟩ :=
    sums_of_compile hempty (.newThread 0 .refl) hcompile
  cases hc
  cases hscript
  obtain ⟨p', hp', hnodes⟩ := Option.map_eq_some_iff.mp hnodes
  cases (eq_ok_of_toOption hp').symm.trans hp
  obtain ⟨delta, hmem, hescapes, hsize⟩ :=
    Stmt.exists_change_of_mem (hnodes ▸ List.mem_singleton_self _)
  obtain ⟨⟨a, base, hplaced⟩, hall⟩ := hchanges _ _ .entry _ _ hmem hescapes
  have hat := hsize ▸ hall a base hplaced
  -- The variable is read by the first instruction only.
  obtain rfl : a = 0 := by
    have hcode := hplaced.codeAt
    rw [Stmt.code, hops] at hcode
    have hhead := hcode.head
    cases a with
    | zero => rfl
    | succ n =>
      rw [List.getElem?_cons_succ] at hhead
      exact absurd (List.mem_of_getElem? hhead) (by decide)
  obtain ⟨g, g', w, flow, hlast, hsum, hset⟩ := tally_of_changesAt hat hcalls hpolls
  rw [hlast] at hvar
  exact ⟨compiled, s', p, delta, g, g', w, flow, hcompile, .entry, hmem, hlast, hvar, hsum, hset⟩

/-- **A write that is made while a change is computed is lost.** The thread reads the variable,
which is zero, and waits for the timer. Meanwhile the variable becomes ten. When the timer has
reported five, the variable becomes five. -/
theorem overwrites_tally :
    (((tally.newThread 0).compile 0 0).bind fun compiled =>
      (compiled.2.start? 0 0).bind fun started =>
      (started.step? 100 0).bind fun first =>
      (step? { first.2 with host := first.2.host.assign "x" (.number 10) } 100 0).map fun second =>
        (first.2.host.events, second.2.host.events.take 2, second.2.host.vars.lookup "x"))
      = some ([.primitive "sensing_timer" [], .get "x"], [.set "x" (.number 5), .poll 0],
        some (.number 5))
    ∧ Support.add.apply [.number 10, .number 5] = .number 15 := by
  decide +kernel

end Session

end BlockScript
