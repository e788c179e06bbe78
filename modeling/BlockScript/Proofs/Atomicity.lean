import BlockScript.Proofs.Closure
import BlockScript.Proofs.Effects
import BlockScript.Proofs.Warp

/-!
# Routines in warp are atomic

A routine in warp calls only variants in warp, its loops do not give way after a round unless
something in them waits, and the thread does not give way before its calls. So once a routine in
warp has been entered, the frames above its callers are *steady*: their routines are in warp, they
wait for no result, and none of their instructions gives way except for a look at the deadline. An
instruction of a steady frame leaves the frames steady (`Execution.steady_dispatch`), as long as the
host has its results at once and the time is not used up.

Main statement: from the moment when a routine in warp is entered until it is left, no step gives
way (`Session.atomic_of_compile`).
-/

namespace BlockScript

variable {t : Target} {scripts : List Script}

/-! ## Routines that calls lead to -/

/-- Calls lead from one routine of the program to another one, or it is the same. -/
inductive Program.LeadsTo (p : Program) (r : Routine) : Routine → Prop where
  | refl : LeadsTo p r r
  | call {r₁ r₂ : Routine} {k : VariantKey} : LeadsTo p r r₁ → r₁.Calls k →
    p.procedures.find? k = some r₂ → LeadsTo p r r₂

theorem Program.LeadsTo.head {p : Program} {r₁ r₂ r : Routine} {k : VariantKey} (hk : r₁.Calls k)
    (hr₂ : p.procedures.find? k = some r₂) (h : p.LeadsTo r₂ r) : p.LeadsTo r₁ r := by
  induction h with
  | refl => exact .call .refl hk hr₂
  | call _ hcalls hfind ih => exact .call ih hcalls hfind

theorem Program.LeadsTo.mem_routines {p : Program} {r r' : Routine} (hr : r ∈ p.routines)
    (h : p.LeadsTo r r') : r' ∈ p.routines := by
  cases h with
  | refl => exact hr
  | call _ _ hfind =>
    exact List.mem_cons_of_mem _
      (VariantTable.mem_values_iff.mpr ⟨_, VariantTable.mem_of_find? hfind⟩)

namespace ScriptRef.Denotes

variable {ref : ScriptRef} {c c' : CompilerConfig} {r r' : Routine}

/-- The loops and calls of a routine were made with its settings, and in warp if the routine runs in
warp. -/
theorem makes (h : ref.Denotes t scripts c r) :
    ∃ x : Surroundings, x.warp = r.warp ∧ x.config = c
      ∧ ∀ n ∈ Stmt.allNodes r.stack, x.Makes n := by
  cases ref with
  | script n =>
    obtain ⟨script, -, hr⟩ := h
    unfold Target.entryRoutine at hr
    split at hr
    · cases hr
    · obtain ⟨hscript, hmakes⟩ := Target.makes_of_routineOf hr
      exact ⟨_, by rw [Routine.warp, hscript], rfl, hmakes⟩
  | «variant» k =>
    obtain ⟨d, -, hr⟩ := h
    obtain ⟨hscript, hmakes⟩ := Target.makes_of_routineOf hr
    exact ⟨_, by rw [Routine.warp, hscript, Procedure.variantScript], rfl, hmakes⟩

theorem warp_eq (h : ref.Denotes t scripts c r) (h' : ref.Denotes t scripts c' r') :
    r.warp = r'.warp :=
  congrArg (fun r => r.script.warp) (h.untimed h')

/-- With other settings the same waits. -/
theorem waitFree (h : ref.Denotes t scripts c r) (h' : ref.Denotes t scripts c' r')
    (hfree : r'.WaitFree) : r.WaitFree := by
  have hstack : Stmt.allUntimed r.stack = Stmt.allUntimed r'.stack :=
    congrArg Routine.stack (h.untimed h')
  have hwaits : Stmt.anyWaits r.stack = Stmt.anyWaits r'.stack := by
    rw [← Stmt.anyWaits_allUntimed r.stack, hstack, Stmt.anyWaits_allUntimed]
  exact Stmt.anyWaits_eq_false_iff.mp (hwaits.trans (Stmt.anyWaits_eq_false_iff.mpr hfree))

/-- **A routine in warp calls variants in warp.** -/
theorem warp_of_calls (h : ref.Denotes t scripts c r) (hwarp : r.warp = true) {k : VariantKey}
    (hk : r.Calls k) : k.warp = true := by
  obtain ⟨args, y, hcall⟩ := hk
  obtain ⟨x, hx, -, hmakes⟩ := h.makes
  obtain ⟨d, hd⟩ := hmakes _ hcall
  have hkey := (Stmt.call.inj hd).1
  rw [← hkey, VariantKey.ofCall, hx, hwarp, Bool.true_or]

end ScriptRef.Denotes

/-! ## Linked routines -/

namespace Linked

variable {l : Linked}

/-- A routine that was made for one in warp without waits gives way with looks at the deadline
only. -/
theorem checks_of_pauses {ref : ScriptRef} {config : CompilerConfig} {own : Routine}
    (hown : ref.Denotes t scripts config own) (hl : l.MadeFor t scripts ref)
    (hwarp : own.warp = true) (hfree : own.WaitFree) {op : Instr} (hop : op ∈ l.image.ops)
    (hpauses : op.pauses = true) :
    ∃ counter interval, op = .checkDeadline counter interval := by
  obtain ⟨c, r, p, hr, hcompile⟩ := hl
  have hwarp := (hr.warp_eq hown).trans hwarp
  have hfree := hr.waitFree hown hfree
  obtain ⟨x, hx, -, hmakes⟩ := hr.makes
  rw [(Routine.compile_eq_ok hcompile).1] at hop
  rcases List.mem_append.mp hop with hop | hop
  · obtain ⟨n, hn, slot, hslot⟩ := Stmt.exists_node_of_pauses_all hpauses hop
    exact x.checks_of_pauses (hx.trans hwarp) hwarp (hmakes n hn)
      (fun m hm => hfree m (Stmt.nodes_subset hn hm)) hslot
  · cases List.mem_singleton.mp hop
    cases hpauses

/-- A routine that was made without looks at the deadline has none. -/
theorem MadeWith.not_checkDeadline (hl : l.MadeWith t scripts false) (counter : UInt16)
    (interval : UInt32) : .checkDeadline counter interval ∉ l.image.ops := by
  obtain ⟨ref, c, r, p, -, hcompile, htimer⟩ := hl
  intro hop
  have hchecks := (Routine.settings_of_checkDeadline hcompile hop).2
  rw [htimer] at hchecks
  cases hchecks

end Linked

namespace CompiledThread

/-- In the thread the linked routine has the place that `own` has in the program. -/
inductive HasFor (thread : CompiledThread) (p : Program) : Routine → Linked → Prop where
  | entry : HasFor thread p p.entry thread.entry
  | variant {k : VariantKey} {own : Routine} {l : Linked} : p.procedures.find? k = some own →
    thread.variants.find? k = some l → HasFor thread p own l

variable {number : Nat} {script : Script} {config : CompilerConfig} {p : Program}
  {thread : CompiledThread} {own : Routine} {l : Linked}

theorem HasFor.mem_routines (h : thread.HasFor p own l) :
    own ∈ p.routines ∧ l ∈ thread.routines := by
  cases h with
  | entry => exact ⟨List.mem_cons_self, List.mem_cons_self⟩
  | «variant» hown hl =>
    exact ⟨List.mem_cons_of_mem _
      (VariantTable.mem_values_iff.mpr ⟨_, VariantTable.mem_of_find? hown⟩),
      List.mem_cons_of_mem _ (VariantTable.mem_values_iff.mpr ⟨_, VariantTable.mem_of_find? hl⟩)⟩

theorem MadeOf.exists_ref (h : thread.MadeOf t scripts number p)
    (hp : p.GeneratedBy t config script) (hscript : scripts[number]? = some script)
    (hl : thread.HasFor p own l) :
    ∃ ref, ScriptRef.Denotes t scripts config own ref ∧ l.MadeFor t scripts ref := by
  cases hl with
  | entry => exact ⟨.script number, ⟨script, hscript, hp.entry⟩, h.entry⟩
  | @«variant» k _ _ hown hfind =>
    obtain ⟨l', hfind', hmade⟩ := VariantTable.exists_find?_right
      (R := fun k _ l => Linked.MadeFor t scripts (.variant k) l) h.variants hown
    cases hfind.symm.trans hfind'
    exact ⟨.variant k, hp.names k own (VariantTable.mem_of_find? hown), hmade⟩

/-- What a linked routine calls has a place in the program, and calls of the program lead there. -/
theorem MadeOf.exists_callee (h : thread.MadeOf t scripts number p)
    (hp : p.GeneratedBy t config script) (hscript : scripts[number]? = some script)
    (hl : thread.HasFor p own l) {k : VariantKey} {callee : Linked} (hk : k ∈ l.image.procedures)
    (hcallee : thread.variants.find? k = some callee) :
    own.Calls k ∧ ∃ own', p.procedures.find? k = some own' ∧ thread.HasFor p own' callee := by
  obtain ⟨ref, hown, c, r, p', hr, hcompile⟩ := h.exists_ref hp hscript hl
  have hcalls : own.Calls k := by
    rw [(Routine.compile_eq_ok hcompile).1] at hk
    exact Routine.calls_of_untimed (hr.untimed hown) (Routine.calls_of_mem_procedures hk)
  have hkey := hp.called own hl.mem_routines.1 k hcalls
  obtain ⟨own', hown'⟩ := Option.isSome_iff_exists.mp (VariantTable.isSome_find?_iff.mpr hkey)
  exact ⟨hcalls, own', hown', .variant hown' hcallee⟩

end CompiledThread

/-! ## One instruction -/

variable {σ : Type}

/-- What the host answers in this state makes no thread give way: it has the results of primitives
at once, and the time is not used up, unless that is not looked at. -/
def Host.Quiet (timeless : Prop) (h : Host σ) (w : σ) : Prop :=
  (∀ name args id, (h.callPrimitive w name args).answer ≠ .pending id)
    ∧ (timeless ∨ (h.deadlineElapsed w).answer = false)

/-- The effect neither gives way nor enters a routine. -/
def Effect.stays : Effect → Bool
  | .suspend _ | .enter _ _ => false
  | .next | .nextUnlessStopped | .leave | .fail _ => true

namespace Frame

/-- The instruction did not give way: its frame waits for no result, and a routine that it has
entered is a variant that the frame's routine names. -/
structure GoesOn (s : Setting) (f : Frame) (r : Frame × World σ × Effect) : Prop where
  routine : r.1.routine = f.routine
  pending : r.1.pending = none
  effect : ∀ kind, r.2.2 ≠ .suspend kind
  enter : ∀ callee args, r.2.2 = .enter callee args →
    ∃ k ∈ f.routine.image.procedures, s.variants.find? k = some callee

variable {h : Host σ} {s : Setting} {w : World σ} {f : Frame}

/-- An instruction that does nothing but work on its frame. -/
theorem GoesOn.plain {f' : Frame} {w' : World σ} {effect : Effect}
    (hroutine : f'.routine = f.routine) (hpending : f'.pending = none)
    (hstays : effect.stays = true) : GoesOn s f (f', w', effect) := by
  refine ⟨hroutine, hpending, ?_, ?_⟩
  · rintro kind rfl
    cases hstays
  · rintro callee args rfl
    cases hstays

/-- **An instruction goes on**, unless it is one that gives way, or has to wait for the host. -/
theorem goesOn_exec (hpending : f.pending = none) (callers : List Frame) {op : Instr}
    (hprompt : ∀ name args id, (h.callPrimitive w.host name args).answer ≠ .pending id)
    (hop : op.pauses = true → (∃ counter interval, op = .checkDeadline counter interval)
      ∧ (h.deadlineElapsed w.host).answer = false) : GoesOn s f (f.exec h s callers w op) := by
  have hexec := executes_exec h s callers w f op
  generalize f.exec h s callers w op = r at hexec
  obtain ⟨f', w', effect⟩ := r
  have hexec : f.Executes h s callers w op f' effect := hexec
  cases hexec with
  | fails hat hkept => exact .plain hat.routine (hkept.trans hpending) rfl
  | waits _ _ hwaits =>
    rcases hwaits with rfl | ⟨name, args, id, hid⟩
    · obtain ⟨⟨counter, interval, heq⟩, -⟩ := hop rfl
      cases heq
    · exact absurd hid (hprompt name args id)
  | moves _ hat hkept heffect =>
    rcases heffect with rfl | rfl
    · exact .plain hat.routine (hkept.trans hpending) rfl
    · exact .plain hat.routine (hkept.trans hpending) rfl
  | asks _ _ hat hkept heffect =>
    rw [(hop rfl).2] at heffect
    subst heffect
    exact .plain hat.routine (hkept.trans hpending) rfl
  | yields =>
    obtain ⟨⟨counter, interval, heq⟩, -⟩ := hop rfl
    cases heq
  | enters hat hkept hkey hfind =>
    refine ⟨hat.routine, hkept.trans hpending, by simp, fun callee args heq => ?_⟩
    cases heq
    exact ⟨_, hkey, hfind⟩
  | leaves => exact .plain rfl hpending rfl

end Frame

/-! ## Steady frames -/

/-- The frame waits for no result, its routine is in warp, and nothing waits in any routine that
calls lead to from there. -/
structure Frame.Steady (thread : CompiledThread) (p : Program) (f : Frame) : Prop where
  pending : f.pending = none
  routine : ∃ own, thread.HasFor p own f.routine ∧ own.warp = true
    ∧ ∀ r, p.LeadsTo own r → r.WaitFree

/-- All frames above `callers` are steady. -/
def Frame.SteadyAbove (thread : CompiledThread) (p : Program)
    (callers frames : List Frame) : Prop :=
  ∃ upper, frames = upper ++ callers ∧ ∀ f ∈ upper, f.Steady thread p

/-- None of the routines of the thread looks at the deadline. -/
def CompiledThread.Timeless (t : Target) (scripts : List Script) (thread : CompiledThread) : Prop :=
  ∀ l ∈ thread.routines, l.MadeWith t scripts false

namespace Frame

variable {thread : CompiledThread} {number : Nat} {script : Script} {config : CompilerConfig}
  {p : Program} {limits : Limits} {h : Host σ} {w : World σ} {f : Frame}
  {callers frames : List Frame}

theorem SteadyAbove.cons (hf : f.Steady thread p) (hframes : SteadyAbove thread p callers frames) :
    SteadyAbove thread p callers (f :: frames) := by
  obtain ⟨upper, rfl, hupper⟩ := hframes
  exact ⟨f :: upper, rfl, List.forall_mem_cons.mpr ⟨hf, hupper⟩⟩

/-- The linked routine of a steady frame is in warp. -/
theorem Steady.warp (hmade : thread.MadeOf t scripts number p) (hp : p.GeneratedBy t config script)
    (hscript : scripts[number]? = some script) (hf : f.Steady thread p) :
    f.routine.image.warp = true := by
  obtain ⟨-, own, hown, hwarp, -⟩ := hf
  obtain ⟨ref, hdenotes, c, r, p', hr, hcompile⟩ := hmade.exists_ref hp hscript hown
  rw [(Routine.compile_eq_ok hcompile).1]
  exact (hr.warp_eq hdenotes).trans hwarp

theorem Steady.goesOn (hmade : thread.MadeOf t scripts number p)
    (hp : p.GeneratedBy t config script) (hscript : scripts[number]? = some script)
    (hf : f.Steady thread p) (hquiet : h.Quiet (thread.Timeless t scripts) w.host) {op : Instr}
    (hop : f.routine.code[f.pc]? = some op) (s : Setting) (callers : List Frame) :
    GoesOn s f (f.exec h s callers w op) := by
  obtain ⟨hpending, own, hown, hwarp, hfree⟩ := hf
  have hmem : op ∈ f.routine.image.ops := by
    rw [f.routine.code_eq, List.getElem?_toArray] at hop
    exact List.mem_of_getElem? hop
  refine goesOn_exec hpending callers hquiet.1 fun hpauses => ?_
  obtain ⟨ref, hdenotes, hl⟩ := hmade.exists_ref hp hscript hown
  obtain ⟨counter, interval, rfl⟩ :=
    Linked.checks_of_pauses hdenotes hl hwarp (hfree own .refl) hmem hpauses
  refine ⟨⟨counter, interval, rfl⟩, ?_⟩
  -- Routines that were made without looks at the deadline have no such instruction.
  rcases hquiet.2 with htimeless | hearly
  · exact absurd hmem ((htimeless _ hown.mem_routines.2).not_checkDeadline counter interval)
  · exact hearly

/-- A variant that a steady frame enters is steady. -/
theorem Steady.start (hmade : thread.MadeOf t scripts number p) (hp : p.GeneratedBy t config script)
    (hscript : scripts[number]? = some script) (hf : f.Steady thread p) {k : VariantKey}
    {callee : Linked} (hk : k ∈ f.routine.image.procedures)
    (hcallee : thread.variants.find? k = some callee) (args : List Value) :
    (Frame.start callee args).Steady thread p := by
  obtain ⟨-, own, hown, hwarp, hfree⟩ := hf
  obtain ⟨hcalls, own', hown', hhas⟩ := hmade.exists_callee hp hscript hown hk hcallee
  refine ⟨rfl, own', hhas, ?_, fun r hr => hfree r (.head hcalls hown' hr)⟩
  obtain ⟨ref, hdenotes, -⟩ := hmade.exists_ref hp hscript hown
  obtain ⟨d, -, hvariant⟩ := hp.names k own' (VariantTable.mem_of_find? hown')
  have hscript' := (Target.makes_of_routineOf hvariant).1
  rw [Routine.warp, hscript']
  exact hdenotes.warp_of_calls hwarp hcalls

end Frame

namespace Execution

variable {thread : CompiledThread} {number : Nat} {script : Script} {config : CompilerConfig}
  {p : Program} {limits : Limits} {h : Host σ} {w : World σ} {f : Frame}
  {callers frames : List Frame}

/-- **An instruction of a steady frame does not give way, and leaves the frames steady.** -/
theorem steady_dispatch (hmade : thread.MadeOf t scripts number p)
    (hp : p.GeneratedBy t config script) (hscript : scripts[number]? = some script)
    (hquiet : h.Quiet (thread.Timeless t scripts) w.host) (hf : f.Steady thread p)
    (hframes : Frame.SteadyAbove thread p callers frames) :
    Frame.SteadyAbove thread p callers (dispatch h ⟨thread.variants, limits⟩ w (f :: frames)).1
      ∧ ∀ kind, (dispatch h ⟨thread.variants, limits⟩ w (f :: frames)).2.2 ≠ .suspend kind := by
  simp only [dispatch, hf.pending]
  split
  · exact ⟨hframes.cons hf, by simp⟩
  · next op hop =>
    have hgoes := hf.goesOn hmade hp hscript hquiet hop ⟨thread.variants, limits⟩ frames
    generalize f.exec h ⟨thread.variants, limits⟩ frames w op = r at hgoes
    obtain ⟨f', w', effect⟩ := r
    have hf' : f'.Steady thread p := by
      refine ⟨hgoes.pending, ?_⟩
      rw [hgoes.routine]
      exact hf.routine
    cases effect with
    | next | fail => exact ⟨hframes.cons hf', by simp [applyEffect]⟩
    | nextUnlessStopped =>
      refine ⟨hframes.cons hf', fun kind => ?_⟩
      simp only [applyEffect, flowAfterCall]
      split <;> simp
    | suspend kind => exact absurd rfl (hgoes.effect kind)
    | enter callee args =>
      obtain ⟨k, hk, hcallee⟩ := hgoes.enter callee args rfl
      exact ⟨(hframes.cons hf').cons (hf.start hmade hp hscript hk hcallee args),
        by simp [applyEffect]⟩
    | leave =>
      refine ⟨hframes, fun kind => ?_⟩
      simp only [applyEffect]
      split <;> simp

/-- The same of a tick: a limit does not give way either. -/
theorem steady_tick (limits : Limits) (hmade : thread.MadeOf t scripts number p)
    (hp : p.GeneratedBy t config script) (hscript : scripts[number]? = some script)
    (hquiet : h.Quiet (thread.Timeless t scripts) w.host) {e : Execution}
    (hsteady : Frame.SteadyAbove thread p callers e.frames) (habove : callers.length < e.depth) :
    Frame.SteadyAbove thread p callers (e.tick h ⟨thread.variants, limits⟩ w).1.frames
      ∧ ∀ kind, (e.tick h ⟨thread.variants, limits⟩ w).2.2 ≠ .suspend kind := by
  rcases tick_cases (h := h) (s := ⟨thread.variants, limits⟩) w e with
    ⟨e', fault, -, hframes, heq⟩ | ⟨e', -, hframes, heq⟩
  · rw [heq]
    exact ⟨hframes ▸ hsteady, by simp⟩
  · rw [heq]
    dsimp only
    rw [hframes]
    obtain ⟨upper, hupper, hall⟩ := hsteady
    rw [depth, hupper, List.length_append] at habove
    cases upper with
    | nil => simp at habove
    | cons f upper =>
      rw [List.forall_mem_cons] at hall
      rw [hupper]
      exact steady_dispatch hmade hp hscript hquiet hall.1 ⟨upper, rfl, hall.2⟩

/-- The states of a thread from a first one on, for as long as there are frames above `callers`.
Each tick may have a host of its own, which is quiet. -/
inductive Dwells (s : Setting) (timeless : Prop) (callers : List Frame) (start : Execution) :
    Execution → Prop where
  | start : Dwells s timeless callers start start
  | tick {σ : Type} {e : Execution} (h : Host σ) (w : World σ)
    (before : Dwells s timeless callers start e) (quiet : h.Quiet timeless w.host)
    (above : callers.length < (e.tick h s w).1.depth) :
    Dwells s timeless callers start (e.tick h s w).1

theorem Dwells.steady (hmade : thread.MadeOf t scripts number p)
    (hp : p.GeneratedBy t config script) (hscript : scripts[number]? = some script)
    {e₀ e : Execution} (hsteady : Frame.SteadyAbove thread p callers e₀.frames)
    (habove : callers.length < e₀.depth)
    (he : e₀.Dwells ⟨thread.variants, limits⟩ (thread.Timeless t scripts) callers e) :
    Frame.SteadyAbove thread p callers e.frames ∧ callers.length < e.depth := by
  induction he with
  | start => exact ⟨hsteady, habove⟩
  | tick h w _ hquiet habove ih =>
    exact ⟨(steady_tick limits hmade hp hscript hquiet ih.1 ih.2).1, habove⟩

/-- A thread that gives way in a step has left its steady frames before. -/
theorem left_of_run (hmade : thread.MadeOf t scripts number p) (hp : p.GeneratedBy t config script)
    (hscript : scripts[number]? = some script) {P : World σ → Prop} (hP : h.Keeps P)
    (hquiet : ∀ w, P w → h.Quiet (thread.Timeless t scripts) w.host) :
    ∀ (bound : Nat) {w w' : World σ} {e e' : Execution} {kind : YieldKind}, P w →
      Frame.SteadyAbove thread p callers e.frames → callers.length < e.depth →
      e.run h ⟨thread.variants, limits⟩ bound w = some (.yielded kind, w', e') →
      ∃ (m : Nat) (w₁ : World σ) (e₁ : Execution), m < bound ∧ e₁.frames = callers
        ∧ ∀ more, e.run h ⟨thread.variants, limits⟩ (m + more) w
          = e₁.run h ⟨thread.variants, limits⟩ more w₁
  | 0, _, _, _, _, _, _, _, _, hrun => by cases hrun
  | bound + 1, w, w', e, e', kind, hw, hsteady, habove, hrun => by
    obtain ⟨hsteady₁, hflow⟩ := steady_tick limits hmade hp hscript (hquiet w hw) hsteady habove
    have hw₁ := tick_keeps (s := ⟨thread.variants, limits⟩) hP hw e
    rcases htick : e.tick h ⟨thread.variants, limits⟩ w with ⟨e₁, w₁, flow⟩
    rw [htick] at hsteady₁ hflow hw₁
    have hnext := fun more => run_succ more htick
    rw [hnext] at hrun
    cases flow with
    | suspend kind' => exact absurd rfl (hflow kind')
    | finished | stopped | fail => cases hrun
    | next =>
      by_cases hlater : callers.length < e₁.depth
      · obtain ⟨m, w₂, e₂, hm, hframes, hruns⟩ :=
          left_of_run hmade hp hscript hP hquiet bound hw₁ hsteady₁ hlater hrun
        refine ⟨m + 1, w₂, e₂, by omega, hframes, fun more => ?_⟩
        rw [Nat.add_right_comm, hnext]
        exact hruns more
      · -- Nothing is left above the callers.
        obtain ⟨upper, hupper, -⟩ := hsteady₁
        rw [depth, hupper, List.length_append] at hlater
        have hempty : upper = [] := List.eq_nil_of_length_eq_zero (by omega)
        refine ⟨1, w₁, e₁, ?_, by rw [hupper, hempty, List.nil_append], fun more => ?_⟩
        · cases bound with
          | zero => cases hrun
          | succ => omega
        · rw [Nat.add_comm]
          exact hnext more

theorem run_ne_yielded {e : Execution} (he : e.frames = []) {s : Setting} {bound : Nat}
    {w w' : World σ} {e' : Execution} {kind : YieldKind} :
    e.run h s bound w ≠ some (.yielded kind, w', e') := by
  intro hrun
  cases bound with
  | zero => cases hrun
  | succ bound =>
    rcases tick_cases (h := h) (s := s) w e with ⟨e₁, fault, -, -, htick⟩ | ⟨e₁, -, -, htick⟩
    · rw [run_succ bound htick] at hrun
      cases hrun
    · rw [he] at htick
      rw [run_succ bound htick] at hrun
      cases hrun

end Execution

namespace Session

/--
**Routines in warp are atomic.**

A compiled thread has entered a routine in warp, above any callers, and nothing waits in that
routine nor in any that calls lead to from there. The host has its results at once; and either all
routines of the thread were made without looks at the deadline, or the time is never used up. Until
the routine is left, its callers stay as they are, all that is entered is in warp, and no tick gives
way. So a step that gives way has come to the callers before.
-/
theorem atomic_of_compile {start s s' : Session} {compiler thread : Nat} {compiled : CompiledThread}
    (hstart : start.cache = {}) (hs : start.Later s)
    (hcompile : s.compile compiler thread = some (.ok compiled, s')) {c : Compiler} {number : Nat}
    {script : Script} {p : Program} (hc : s.compilers[compiler]? = some c)
    (hscript : s.scriptOf? thread = some (number, script))
    (hp : (s.target.generate c.config script).outcome = .ok p) {own : Routine} {l : Linked}
    (hl : compiled.HasFor p own l) (hwarp : l.image.warp = true)
    (hfree : ∀ r, p.LeadsTo own r → r.WaitFree) {limits : Limits} {e₀ e : Execution}
    {args : List Value} {callers : List Frame} (he₀ : e₀.frames = Frame.start l args :: callers)
    (he : e₀.Dwells ⟨compiled.variants, limits⟩ (compiled.Timeless s.target s.scripts) callers e) :
    (∃ upper, upper ≠ [] ∧ e.frames = upper ++ callers ∧ ∀ f ∈ upper, f.routine.image.warp = true)
    ∧ (∀ (σ : Type) (h : Host σ) (w : World σ),
      h.Quiet (compiled.Timeless s.target s.scripts) w.host → ∀ kind,
      (e.tick h ⟨compiled.variants, limits⟩ w).2.2 ≠ .suspend kind)
    ∧ ∀ (σ : Type) (h : Host σ) (P : World σ → Prop), h.Keeps P →
      (∀ w, P w → h.Quiet (compiled.Timeless s.target s.scripts) w.host) →
      ∀ (bound : Nat) (w w' : World σ) (kind : YieldKind) (e' : Execution), P w →
        e.step h ⟨compiled.variants, limits⟩ bound w = some (.yielded kind, w', e') →
        ∃ (m : Nat) (w₁ : World σ) (e₁ : Execution), m < bound ∧ e₁.frames = callers
          ∧ ∀ more, e.run h ⟨compiled.variants, limits⟩ (m + more) w
            = e₁.run h ⟨compiled.variants, limits⟩ more w₁ := by
  obtain ⟨c', number', script', p', hc', hscript', hp', hmade⟩ :=
    (hs.faithful hstart).exists_madeOf hcompile
  cases hc.symm.trans hc'
  cases hscript.symm.trans hscript'
  cases hp.symm.trans hp'
  have hgen := Target.generatedBy_of_generate hp
  have hnumber := scripts_of_scriptOf? hscript
  have hsteady₀ : Frame.SteadyAbove compiled p callers e₀.frames := by
    obtain ⟨ref, hdenotes, c'', r, p'', hr, hcompile⟩ := hmade.exists_ref hgen hnumber hl
    rw [(Routine.compile_eq_ok hcompile).1] at hwarp
    rw [he₀]
    exact Frame.SteadyAbove.cons ⟨rfl, own, hl, (hdenotes.warp_eq hr).trans hwarp, hfree⟩
      ⟨[], rfl, fun _ hf => by cases hf⟩
  have habove₀ : callers.length < e₀.depth := by
    rw [Execution.depth, he₀]
    exact Nat.lt_succ_self _
  obtain ⟨hsteady, habove⟩ := he.steady hmade hgen hnumber hsteady₀ habove₀
  refine ⟨?_,
    fun σ h w hquiet => (Execution.steady_tick limits hmade hgen hnumber hquiet hsteady habove).2,
    fun σ h P hP hquiet bound w w' kind e' hw hstep => ?_⟩
  · obtain ⟨upper, hupper, hall⟩ := hsteady
    refine ⟨upper, ?_, hupper, fun f hf => (hall f hf).warp hmade hgen hnumber⟩
    rintro rfl
    rw [Execution.depth, hupper, List.nil_append] at habove
    exact absurd habove (Nat.lt_irrefl _)
  · unfold Execution.step at hstep
    split_ifs at hstep
    · cases hstep
    · cases hstep
    · cases hstep
    · exact Execution.left_of_run hmade hgen hnumber hP hquiet bound hw hsteady habove hstep

end Session

/-- A scripted host that takes no time for any call stays so, and the time is not used up. -/
theorem ScriptedHost.keeps_quiet :
    host.Keeps fun w => w.host.slow = [] ∧ w.host.deadlines = [] := by
  have htake : ∀ (x : ScriptedHost) (name : String), (x.takeResult name).2.slow = x.slow
      ∧ (x.takeResult name).2.deadlines = x.deadlines := by
    intro x name
    unfold takeResult
    split <;> exact ⟨rfl, rfl⟩
  constructor
  case callPrimitive =>
    rintro w name args ⟨hslow, hdeadlines⟩
    simp only [World.after, host, callPrimitive, hslow, List.lookup_nil, htake]
    exact ⟨hslow, hdeadlines⟩
  case poll =>
    rintro w id hw
    simp only [World.after, host, poll]
    split
    · split <;> exact hw
    · exact hw
  case evaluate =>
    rintro w block opcode inputs hw
    simp only [World.after, host, evaluate, htake]
    exact hw
  case deadlineElapsed =>
    rintro w ⟨hslow, hdeadlines⟩
    simp only [World.after, host, deadlineElapsed, takeDeadline, takeNext, hdeadlines]
    exact ⟨hslow, hdeadlines⟩
  all_goals
    intro w
    intros
    assumption

theorem ScriptedHost.quiet {x : ScriptedHost} (hslow : x.slow = []) (hdeadlines : x.deadlines = [])
    (timeless : Prop) : host.Quiet timeless x := by
  refine ⟨fun name args id => ?_, Or.inr ?_⟩
  · simp [host, callPrimitive, hslow]
  · simp [host, deadlineElapsed, takeDeadline, takeNext, hdeadlines]

namespace Session

/-- The script of `chorus` in warp. It calls a variant that has a loop in it. -/
def rush : Session := { chorus with scripts := [{ Target.chorusScript with warp := true }] }

theorem atomic_of_compile_rush :
    ∃ compiled s', (rush.newThread 0).compile 0 0 = some (.ok compiled, s')
      ∧ compiled.entry.image.warp = true
      ∧ ((Execution.start compiled.entry).step ScriptedHost.host compiled.setting 1000
        ⟨{}, false⟩).map Prod.fst = some .finished
      ∧ ∀ limits bound w' e' kind, (Execution.start compiled.entry).step ScriptedHost.host
        ⟨compiled.variants, limits⟩ bound ⟨{}, false⟩ ≠ some (.yielded kind, w', e') := by
  have hrun : (((rush.newThread 0).compile 0 0).bind fun r => r.1.toOption.map fun compiled =>
      (compiled.entry.image.warp, ((Execution.start compiled.entry).step ScriptedHost.host
        compiled.setting 1000 ⟨{}, false⟩).map Prod.fst)) = some (true, some .finished) := by
    decide +kernel
  have hgen :
      ((rush.target.generate {} { Target.chorusScript with warp := true }).outcome.toOption.map
      fun p => p.routines.all fun r => !Stmt.anyWaits r.stack) = some true := by
    decide +kernel
  obtain ⟨⟨outcome, s'⟩, hcompile, hcompiled⟩ := Option.bind_eq_some_iff.mp hrun
  obtain ⟨compiled, houtcome, hfinished⟩ := Option.map_eq_some_iff.mp hcompiled
  cases eq_ok_of_toOption houtcome
  obtain ⟨hwarp, hfinished⟩ := Prod.mk.inj hfinished
  obtain ⟨p, hp, hwaits⟩ := Option.map_eq_some_iff.mp hgen
  have hp := eq_ok_of_toOption hp
  have hfree : ∀ r, p.LeadsTo p.entry r → r.WaitFree := by
    intro r hr
    have hr := List.all_eq_true.mp hwaits r (hr.mem_routines List.mem_cons_self)
    rw [Bool.not_eq_true'] at hr
    exact Stmt.anyWaits_eq_false_iff.mp hr
  refine ⟨compiled, s', hcompile, hwarp, hfinished, fun limits bound w' e' kind hstep => ?_⟩
  have hempty : rush.cache = {} := rfl
  have hframes₀ : (Execution.start compiled.entry).frames = [Frame.start compiled.entry []] := rfl
  have hatomic :=
    atomic_of_compile hempty (.newThread 0 .refl) hcompile rfl rfl hp .entry hwarp hfree
    hframes₀ (.start : Execution.Dwells ⟨compiled.variants, limits⟩ _ _ _ _)
  obtain ⟨m, w₁, e₁, hm, hframes, hruns⟩ := hatomic.2.2 _ ScriptedHost.host _
    ScriptedHost.keeps_quiet (fun w hw => ScriptedHost.quiet hw.1 hw.2 _) bound _ w' kind e'
    ⟨rfl, rfl⟩ hstep
  have hstep : (Execution.start compiled.entry).run ScriptedHost.host ⟨compiled.variants, limits⟩
      (m + (bound - m)) ⟨{}, false⟩ = some (.yielded kind, w', e') := by
    rw [Nat.add_sub_cancel' (Nat.le_of_lt hm)]
    exact hstep
  rw [hruns] at hstep
  exact Execution.run_ne_yielded hframes hstep

end Session

end BlockScript
