import BlockScript.Proofs.Origins
import BlockScript.Proofs.Pieces
import BlockScript.Proofs.Safety
import BlockScript.Proofs.Untimed

/-!
# Compiled threads do not go wrong

The routines of a compiled thread may have been taken from the cache. They are sound all the same
(`CompiledThread.MadeOf.typing`): each is the image of a routine that differs from one of the
thread's own program in the intervals of its loops at most, so it calls only variants that the
thread has.

Main statement: in whatever state a compiled thread is, its next step fails for a limit only, and an
expression that is known to be a truth value has left a truth value on the stack
(`Session.limits_of_compile`).
-/

namespace BlockScript

/-! ## Routines that were compiled earlier -/

theorem Stmt.inputCount_untimed (n : Stmt) : n.untimed.inputCount = n.inputCount := by
  cases n <;> rfl

namespace Routine

variable {r r' : Routine}

/-- A routine with other intervals calls the same variants. -/
theorem calls_of_untimed (h : r.untimed = r'.untimed) {k : VariantKey} (hk : r.Calls k) :
    r'.Calls k := by
  obtain ⟨args, y, hcall⟩ := hk
  obtain ⟨n, hn, heq⟩ := exists_node_of_untimed h hcall
  have hcall : n = .call k args y :=
    Stmt.eq_of_untimed heq.symm (fun _ _ _ _ h => by cases h) (fun _ _ _ h => by cases h)
  exact ⟨args, y, hcall ▸ hn⟩

/-- A routine with other intervals has the same escapes. -/
theorem escapesFit_of_untimed (h : r.untimed = r'.untimed)
    (hfit : ∀ n ∈ Stmt.allNodes r'.stack, n.EscapesFit) :
    ∀ n ∈ Stmt.allNodes r.stack, n.EscapesFit := by
  intro n hn
  obtain ⟨n', hn', heq⟩ := exists_node_of_untimed h hn
  have hexprs : n.exprs = n'.exprs := by
    rw [← Stmt.exprs_untimed n, heq, Stmt.exprs_untimed]
  have hinputs : n.inputCount = n'.inputCount := by
    rw [← Stmt.inputCount_untimed n, heq, Stmt.inputCount_untimed]
  exact ⟨hexprs ▸ (hfit n' hn').exprs, hinputs ▸ (hfit n' hn').inputs⟩

/-- The code of a routine names only variants that the routine calls. -/
theorem calls_of_mem_procedures {c : CompilerConfig} {k : VariantKey}
    (hk : k ∈ (r.imports c).procedures) : r.Calls k := by
  have hdemand : .procedure k ∈ r.demands c := by
    obtain ⟨d, hd, heq⟩ := List.mem_filterMap.mp (List.mem_eraseDups.mp hk)
    cases d <;> cases heq
    exact hd
  exact calls_iff.mpr (Stmt.keys_allDemands_subset _ _ (Demand.mem_keys_of_procedure hdemand))

end Routine

variable {t : Target} {scripts : List Script}

namespace ScriptRef.Denotes

variable {ref : ScriptRef} {c c' : CompilerConfig} {r r' : Routine}

/-- With other settings a name refers to the same routine, apart from intervals. -/
theorem untimed (h : ref.Denotes t scripts c r) (h' : ref.Denotes t scripts c' r') :
    r.untimed = r'.untimed := by
  cases ref with
  | script n =>
    obtain ⟨script, hscript, hr⟩ := h
    obtain ⟨script', hscript', hr'⟩ := h'
    cases hscript.symm.trans hscript'
    exact Target.untimed_entryRoutine hr' hr
  | «variant» k =>
    obtain ⟨d, hd, hr⟩ := h
    obtain ⟨d', hd', hr'⟩ := h'
    cases hd.defined.symm.trans hd'.defined
    exact Target.untimed_variantRoutine hr' hr

theorem proper (h : ref.Denotes t scripts c r) :
    ∃ warp, ∀ n ∈ Stmt.allNodes r.stack, n.ProperIn t warp r.arguments := by
  cases ref with
  | script n =>
    obtain ⟨script, -, hr⟩ := h
    obtain ⟨-, hargs, -, hproper⟩ := Target.entryRoutine_eq_ok hr
    exact ⟨r.warp, hargs ▸ hproper⟩
  | «variant» k =>
    obtain ⟨d, hd, hr⟩ := h
    obtain ⟨-, hargs, -, hproper⟩ := Target.variantRoutine_eq_ok hd hr
    exact ⟨k.warp, hargs ▸ hproper⟩

/-- The shapes of arguments are canonical; no argument is known to be a number. -/
theorem shape_ne_number (h : ref.Denotes t scripts c r) :
    ∀ shape ∈ r.arguments, shape ≠ .number := by
  cases ref with
  | script n =>
    obtain ⟨script, -, hr⟩ := h
    rw [(Target.entryRoutine_eq_ok hr).2.1]
    exact fun _ hshape => by cases hshape
  | «variant» k =>
    obtain ⟨d, hd, hr⟩ := h
    rw [(Target.variantRoutine_eq_ok hd hr).2.1]
    rintro shape hshape rfl
    cases hd.canonical _ hshape

theorem arguments {k : VariantKey} (h : (ScriptRef.variant k).Denotes t scripts c r) :
    r.arguments = k.signature := by
  obtain ⟨d, hd, hr⟩ := h
  exact (Target.variantRoutine_eq_ok hd hr).2.1

end ScriptRef.Denotes

/-- A routine is sound if all that it calls is there. -/
theorem Linked.sound_of_compile {s : Setting} {ref : ScriptRef} {c : CompilerConfig} {r : Routine}
    {p : Program} {l : Linked} (hr : ref.Denotes t scripts c r)
    (hcompile : r.compile p c = .ok l.image) (hfit : ∀ n ∈ Stmt.allNodes r.stack, n.EscapesFit)
    (hcalls : ∀ k, r.Calls k → (s.variants.find? k).isSome) : l.Sound s (r.scope c) := by
  obtain ⟨warp, hproper⟩ := hr.proper
  obtain ⟨himage, hfits⟩ := Routine.fitsImage_of_compile hcompile hproper
  have hops : l.image.ops = r.code c := by rw [himage]; rfl
  have hprocedures : l.image.procedures = (r.imports c).procedures := by rw [himage]; rfl
  refine ⟨?_, ⟨_, hops⟩, Linked.support_of_image himage, by rw [himage]; rfl, hprocedures, ?_,
    hr.shape_ne_number, ?_, fun k hk => hcalls k ?_⟩
  · rw [hops]
    exact hfits.fine
  · rw [himage]
    exact Routine.toNat_locals hfits
  · intro block opcode inputs hmem
    rw [hops, Routine.code, List.mem_append] at hmem
    rcases hmem with hmem | hmem
    · exact Stmt.escapeFits_allCode hfit _ hmem
    · cases List.mem_singleton.mp hmem
  · rw [hprocedures] at hk
    exact Routine.calls_of_mem_procedures hk

/-! ## Compiled threads -/

/-- The linked routine is the image of `r` with the settings `c`, and `r` is made of what a routine
of the program is made of too, though maybe with other settings. -/
def Linked.StandsFor (t : Target) (scripts : List Script) (config : CompilerConfig) (p : Program)
    (l : Linked) (c : CompilerConfig) (r : Routine) : Prop :=
  ∃ (ref : ScriptRef) (own : Routine) (p' : Program),
    own ∈ p.routines ∧ ref.Denotes t scripts config own ∧ ref.Denotes t scripts c r
    ∧ r.compile p' c = .ok l.image

namespace CompiledThread

/-- The thread has a routine for each of the program, made at some time for what it stands for. -/
structure MadeOf (t : Target) (scripts : List Script) (number : Nat) (p : Program)
    (thread : CompiledThread) : Prop where
  entry : thread.entry.MadeFor t scripts (.script number)
  variants : List.Forall₂ (fun e v => e.1 = v.1 ∧ v.2.MadeFor t scripts (.variant e.1))
    p.procedures.entries thread.variants.entries

variable {number : Nat} {script : Script} {config : CompilerConfig} {p : Program}
  {thread : CompiledThread}

/-- The thread has the variants that the program has. -/
theorem MadeOf.isSome_find? (h : thread.MadeOf t scripts number p) {k : VariantKey}
    (hk : k ∈ p.procedures.keys) : (thread.variants.find? k).isSome := by
  obtain ⟨own, hown⟩ := Option.isSome_iff_exists.mp (VariantTable.isSome_find?_iff.mpr hk)
  obtain ⟨l, hl, -⟩ := VariantTable.exists_find?_right
    (R := fun k _ l => Linked.MadeFor t scripts (.variant k) l) h.variants hown
  rw [hl]
  rfl

theorem MadeOf.standsFor_entry (h : thread.MadeOf t scripts number p)
    (hp : p.GeneratedBy t config script) (hscript : scripts[number]? = some script) :
    ∃ c r, thread.entry.StandsFor t scripts config p c r ∧ r.arguments = [] := by
  obtain ⟨c, r, p', hr, hcompile⟩ := h.entry
  have hown : (ScriptRef.script number).Denotes t scripts config p.entry :=
    ⟨script, hscript, hp.entry⟩
  refine ⟨c, r, ⟨_, p.entry, p', List.mem_cons_self, hown, hr, hcompile⟩, ?_⟩
  obtain ⟨script', -, hr⟩ := hr
  exact (Target.entryRoutine_eq_ok hr).2.1

theorem MadeOf.standsFor_variant (h : thread.MadeOf t scripts number p)
    (hp : p.GeneratedBy t config script) {k : VariantKey} {l : Linked}
    (hl : thread.variants.find? k = some l) :
    ∃ c r, l.StandsFor t scripts config p c r ∧ r.arguments = k.signature := by
  obtain ⟨own, hown, c, r, p', hr, hcompile⟩ := VariantTable.exists_find?_left
    (R := fun k _ l => Linked.MadeFor t scripts (.variant k) l) h.variants hl
  have hmem := VariantTable.mem_of_find? hown
  have hnames : (ScriptRef.variant k).Denotes t scripts config own := hp.names k own hmem
  have hroutine : own ∈ p.routines :=
    List.mem_cons_of_mem _ (VariantTable.mem_values_iff.mpr ⟨k, hmem⟩)
  exact ⟨c, r, ⟨_, own, p', hroutine, hnames, hr, hcompile⟩, hr.arguments⟩

/-- **The routines of a compiled thread are sound**, whenever and with whatever settings each of
them was compiled. -/
def MadeOf.typing (h : thread.MadeOf t scripts number p) (hp : p.GeneratedBy t config script)
    (hfit : p.EscapesFit) : Typing thread.setting where
  Types l x := ∃ c r, l.StandsFor t scripts config p c r ∧ x = r.scope c
  sound := by
    rintro l x ⟨c, r, ⟨ref, own, p', hmem, hown, hr, hcompile⟩, rfl⟩
    have huntimed := hr.untimed hown
    refine Linked.sound_of_compile hr hcompile
      (Routine.escapesFit_of_untimed huntimed (hfit own hmem)) fun k hk => ?_
    exact h.isSome_find? (hp.called own hmem k (Routine.calls_of_untimed huntimed hk))
  variants := by
    intro k l hl
    obtain ⟨c, r, hstands, hargs⟩ := h.standsFor_variant hp hl
    exact ⟨r.scope c, ⟨c, r, hstands, rfl⟩, hargs⟩

end CompiledThread

/-! ## Expressions that are truth values -/

/-- At the end of an expression that is known to be a truth value there is a truth value on the
stack. -/
theorem Frame.Stands.exists_bool {f : Frame} {l : Linked} {x : CodeScope} {pc a : Nat}
    (h : f.Stands l x pc (x.shapesAt l.image.ops pc)) {e : Expr}
    (hat : CodeAt l.image.ops a (e.code x.imports)) (hmet : ∀ d ∈ e.demands, x.imports.Meets d)
    (hscope : ∀ n ∈ e.nodes, n.ScopedIn x.args) (hshape : e.shape = .boolean)
    (hpc : pc = a + e.size) :
    ∃ b, f.stack.back? = some (.bool b) := by
  obtain ⟨shape, hsuits, hstretch⟩ := Expr.stretch_code e hat hmet hscope rfl
  have hstack := h.stack
  rw [hpc, hstretch.after, hsuits hshape] at hstack
  obtain ⟨v, vs, ⟨b, rfl⟩, -, hvalues⟩ := List.forall₂_cons_right_iff.mp hstack
  refine ⟨b, ?_⟩
  rw [Frame.values, List.reverse_eq_cons_iff] at hvalues
  rw [← Array.getLast?_toList, hvalues, List.getLast?_concat]

/-- A sound frame that waits for nothing stands in its routine. -/
theorem Frame.Sound.exists_types {s : Setting} {T : Typing s} {f : Frame} (h : f.Sound T) :
    ∃ x, T.Types f.routine x
      ∧ (f.pending = none → f.Stands f.routine x f.pc (x.shapesAt f.routine.image.ops f.pc)) := by
  cases h with
  | ready hl stands =>
    obtain rfl := stands.routine
    obtain rfl := stands.pc
    exact ⟨_, hl, fun _ => stands⟩
  | waiting hl stands _ hpending =>
    obtain rfl := stands.routine
    refine ⟨_, hl, fun hnone => ?_⟩
    rw [hnone] at hpending
    cases hpending

/-- In the frames of a sound thread truth values are where they are expected. -/
theorem CompiledThread.MadeOf.exists_bool {number : Nat} {script : Script} {config : CompilerConfig}
    {p : Program} {thread : CompiledThread} (hmade : thread.MadeOf t scripts number p)
    (hp : p.GeneratedBy t config script) (hfit : p.EscapesFit) {f : Frame}
    (hf : f.Sound (hmade.typing hp hfit)) :
    ∃ ref c r, ScriptRef.Denotes t scripts c r ref ∧ f.routine.image = r.image c
      ∧ ∀ ex ∈ Stmt.allExprs r.stack, (∃ a, CodeAt (r.code c) a (ex.code (r.imports c)))
        ∧ ∀ a, CodeAt (r.code c) a (ex.code (r.imports c)) → f.pending = none →
          f.pc = a + ex.size → ex.shape = .boolean → ∃ b, f.stack.back? = some (.bool b) := by
  obtain ⟨x, ⟨c, r, ⟨ref, own, p', -, -, hr, hcompile⟩, rfl⟩, hstands⟩ := hf.exists_types
  have himage := (Routine.compile_eq_ok hcompile).1
  have hops : f.routine.image.ops = r.code c := by rw [himage]; rfl
  obtain ⟨warp, hproper⟩ := hr.proper
  refine ⟨ref, c, r, hr, himage, fun ex hex => ?_⟩
  have hplaced := Routine.placed_of_compile hcompile ex hex
  have hscope : ∀ n ∈ ex.nodes, n.ScopedIn r.arguments := by
    obtain ⟨n, hn, hex⟩ := List.mem_flatMap.mp hex
    exact fun m hm => (hproper n hn).inScope m (Expr.nodes_subset hex hm)
  refine ⟨hplaced.codeAt, fun a hat hpending hpc hshape => ?_⟩
  rw [← hops] at hat
  exact (hstands hpending).exists_bool hat hplaced.met hscope hshape hpc

/-! ## Sessions -/

namespace Session

variable {start s s' : Session} {compiler thread : Nat} {compiled : CompiledThread}

/-- A thread that was compiled in a session is made of the program of its script. -/
theorem Faithful.exists_madeOf (hs : s.Faithful)
    (hcompile : s.compile compiler thread = some (.ok compiled, s')) :
    ∃ c number script p, s.compilers[compiler]? = some c
      ∧ s.scriptOf? thread = some (number, script)
      ∧ (s.target.generate c.config script).outcome = .ok p
      ∧ compiled.MadeOf s.target s.scripts number p := by
  obtain ⟨c, number, script, hc, hscript, -, -, hcases⟩ := compile_cases hcompile
  rcases hcases with ⟨e, -, he, -⟩ | ⟨p, hp, houtcome, -⟩
  · cases he
  · have hmade := (Compiler.faithful_compileProgram hs (scripts_of_scriptOf? hscript)
      (Target.generatedBy_of_generate hp)).2 compiled houtcome.symm
    exact ⟨c, number, script, p, hc, hscript, hp, ⟨hmade.1, hmade.2⟩⟩

/--
**Compiled threads do not go wrong.**

Whatever happened in a session before a thread was compiled, and whatever the hosts of its steps
answer: a step of the thread fails for a limit of the machine only. In each of its frames the code
of every expression stands somewhere; where it ends, and the expression is known to be a truth
value, there is a truth value on the stack.
-/
theorem limits_of_compile (hstart : start.cache = {}) (hs : start.Later s)
    (hcompile : s.compile compiler thread = some (.ok compiled, s'))
    (hfit : ∀ c number script p, s.compilers[compiler]? = some c →
      s.scriptOf? thread = some (number, script) →
      (s.target.generate c.config script).outcome = .ok p → p.EscapesFit)
    {e : Execution} (he : (Execution.start compiled.entry).Visits compiled.setting e) :
    (∀ (σ : Type) (h : Host σ) (bound : Nat) (w w' : World σ) (e' : Execution) (err : RuntimeError),
      e.step h compiled.setting bound w = some (.failed err, w', e') → err.fault.IsLimit)
    ∧ ∀ f ∈ e.frames, ∃ ref c r, ScriptRef.Denotes s.target s.scripts c r ref
      ∧ f.routine.image = r.image c
      ∧ ∀ ex ∈ Stmt.allExprs r.stack, (∃ a, CodeAt (r.code c) a (ex.code (r.imports c)))
        ∧ ∀ a, CodeAt (r.code c) a (ex.code (r.imports c)) → f.pending = none →
          f.pc = a + ex.size → ex.shape = .boolean → ∃ b, f.stack.back? = some (.bool b) := by
  have hfaithful := hs.faithful hstart
  obtain ⟨c, number, script, p, hc, hscript, hp, hmade⟩ := hfaithful.exists_madeOf hcompile
  have hgen := Target.generatedBy_of_generate hp
  have hescapes := hfit c number script p hc hscript hp
  have hentry : (Execution.start compiled.entry).Sound (hmade.typing hgen hescapes) := by
    obtain ⟨c', r, hstands, hargs⟩ := hmade.standsFor_entry hgen (scripts_of_scriptOf? hscript)
    have htypes : (hmade.typing hgen hescapes).Types compiled.entry (r.scope c') :=
      ⟨c', r, hstands, rfl⟩
    intro f hf
    rw [List.mem_singleton.mp hf]
    refine Frame.sound_start htypes ?_
    rw [Routine.scope, hargs]
    exact .nil
  have hsound := he.sound hentry
  exact ⟨fun σ h bound w w' e' err hstep => (Execution.sound_step hsound hstep).2 err rfl,
    fun f hf => hmade.exists_bool hgen hescapes (hsound f hf)⟩

/-- The beginning of a session with the script of `Target.chorus`. -/
def chorus : Session where
  target := Target.chorus
  scripts := [Target.chorusScript]
  compilers := [{}]
  host := {}

theorem limits_of_compile_chorus :
    ∃ compiled s', (chorus.newThread 0).compile 0 0 = some (.ok compiled, s')
      ∧ ∀ w' e' err, (Execution.start compiled.entry).step ScriptedHost.host compiled.setting 1000
        ⟨chorus.host, false⟩ = some (.failed err, w', e') → err.fault.IsLimit := by
  have hok : (((chorus.newThread 0).compile 0 0).bind fun r => r.1.toOption).isSome = true := by
    decide +kernel
  have hfit : ((chorus.target.generate {} Target.chorusScript).outcome.toOption.all
      fun p => decide p.EscapesFit) = true := by decide +kernel
  obtain ⟨compiled, hcompiled⟩ := Option.isSome_iff_exists.mp hok
  obtain ⟨⟨outcome, s'⟩, hcompile, houtcome⟩ := Option.bind_eq_some_iff.mp hcompiled
  cases eq_ok_of_toOption houtcome
  refine ⟨compiled, s', hcompile, fun w' e' err hstep => ?_⟩
  have hempty : chorus.cache = {} := rfl
  refine (limits_of_compile hempty (.newThread 0 .refl) hcompile ?_ .start).1 _ _ _ _ w' e'
    err hstep
  intro c number script p hc hscript hp
  cases hc
  cases hscript
  have hp : (chorus.target.generate {} Target.chorusScript).outcome = .ok p := hp
  rw [hp] at hfit
  exact of_decide_eq_true hfit

end Session

end BlockScript
