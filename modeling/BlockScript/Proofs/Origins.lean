import BlockScript.Proofs.Codec
import BlockScript.Proofs.Variants
import BlockScript.Session

/-!
# Where compiled routines come from

Compilers share a cache, and a routine that one of them finds there may have been made by another
one, with other settings and for the program of another script. It was made of the same blocks all
the same: each routine that is kept or handed out is the image of what the target has under its
name, with some settings (`Linked.MadeFor`). This holds at the beginning, when nothing is kept, and
whatever happens in a session keeps it (`Session.Later.faithful`).
-/

namespace BlockScript

/-- With the settings `c` the routine `r` is made of the script or variant that the name refers
to. -/
def ScriptRef.Denotes (t : Target) (scripts : List Script) (c : CompilerConfig) (r : Routine) :
    ScriptRef → Prop
  | .script n => ∃ script, scripts[n]? = some script ∧ t.entryRoutine c script = .ok r
  | .variant k => ∃ d, k.Names t d ∧ t.variantRoutine c ⟨k, d⟩ = .ok r

/-- The linked routine was made of the script or variant that the name refers to. -/
def Linked.MadeFor (t : Target) (scripts : List Script) (ref : ScriptRef) (l : Linked) : Prop :=
  ∃ c r p, ref.Denotes t scripts c r ∧ r.compile p c = .ok l.image

/-- The linked routine was made with settings by which loops in warp look at the deadline, or by
which they do not. -/
def Linked.MadeWith (t : Target) (scripts : List Script) (timer : Bool) (l : Linked) : Prop :=
  ∃ ref c r p, ScriptRef.Denotes t scripts c r ref ∧ r.compile p c = .ok l.image
    ∧ c.warpTimer = timer

/-- All that is kept was made for what it is kept under. -/
def Cache.Faithful (t : Target) (scripts : List Script) (cache : Cache) : Prop :=
  ∀ ref l, cache.find? ref = some l → l.MadeFor t scripts ref

variable {t : Target} {scripts : List Script}

/-! ## The cache -/

namespace Cache

variable {cache : Cache}

theorem faithful_empty : Faithful t scripts {} := fun _ _ h => by cases h

theorem Faithful.store (h : cache.Faithful t scripts) {ref : ScriptRef} {l : Linked}
    (hl : l.MadeFor t scripts ref) : (cache.store ref l).Faithful t scripts := by
  unfold Cache.store
  split
  · exact h
  · next hnone =>
    intro ref' l' hfind
    rw [find?, List.lookup_append] at hfind
    rcases Option.or_eq_some_iff.mp hfind with hfind | ⟨-, hfind⟩
    · exact h ref' l' hfind
    · rw [List.lookup_cons] at hfind
      split at hfind
      · next heq =>
        cases hfind
        rw [eq_of_beq heq]
        exact hl
      · cases hfind

theorem Faithful.storeVariants (h : cache.Faithful t scripts)
    {variants : List (VariantKey × Linked)}
    (hl : ∀ v ∈ variants, v.2.MadeFor t scripts (.variant v.1)) :
    (cache.storeVariants variants).Faithful t scripts := by
  unfold Cache.storeVariants
  induction variants generalizing cache with
  | nil => exact h
  | cons v variants ih =>
    rw [List.forall_mem_cons] at hl
    exact ih (h.store hl.1) hl.2

end Cache

/-! ## Compilers -/

namespace Compiler

variable {c : Compiler} {cache : Cache} {p : Program} {stats stats' : Stats}

/-- A routine that is made anew is its image. -/
theorem compile_of_build {r : Routine} {l : Linked} (h : c.build p r stats = (.ok l, stats')) :
    r.compile p c.config = .ok l.image := by
  unfold build at h
  dsimp only at h
  split at h
  · cases h
  · next image himage =>
    split at h
    · cases h
    · next l' hload =>
      cases h
      rw [himage, Image.image_of_load_encode hload]

theorem madeFor_of_obtain (hcache : cache.Faithful t scripts) {ref : ScriptRef} {r : Routine}
    (hr : ref.Denotes t scripts c.config r) {l : Linked}
    (h : c.obtain cache p ref r stats = (.ok l, stats')) : l.MadeFor t scripts ref := by
  unfold obtain at h
  split at h
  · next l' hfind =>
    cases h
    exact hcache ref l hfind
  · exact ⟨c.config, r, p, hr, compile_of_build h⟩

/-- Variants are obtained one by one, in order. -/
theorem forall₂_of_obtainAll {R : VariantKey → Routine → Linked → Prop} :
    ∀ {entries : List (VariantKey × Routine)} {variants : List (VariantKey × Linked)}
      {stats stats' : Stats},
      (∀ e ∈ entries, ∀ l stats stats',
        c.obtain cache p (.variant e.1) e.2 stats = (.ok l, stats') → R e.1 e.2 l) →
      c.obtainAll cache p entries stats = (.ok variants, stats') →
      List.Forall₂ (fun e v => e.1 = v.1 ∧ R e.1 e.2 v.2) entries variants
  | [], variants, stats, stats', _, h => by
    cases h
    exact .nil
  | (key, r) :: rest, variants, stats, stats', hR, h => by
    rw [List.forall_mem_cons] at hR
    rw [obtainAll] at h
    split at h
    · cases h
    · next l stats₁ hl =>
      split at h
      · cases h
      · next linkeds stats₂ hrest =>
        cases h
        exact .cons ⟨rfl, hR.1 l _ _ hl⟩ (forall₂_of_obtainAll hR.2 hrest)

/-- **All that a compiler keeps and hands out was made for what it stands for.** -/
theorem faithful_compileProgram (hcache : cache.Faithful t scripts) {number : Nat} {script : Script}
    (hscript : scripts[number]? = some script) (hp : p.GeneratedBy t c.config script) :
    (c.compileProgram cache number p).cache.Faithful t scripts
      ∧ ∀ thread, (c.compileProgram cache number p).outcome = .ok thread →
        thread.entry.MadeFor t scripts (.script number)
          ∧ List.Forall₂ (fun e v => e.1 = v.1 ∧ v.2.MadeFor t scripts (.variant e.1))
              p.procedures.entries thread.variants.entries := by
  unfold compileProgram
  split
  · exact ⟨hcache, fun _ h => by cases h⟩
  · next entry _ hentry =>
    have hdenotes : (ScriptRef.script number).Denotes t scripts c.config p.entry :=
      ⟨script, hscript, hp.entry⟩
    have hmade := madeFor_of_obtain hcache hdenotes hentry
    split
    · exact ⟨hcache, fun _ h => by cases h⟩
    · next variants _ hvariants =>
      have hnames : ∀ e ∈ p.procedures.entries,
          (ScriptRef.variant e.1).Denotes t scripts c.config e.2 := fun e he => hp.names e.1 e.2 he
      have hall := forall₂_of_obtainAll (R := fun k _ l => l.MadeFor t scripts (.variant k))
        (fun e he l _ _ h => madeFor_of_obtain hcache (hnames e he) h) hvariants
      refine ⟨(hcache.store hmade).storeVariants fun v hv => ?_, fun thread h => ?_⟩
      · obtain ⟨e, -, hkey, hv⟩ := exists_mem_of_forall₂ hall hv
        exact hkey ▸ hv
      · cases h
        exact ⟨hmade, hall⟩

theorem faithful_compileRoutine (hcache : cache.Faithful t scripts) {ref : ScriptRef} {r : Routine}
    (hr : ref.Denotes t scripts c.config r) :
    (c.compileRoutine cache p ref r).cache.Faithful t scripts := by
  unfold compileRoutine
  split
  · exact hcache
  · next h => exact hcache.store (madeFor_of_obtain hcache hr h)

end Compiler

/-! ## Sessions -/

namespace Session

variable {s s' : Session}

/-- What compiling a thread does. -/
theorem compile_cases {compiler thread : Nat} {outcome : Except CompilerError CompiledThread}
    (h : s.compile compiler thread = some (outcome, s')) :
    ∃ c number script, s.compilers[compiler]? = some c ∧ s.scriptOf? thread = some (number, script)
      ∧ s'.target = s.target ∧ s'.scripts = s.scripts
      ∧ ((∃ e, (s.target.generate c.config script).outcome = .error e
          ∧ outcome = .error (.generation e) ∧ s'.compilers = s.compilers ∧ s'.cache = s.cache)
        ∨ ∃ p, (s.target.generate c.config script).outcome = .ok p
          ∧ outcome = (c.compileProgram s.cache number p).outcome
          ∧ s'.compilers = s.compilers.set compiler (c.compileProgram s.cache number p).compiler
          ∧ s'.cache = (c.compileProgram s.cache number p).cache) := by
  unfold compile at h
  simp only [Option.bind_eq_bind, Option.bind_eq_some_iff, Option.pure_def, Option.some.injEq,
    Prod.mk.injEq, Prod.exists] at h
  obtain ⟨c, hc, number, script, hscript, rfl, rfl⟩ := h
  refine ⟨c, number, script, hc, hscript, ?_⟩
  cases hgen : (s.target.generate c.config script).outcome with
  | error e =>
    have hcompile : s.compileScript compiler c number script
        = (.error (.generation e), (s.generate c script).2) := by
      simp only [compileScript, generate, hgen, Except.mapError]
    rw [hcompile]
    exact ⟨rfl, rfl, Or.inl ⟨e, rfl, rfl, rfl, rfl⟩⟩
  | ok p =>
    have hcompile : s.compileScript compiler c number script
        = ((c.compileProgram s.cache number p).outcome,
          (s.generate c script).2.afterCompilation compiler
          (c.compileProgram s.cache number p)) := by
      simp only [compileScript, generate, hgen, Except.mapError]
    rw [hcompile]
    exact ⟨rfl, rfl, Or.inr ⟨p, rfl, rfl, rfl, rfl⟩⟩

/-- What compiling one routine does, apart from counting. -/
theorem compileOne_cases {compiler thread : Nat} {variant : Option Nat}
    {outcome : Except CompilerError (Option (ScriptRef × Linked))}
    (h : s.compileOne compiler thread variant = some (outcome, s')) :
    ∃ c number script, s.compilers[compiler]? = some c ∧ s.scriptOf? thread = some (number, script)
      ∧ s'.target = s.target ∧ s'.scripts = s.scripts
      ∧ (s'.cache = s.cache
        ∨ ∃ p ref r, (s.target.generate c.config script).outcome = .ok p
          ∧ pickRoutine p number variant = some (ref, r)
          ∧ s'.cache = (c.compileRoutine s.cache p ref r).cache) := by
  unfold compileOne at h
  simp only [Option.bind_eq_bind, Option.bind_eq_some_iff, Option.pure_def, Prod.exists] at h
  obtain ⟨c, hc, number, script, hscript, h⟩ := h
  refine ⟨c, number, script, hc, hscript, ?_⟩
  cases hgen : (s.target.generate c.config script).outcome with
  | error e =>
    simp only [generate, hgen, Except.mapError] at h
    cases h
    exact ⟨rfl, rfl, Or.inl rfl⟩
  | ok p =>
    simp only [generate, hgen, Except.mapError] at h
    split at h
    · cases h
      exact ⟨rfl, rfl, Or.inl rfl⟩
    · next ref r hpick =>
      cases h
      exact ⟨rfl, rfl, Or.inr ⟨p, ref, r, rfl, hpick, rfl⟩⟩

theorem scripts_of_scriptOf? {thread number : Nat} {script : Script}
    (h : s.scriptOf? thread = some (number, script)) : s.scripts[number]? = some script := by
  unfold scriptOf? at h
  simp only [Option.bind_eq_some_iff, Option.map_eq_some_iff, Prod.mk.injEq] at h
  obtain ⟨t, -, script', hscript, rfl, rfl⟩ := h
  exact hscript

/-- All that the session keeps was made for what it is kept under. -/
def Faithful (s : Session) : Prop := s.cache.Faithful s.target s.scripts

theorem Faithful.compile (hs : s.Faithful) {compiler thread : Nat}
    {outcome : Except CompilerError CompiledThread}
    (h : s.compile compiler thread = some (outcome, s')) : s'.Faithful := by
  obtain ⟨c, number, script, -, hscript, htarget, hscripts, hcases⟩ := compile_cases h
  unfold Faithful
  rw [htarget, hscripts]
  rcases hcases with ⟨e, -, -, -, hcache⟩ | ⟨p, hp, -, -, hcache⟩
  · rw [hcache]
    exact hs
  · rw [hcache]
    exact (Compiler.faithful_compileProgram hs (scripts_of_scriptOf? hscript)
      (Target.generatedBy_of_generate hp)).1

theorem Faithful.compileOne (hs : s.Faithful) {compiler thread : Nat} {variant : Option Nat}
    {outcome : Except CompilerError (Option (ScriptRef × Linked))}
    (h : s.compileOne compiler thread variant = some (outcome, s')) : s'.Faithful := by
  obtain ⟨c, number, script, -, hscript, htarget, hscripts, hcases⟩ := compileOne_cases h
  unfold Faithful
  rw [htarget, hscripts]
  rcases hcases with hcache | ⟨p, ref, r, hp, hpick, hcache⟩
  · rw [hcache]
    exact hs
  · rw [hcache]
    have hp := Target.generatedBy_of_generate hp
    refine Compiler.faithful_compileRoutine hs ?_
    cases «variant» with
    | none =>
      cases hpick
      exact ⟨script, scripts_of_scriptOf? hscript, hp.entry⟩
    | some k =>
      obtain ⟨⟨key, r'⟩, hmem, heq⟩ := Option.map_eq_some_iff.mp hpick
      cases heq
      exact hp.names key r (List.mem_of_getElem? hmem)

/-- What can have become of a session. -/
inductive Later (start : Session) : Session → Prop
  | refl : Later start start
  | newThread {s : Session} (script : Nat) (before : Later start s) :
    Later start (s.newThread script)
  | compile {s s' : Session} {compiler thread : Nat} {outcome : Except CompilerError CompiledThread}
    (before : Later start s) (done : s.compile compiler thread = some (outcome, s')) :
    Later start s'
  | compileOne {s s' : Session} {compiler thread : Nat} {routine : Option Nat}
    {outcome : Except CompilerError (Option (ScriptRef × Linked))} (before : Later start s)
    (done : s.compileOne compiler thread routine = some (outcome, s')) : Later start s'
  | start {s s' : Session} {compiled thread : Nat} (before : Later start s)
    (done : s.start? compiled thread = some s') : Later start s'
  | step {s s' : Session} {bound index : Nat} {outcome : RunOutcome} (before : Later start s)
    (done : s.step? bound index = some (outcome, s')) : Later start s'
  | run {s s' : Session} {bound index yields : Nat} {outcome : RunOutcome} {kinds : List YieldKind}
    (before : Later start s) (done : s.run? bound index yields = some (outcome, kinds, s')) :
    Later start s'
  | requestStop {s : Session} (thread : Nat) (before : Later start s) :
    Later start (s.requestStop thread)

/-- **A session that begins with an empty cache stays faithful**, whatever happens in it. -/
theorem Later.faithful {start : Session} (hstart : start.cache = {}) (h : start.Later s) :
    s.Faithful := by
  induction h with
  | refl =>
    unfold Faithful
    rw [hstart]
    exact Cache.faithful_empty
  | newThread | requestStop => assumption
  | compile _ hdone ih => exact ih.compile hdone
  | compileOne _ hdone ih => exact ih.compileOne hdone
  | start _ hdone ih =>
    simp only [start?, Option.bind_eq_bind, Option.bind_eq_some_iff, Option.pure_def,
      Option.some.injEq] at hdone
    obtain ⟨-, -, -, -, rfl⟩ := hdone
    exact ih
  | step _ hdone ih =>
    simp only [step?, Option.bind_eq_bind, Option.bind_eq_some_iff, Option.pure_def,
      Option.some.injEq, Prod.mk.injEq] at hdone
    obtain ⟨-, -, -, rfl⟩ := hdone
    exact ih
  | run _ hdone ih =>
    simp only [run?, Option.bind_eq_bind, Option.bind_eq_some_iff, Option.pure_def,
      Option.some.injEq, Prod.mk.injEq] at hdone
    obtain ⟨-, -, -, -, rfl⟩ := hdone
    exact ih

end Session

end BlockScript
