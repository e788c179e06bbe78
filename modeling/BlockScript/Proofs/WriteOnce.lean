import BlockScript.Project
import BlockScript.Proofs.Origins
import BlockScript.Proofs.Verification

/-!
# What is kept stays

Compilers share what they have compiled. A compiler writes only where nothing is kept, and only if
it has all routines of a thread (`Compiler.compileProgram_cases`). It does not look at the routines
of a program for which something is kept (`Compiler.alike_compileProgram`), and it counts each
routine once, as taken or as compiled (`Compiler.countsUpTo_compileProgram`).

Main statement: whatever compilers do in a project, what is kept is kept for good, and handed out
from then on; a failure leaves no trace (`Project.writeOnce_of_compile`). A session is a project
with one target (`Session.exists_compile_project`).
-/

namespace BlockScript

/-! ## Scripts and their routines -/

/-- What a program has for a name; the script that it starts with has a number. -/
def Program.routine? (p : Program) (number : Nat) : ScriptRef → Option Routine
  | .script n => if n = number then some p.entry else none
  | .variant k => p.procedures.find? k

/-- The names for which a program has a routine, in the order in which they are compiled. -/
def Program.refs (p : Program) (number : Nat) : List ScriptRef :=
  .script number :: p.procedures.keys.map .variant

/-- What a compiled thread has for a name. -/
def CompiledThread.routine? (thread : CompiledThread) (number : Nat) : ScriptRef → Option Linked
  | .script n => if n = number then some thread.entry else none
  | .variant k => thread.variants.find? k

/-! ## The cache -/

namespace Cache

/-- A routine is written only where nothing is kept. -/
theorem find?_store (c : Cache) (ref ref' : ScriptRef) (l : Linked) :
    (c.store ref l).find? ref' = (c.find? ref').or (if ref' = ref then some l else none) := by
  unfold store
  cases hfind : c.find? ref with
  | some l' =>
    by_cases hsame : ref' = ref
    · rw [hsame, hfind, Option.some_or]
    · rw [if_neg hsame, Option.or_none]
  | none =>
    dsimp only
    rw [find?, List.lookup_append, List.lookup_cons, ← find?]
    by_cases hsame : ref' = ref
    · rw [if_pos hsame, hsame, beq_self_eq_true]
    · rw [if_neg hsame, beq_eq_false_iff_ne.mpr hsame, List.lookup_nil]

theorem find?_storeVariants (variants : List (VariantKey × Linked)) (c : Cache) (ref : ScriptRef) :
    (c.storeVariants variants).find? ref = (c.find? ref).or
      (match ref with | .script _ => none | .variant k => variants.lookup k) := by
  unfold storeVariants
  induction variants generalizing c with
  | nil => cases ref <;> exact Option.or_none.symm
  | cons v variants ih =>
    obtain ⟨key, l⟩ := v
    rw [List.foldl_cons, ih, find?_store, Option.or_assoc]
    cases ref with
    | script n => rfl
    | «variant» k =>
      dsimp only
      rw [List.lookup_cons]
      by_cases hsame : k = key
      · rw [hsame, if_pos rfl, beq_self_eq_true, Option.some_or]
      · rw [if_neg fun h => hsame (ScriptRef.variant.inj h), beq_eq_false_iff_ne.mpr hsame,
          Option.none_or]

/-- All that a thread is made of is written where nothing is kept. -/
theorem find?_storeThread (c : Cache) (thread : CompiledThread) (number : Nat) (ref : ScriptRef) :
    ((c.store (.script number) thread.entry).storeVariants thread.variants.entries).find? ref
      = (c.find? ref).or (thread.routine? number ref) := by
  rw [find?_storeVariants, find?_store, Option.or_assoc]
  cases ref with
  | script n => simp [CompiledThread.routine?]
  | «variant» k => simp [CompiledThread.routine?, VariantTable.find?]

end Cache

/-! ## Counts -/

/-- The counts have gone up by one for each name: by one taken if a routine is kept for the name, by
one compiled if not. -/
structure Stats.Counts (isKept : ScriptRef → Bool) (refs : List ScriptRef) (stats stats' : Stats) :
    Prop where
  hits : stats'.hits = stats.hits + refs.countP isKept
  compiled : stats'.compiled = stats.compiled + refs.countP fun ref => !isKept ref

namespace Stats.Counts

variable {isKept : ScriptRef → Bool} {refs refs' : List ScriptRef} {stats stats₁ stats₂ : Stats}

theorem refl : Counts isKept [] stats stats := ⟨rfl, rfl⟩

theorem trans (h : Counts isKept refs stats stats₁) (h' : Counts isKept refs' stats₁ stats₂) :
    Counts isKept (refs ++ refs') stats stats₂ := by
  constructor
  · rw [h'.hits, h.hits, List.countP_append, Nat.add_assoc]
  · rw [h'.compiled, h.compiled, List.countP_append, Nat.add_assoc]

/-- Each name counts. -/
theorem total (h : Counts isKept refs stats stats₁) :
    stats₁.hits + stats₁.compiled = stats.hits + stats.compiled + refs.length := by
  have hlength := List.length_eq_countP_add_countP isKept (l := refs)
  simp only [Bool.not_eq_true, Bool.decide_eq_false] at hlength
  rw [h.hits, h.compiled, hlength]
  omega

end Stats.Counts

/-- The counts have gone up for each name up to some place; if all is `done`, then up to the end. -/
def Stats.CountsUpTo (isKept : ScriptRef → Bool) (refs : List ScriptRef) (stats stats' : Stats)
    (done : Prop) : Prop :=
  ∃ visited, visited <+: refs ∧ Counts isKept visited stats stats' ∧ (done → visited = refs)

namespace Stats.Counts

variable {isKept : ScriptRef → Bool} {ref : ScriptRef} {stats stats₁ stats₂ : Stats}
  {done done' : Prop}

/-- What comes after the first name is not counted if that has failed. -/
theorem failed (h : Counts isKept [ref] stats stats₁) (hdone : ¬ done) (refs : List ScriptRef) :
    CountsUpTo isKept (ref :: refs) stats stats₁ done :=
  ⟨[ref], by simp, h, fun hd => absurd hd hdone⟩

theorem cons (h : Counts isKept [ref] stats stats₁) {refs : List ScriptRef}
    (hrest : CountsUpTo isKept refs stats₁ stats₂ done) (hdone : done' → done) :
    CountsUpTo isKept (ref :: refs) stats stats₂ done' := by
  obtain ⟨visited, hprefix, hcounts, hall⟩ := hrest
  exact ⟨ref :: visited, (List.prefix_cons_inj ref).mpr hprefix, h.trans hcounts,
    fun hd => by rw [hall (hdone hd)]⟩

end Stats.Counts

namespace Compiler

theorem counts_build (c : Compiler) (p : Program) (r : Routine) (stats : Stats) :
    (c.build p r stats).2.hits = stats.hits
      ∧ (c.build p r stats).2.compiled = stats.compiled + 1 := by
  unfold build
  dsimp only
  split
  · exact ⟨rfl, rfl⟩
  · split <;> exact ⟨rfl, rfl⟩

theorem counts_obtain (c : Compiler) (cache : Cache) (p : Program) (ref : ScriptRef) (r : Routine)
    (stats : Stats) :
    Stats.Counts (fun ref => (cache.find? ref).isSome) [ref] stats
      (c.obtain cache p ref r stats).2 := by
  unfold obtain
  cases hfind : cache.find? ref with
  | some l => constructor <;> simp [hfind]
  | none =>
    obtain ⟨hhits, hcompiled⟩ := c.counts_build p r stats
    constructor
    · simp [hfind, hhits]
    · simp [hfind, hcompiled]

/-- Variants are counted up to the one that fails. -/
theorem countsUpTo_obtainAll (c : Compiler) (cache : Cache) (p : Program) :
    ∀ (entries : List (VariantKey × Routine)) (stats : Stats),
      Stats.CountsUpTo (fun ref => (cache.find? ref).isSome)
        (entries.map fun e => ScriptRef.variant e.1) stats (c.obtainAll cache p entries stats).2
        (∃ variants, (c.obtainAll cache p entries stats).1 = .ok variants)
  | [], stats => ⟨[], List.prefix_rfl, .refl, fun _ => rfl⟩
  | (key, r) :: rest, stats => by
    have hone := c.counts_obtain cache p (.variant key) r stats
    rw [obtainAll, List.map_cons]
    rcases hobtain : c.obtain cache p (.variant key) r stats with ⟨_ | l, stats₁⟩
    · rw [hobtain] at hone
      exact hone.failed (by simp) _
    · rw [hobtain] at hone
      have hrest := c.countsUpTo_obtainAll cache p rest stats₁
      dsimp only
      rcases hall : c.obtainAll cache p rest stats₁ with ⟨_ | linkeds, stats₂⟩
      · rw [hall] at hrest
        exact hone.cons hrest (by simp)
      · rw [hall] at hrest
        exact hone.cons hrest fun _ => ⟨linkeds, rfl⟩

/-- **A compiler counts each routine of a program once**, up to the first that fails: as taken, if
something is kept for it, and otherwise as compiled. -/
theorem countsUpTo_compileProgram (c : Compiler) (cache : Cache) (number : Nat) (p : Program) :
    Stats.CountsUpTo (fun ref => (cache.find? ref).isSome) (p.refs number) c.stats
      (c.compileProgram cache number p).compiler.stats
      (∃ thread, (c.compileProgram cache number p).outcome = .ok thread) := by
  have hone := c.counts_obtain cache p (.script number) p.entry c.stats
  rw [compileProgram, Program.refs]
  rcases hobtain : c.obtain cache p (.script number) p.entry c.stats with ⟨_ | entry, stats₁⟩
  · rw [hobtain] at hone
    exact hone.failed (by simp) _
  · rw [hobtain] at hone
    have hrest := c.countsUpTo_obtainAll cache p p.procedures.entries stats₁
    rw [VariantTable.keys, List.map_map]
    dsimp only
    rcases hall : c.obtainAll cache p p.procedures.entries stats₁ with ⟨_ | variants, stats₂⟩
    · rw [hall] at hrest
      exact hone.cons hrest (by simp)
    · rw [hall] at hrest
      exact hone.cons hrest fun _ => ⟨variants, rfl⟩

/-- The counts are all that a compiler changes of itself. -/
theorem compiler_compileProgram (c : Compiler) (cache : Cache) (number : Nat) (p : Program) :
    (c.compileProgram cache number p).compiler
      = c.withStats (c.compileProgram cache number p).compiler.stats := by
  unfold compileProgram
  split
  · rfl
  · split <;> rfl

/-! ## What a compiler hands out and keeps -/

/-- What is kept is what is obtained. -/
theorem eq_of_obtain {c : Compiler} {cache : Cache} {p : Program} {ref : ScriptRef} {r : Routine}
    {stats stats' : Stats} {l : Linked} (h : c.obtain cache p ref r stats = (.ok l, stats')) :
    ∀ l', cache.find? ref = some l' → l' = l := by
  intro l' hfind
  rw [obtain, hfind] at h
  cases h
  rfl

/-- **A compiler that fails keeps nothing new. One that succeeds hands out what is kept, and keeps
exactly what else it hands out.** -/
theorem compileProgram_cases (c : Compiler) (cache : Cache) (number : Nat) (p : Program) :
    (∃ e, (c.compileProgram cache number p).outcome = .error e
        ∧ (c.compileProgram cache number p).cache = cache)
      ∨ ∃ thread, (c.compileProgram cache number p).outcome = .ok thread
        ∧ thread.variants.keys = p.procedures.keys
        ∧ (∀ ref l, thread.routine? number ref = some l → ∀ l', cache.find? ref = some l' → l' = l)
        ∧ ∀ ref, (c.compileProgram cache number p).cache.find? ref
          = (cache.find? ref).or (thread.routine? number ref) := by
  rw [compileProgram]
  rcases hentry : c.obtain cache p (.script number) p.entry c.stats with ⟨e | entry, stats₁⟩
  · exact Or.inl ⟨e, rfl, rfl⟩
  dsimp only
  rcases hvariants : c.obtainAll cache p p.procedures.entries stats₁ with ⟨e | variants, stats₂⟩
  · exact Or.inl ⟨e, rfl, rfl⟩
  have hall := forall₂_of_obtainAll
    (R := fun k _ l => ∀ l', cache.find? (.variant k) = some l' → l' = l)
    (fun _ _ _ _ _ h => eq_of_obtain h) hvariants
  refine Or.inr ⟨_, rfl, ?_, fun ref l hl => ?_,
    Cache.find?_storeThread cache ⟨entry, ⟨variants⟩, c.limits⟩ number⟩
  · exact (VariantTable.keys_eq_of_forall₂ (u := ⟨variants⟩) (hall.imp fun _ _ h => h.1)).symm
  · cases ref with
    | script n =>
      rw [CompiledThread.routine?] at hl
      split at hl
      · next hn =>
        cases hl
        rw [hn]
        exact eq_of_obtain hentry
      · cases hl
    | «variant» k =>
      obtain ⟨e, -, hkey, hkept⟩ := exists_mem_of_forall₂ hall (VariantTable.mem_of_find? hl)
      rw [hkey] at hkept
      exact hkept

/-- What is kept stays. -/
theorem find?_compileProgram (c : Compiler) {cache : Cache} (number : Nat) (p : Program)
    {ref : ScriptRef} {l : Linked} (h : cache.find? ref = some l) :
    (c.compileProgram cache number p).cache.find? ref = some l := by
  rcases c.compileProgram_cases cache number p with ⟨e, -, hcache⟩ | ⟨thread, -, -, -, hcache⟩
  · rw [hcache]
    exact h
  · rw [hcache, h, Option.some_or]

end Compiler

/-! ## What a compiler does not look at -/

section

variable {p p' : Program}

/-- What is demanded of a program is that it has variants. -/
theorem Demand.failure?_congr (hkeys : p'.procedures.keys = p.procedures.keys) (d : Demand)
    (name : String) (i : Imports) : d.failure? name p' i = d.failure? name p i := by
  cases d with
  | «variant» key =>
    have hsome : (p'.procedures.find? key).isSome = (p.procedures.find? key).isSome := by
      rw [Bool.eq_iff_iff, VariantTable.isSome_find?_iff, VariantTable.isSome_find?_iff, hkeys]
    rw [failure?, failure?, hsome]
  | support | host | procedure | arguments | slot | forward | backward => rfl

theorem Routine.compile_congr (hkeys : p'.procedures.keys = p.procedures.keys) (r : Routine)
    (config : CompilerConfig) : r.compile p' config = r.compile p config := by
  have hfailure : Demand.failure? r.label p' (r.imports config)
      = Demand.failure? r.label p (r.imports config) :=
    funext fun d => d.failure?_congr hkeys _ _
  rw [compile_eq, compile_eq, compileError?, compileError?, hfailure]

/-- The compilations gave the same, and the same is kept after them. -/
structure Compilation.Alike {α : Type} (r' r : Compilation α) : Prop where
  outcome : r'.outcome = r.outcome
  compiler : r'.compiler = r.compiler
  kept : ∀ ref, r'.cache.find? ref = r.cache.find? ref

namespace Compiler

variable {c : Compiler} {cache cache' : Cache}

theorem obtain_congr (hkeys : p'.procedures.keys = p.procedures.keys) {ref : ScriptRef}
    (hcache : cache'.find? ref = cache.find? ref) {r r' : Routine}
    (hr : cache.find? ref = none → r' = r) (stats : Stats) :
    c.obtain cache' p' ref r' stats = c.obtain cache p ref r stats := by
  rw [obtain, obtain, hcache]
  cases hfind : cache.find? ref with
  | some l => rfl
  | none =>
    dsimp only
    rw [hr hfind, build, build, Routine.compile_congr hkeys]

theorem obtainAll_congr (hkeys : p'.procedures.keys = p.procedures.keys)
    (hcache : ∀ ref, cache'.find? ref = cache.find? ref)
    {entries entries' : List (VariantKey × Routine)}
    (h : List.Forall₂ (fun e' e => e'.1 = e.1 ∧ (cache.find? (.variant e.1) = none → e'.2 = e.2))
      entries' entries) (stats : Stats) :
    c.obtainAll cache' p' entries' stats = c.obtainAll cache p entries stats := by
  induction h generalizing stats with
  | nil => rfl
  | @cons e' e _ _ he _ ih =>
    obtain ⟨key', r'⟩ := e'
    obtain ⟨key, r⟩ := e
    obtain ⟨rfl, hr⟩ := he
    rw [obtainAll, obtainAll, obtain_congr hkeys (hcache _) hr]
    simp only [ih]

/-- **A compiler does not look at routines for which something is kept.** If two programs differ in
such routines only, then compiling them does the same. -/
theorem alike_compileProgram (hcache : ∀ ref, cache'.find? ref = cache.find? ref)
    (hkeys : p'.procedures.keys = p.procedures.keys) (hnodup : p.procedures.keys.Nodup)
    {number : Nat}
    (hsame : ∀ ref, cache.find? ref = none → p'.routine? number ref = p.routine? number ref) :
    (c.compileProgram cache' number p').Alike (c.compileProgram cache number p) := by
  have hentry : c.obtain cache' p' (.script number) p'.entry c.stats
      = c.obtain cache p (.script number) p.entry c.stats := by
    refine obtain_congr hkeys (hcache _) (fun hnone => ?_) _
    simpa [Program.routine?] using hsame _ hnone
  have hvariants := obtainAll_congr (c := c) hkeys hcache
    ((VariantTable.forall₂_of_keys_eq hkeys hnodup).imp fun _ _ he =>
      ⟨he.1, fun hnone => he.2 (hsame _ hnone)⟩)
  rw [compileProgram, compileProgram, hentry]
  rcases c.obtain cache p (.script number) p.entry c.stats with ⟨e | entry, stats₁⟩
  · exact ⟨rfl, rfl, hcache⟩
  dsimp only
  rw [hvariants]
  rcases c.obtainAll cache p p.procedures.entries stats₁ with ⟨e | variants, stats₂⟩
  · exact ⟨rfl, rfl, hcache⟩
  refine ⟨rfl, rfl, fun ref => ?_⟩
  have hstore := fun k : Cache => k.find?_storeThread ⟨entry, ⟨variants⟩, c.limits⟩ number ref
  exact (hstore cache').trans (hcache ref ▸ (hstore cache).symm)

end Compiler

end

/-! ## Projects -/

/-- Leaving out entries by their keys leaves what is found under the others. -/
theorem lookup_filter_fst {α β : Type} [BEq α] [LawfulBEq α] (P : α → Bool) (a : α) :
    ∀ entries : List (α × β), (entries.filter fun e => P e.1).lookup a
      = if P a then entries.lookup a else none
  | [] => by simp
  | (b, v) :: rest => by
    have ih := lookup_filter_fst P a rest
    rw [List.filter_cons, List.lookup_cons]
    cases hab : a == b with
    | true =>
      obtain rfl := eq_of_beq hab
      cases hP : P a <;> simp [ih, hP]
    | false => cases P b <;> simp [ih, List.lookup_cons, hab]

namespace Project

variable {past q q' : Project} {compiler target number : Nat}
  {outcome : Except CompilerError CompiledThread}

/-- What is kept for a script is kept for all targets. -/
theorem kept_script (q : Project) (t n : Nat) :
    q.kept t (.script n) = q.shared.find? (.script n) := by
  rw [kept, cacheOf, Cache.find?, List.lookup_append, lookup_filter_fst,
    lookup_filter_fst fun ref : ScriptRef => !ref.isScript]
  exact Option.or_none

theorem kept_variant (q : Project) (t : Nat) (k : VariantKey) :
    q.kept t (.variant k) = (q.own t).find? (.variant k) := by
  rw [kept, cacheOf, Cache.find?, List.lookup_append, lookup_filter_fst,
    lookup_filter_fst fun ref : ScriptRef => !ref.isScript]
  exact Option.none_or

/-- Compiling for a target has an influence on what is kept for scripts, and for the variants of
this target. -/
theorem kept_afterCompilation (q : Project) (compiler target : Nat) (r : Compilation CompiledThread)
    (t : Nat) (ref : ScriptRef) :
    ((q.afterCompilation compiler target r).kept t ref = r.cache.find? ref
        ∧ q.kept t ref = q.kept target ref)
      ∨ (t ≠ target ∧ (q.afterCompilation compiler target r).kept t ref = q.kept t ref) := by
  cases ref with
  | script n =>
    rw [kept_script, kept_script, kept_script]
    exact Or.inl ⟨rfl, rfl⟩
  | «variant» k =>
    rw [kept_variant, kept_variant, kept_variant]
    by_cases ht : t = target
    · exact Or.inl ⟨by simp [afterCompilation, ht], by rw [ht]⟩
    · exact Or.inr ⟨ht, by simp [afterCompilation, ht]⟩

/-- What a call to compile a thread does. -/
theorem compile_cases (h : q.compile compiler target number = some (outcome, q')) :
    ∃ c, q.compilers[compiler]? = some c
      ∧ ((∃ e, q.generate c target number = some (.error e)
          ∧ outcome = .error (.generation e) ∧ q' = q)
        ∨ ∃ p, q.generate c target number = some (.ok p)
          ∧ outcome = (c.compileProgram (q.cacheOf target) number p).outcome
          ∧ q' = q.afterCompilation compiler target
            (c.compileProgram (q.cacheOf target) number p)) := by
  unfold compile at h
  simp only [Option.bind_eq_bind, Option.bind_eq_some_iff, Option.pure_def] at h
  obtain ⟨c, hc, g, hg, h⟩ := h
  refine ⟨c, hc, ?_⟩
  cases g with
  | error e =>
    cases h
    exact Or.inl ⟨e, hg, rfl, rfl⟩
  | ok p =>
    cases h
    exact Or.inr ⟨p, hg, rfl, rfl⟩

/-- The program that is compiled has no variant twice. -/
theorem nodup_of_generate {c : Compiler} {p : Program}
    (h : q.generate c target number = some (.ok p)) : p.procedures.keys.Nodup := by
  simp only [generate, Option.bind_eq_bind, Option.bind_eq_some_iff, Option.pure_def,
    Option.some.injEq] at h
  obtain ⟨t, -, script, -, hp⟩ := h
  exact (Target.generatedBy_of_generate hp).nodup

/-- **A call that fails changes nothing of what is kept.** -/
theorem kept_of_error (h : q.compile compiler target number = some (outcome, q'))
    {e : CompilerError} (he : outcome = .error e) (t : Nat) (ref : ScriptRef) :
    q'.kept t ref = q.kept t ref := by
  obtain ⟨c, -, ⟨-, -, -, rfl⟩ | ⟨p, -, rfl, rfl⟩⟩ := compile_cases h
  · rfl
  rcases c.compileProgram_cases (q.cacheOf target) number p with ⟨e', -, hcache⟩ | ⟨thread, hok, -⟩
  · rcases q.kept_afterCompilation compiler target
      (c.compileProgram (q.cacheOf target) number p) t ref with ⟨hkept, hsame⟩ | ⟨-, hkept⟩
    · rw [hkept, hcache, hsame, kept]
    · exact hkept
  · rw [hok] at he
    cases he

/-- What a call that succeeds does. -/
theorem exists_of_ok (h : q.compile compiler target number = some (outcome, q'))
    {thread : CompiledThread} (hok : outcome = .ok thread) :
    ∃ r : Compilation CompiledThread, q' = q.afterCompilation compiler target r
      ∧ (∀ ref l, thread.routine? number ref = some l → ∀ l', q.kept target ref = some l' → l' = l)
      ∧ ∀ ref, r.cache.find? ref = (q.kept target ref).or (thread.routine? number ref) := by
  obtain ⟨c, -, ⟨e, -, rfl, -⟩ | ⟨p, -, rfl, rfl⟩⟩ := compile_cases h
  · cases hok
  rcases c.compileProgram_cases (q.cacheOf target) number p
    with ⟨e, he, -⟩ | ⟨thread', hok', -, hsame, hcache⟩
  · rw [he] at hok
    cases hok
  · cases hok'.symm.trans hok
    exact ⟨_, rfl, hsame, hcache⟩

/-- **A call that succeeds hands out what is kept**, and what it hands out is kept from then on. -/
theorem kept_of_ok (h : q.compile compiler target number = some (outcome, q'))
    {thread : CompiledThread} (hok : outcome = .ok thread) {ref : ScriptRef} {l : Linked}
    (hl : thread.routine? number ref = some l) :
    q'.kept target ref = some l ∧ ∀ l', q.kept target ref = some l' → l' = l := by
  obtain ⟨r, rfl, hsame, hcache⟩ := exists_of_ok h hok
  have hsame := hsame ref l hl
  refine ⟨?_, hsame⟩
  rcases q.kept_afterCompilation compiler target r target ref with ⟨hkept, -⟩ | ⟨hne, -⟩
  · rw [hkept, hcache, hl]
    cases hfind : q.kept target ref with
    | none => rfl
    | some l' => rw [hsame l' hfind, Option.some_or]
  · exact absurd rfl hne

/-- **What is kept before a call is kept after it.** -/
theorem kept_of_compile (h : q.compile compiler target number = some (outcome, q')) {t : Nat}
    {ref : ScriptRef} {l : Linked} (hl : q.kept t ref = some l) : q'.kept t ref = some l := by
  obtain ⟨c, -, ⟨-, -, -, rfl⟩ | ⟨p, -, -, rfl⟩⟩ := compile_cases h
  · exact hl
  rcases q.kept_afterCompilation compiler target
    (c.compileProgram (q.cacheOf target) number p) t ref with ⟨hkept, hsame⟩ | ⟨-, hkept⟩
  · rw [hkept]
    rw [hsame] at hl
    exact c.find?_compileProgram number p hl
  · rw [hkept]
    exact hl

/-- A call that succeeds keeps nothing but what it hands out and what was kept. -/
theorem kept_or_of_ok (h : q.compile compiler target number = some (outcome, q'))
    {thread : CompiledThread} (hok : outcome = .ok thread) (t : Nat) (ref : ScriptRef) :
    q'.kept t ref = q.kept t ref ∨ q'.kept t ref = thread.routine? number ref := by
  obtain ⟨r, rfl, -, hcache⟩ := exists_of_ok h hok
  rcases q.kept_afterCompilation compiler target r t ref with ⟨hkept, hsame⟩ | ⟨-, hkept⟩
  · rw [hkept, hcache, hsame]
    cases q.kept target ref with
    | none => exact Or.inr Option.none_or
    | some l => exact Or.inl Option.some_or
  · exact Or.inl hkept

/-- What can have become of a project after some calls, each by one of its compilers, for a thread
of one of its targets. -/
inductive Later (past : Project) : Project → Prop
  | refl : Later past past
  | compile {q q' : Project} {compiler target number : Nat}
    {outcome : Except CompilerError CompiledThread} (before : Later past q)
    (done : q.compile compiler target number = some (outcome, q')) : Later past q'

theorem Later.kept (h : past.Later q) {t : Nat} {ref : ScriptRef} {l : Linked}
    (hl : past.kept t ref = some l) : q.kept t ref = some l := by
  induction h with
  | refl => exact hl
  | compile _ hdone ih => exact kept_of_compile hdone ih

/-- A call that gave `outcome` has written only where nothing was kept, neither before it nor at
some time in the past. -/
structure WroteOnce (past q q' : Project) (target number : Nat)
    (outcome : Except CompilerError CompiledThread) : Prop where
  /-- What was kept in the past is kept for good. -/
  stays : ∀ t ref l, past.kept t ref = some l → q.kept t ref = some l ∧ q'.kept t ref = some l
  /-- What is kept for a script is kept for the threads of all targets. -/
  shared : ∀ t t' n, q'.kept t (.script n) = q'.kept t' (.script n)
  /-- A failure leaves no trace. -/
  failed : ∀ e, outcome = .error e → ∀ t ref, q'.kept t ref = q.kept t ref
  /-- What is handed out is kept, and is what was kept in the past. -/
  handed : ∀ thread, outcome = .ok thread → ∀ ref l, thread.routine? number ref = some l →
    q'.kept target ref = some l ∧ ∀ l', past.kept target ref = some l' → l' = l
  /-- Nothing else is kept than what was kept before or is handed out. -/
  others : ∀ thread, outcome = .ok thread → ∀ t ref,
    q'.kept t ref = q.kept t ref ∨ q'.kept t ref = thread.routine? number ref

/-- A compiler whose counts are now `stats` has compiled a program and spared itself the routines
that were kept in the past. -/
structure Spared (past q : Project) (target number : Nat) (c : Compiler) (stats : Stats)
    (p : Program) (outcome : Except CompilerError CompiledThread) : Prop where
  /-- It has not looked at them: all would be the same with others in their place. -/
  unseen : ∀ p', p'.procedures.keys = p.procedures.keys →
    (∀ ref, past.kept target ref = none → p'.routine? number ref = p.routine? number ref) →
    (c.compileProgram (q.cacheOf target) number p').Alike
      (c.compileProgram (q.cacheOf target) number p)
  /-- It has counted each routine once up to the first that failed: as taken if it was kept before
  the call, otherwise as compiled. -/
  counted : Stats.CountsUpTo (fun ref => (q.kept target ref).isSome) (p.refs number) c.stats stats
    (∃ thread, outcome = .ok thread)
  /-- It has handed out a routine for each variant of the program. -/
  keys : ∀ thread, outcome = .ok thread → thread.variants.keys = p.procedures.keys

theorem Later.spared (h : past.Later q) {c : Compiler} {p : Program}
    (hp : q.generate c target number = some (.ok p)) :
    Spared past q target number c (c.compileProgram (q.cacheOf target) number p).compiler.stats p
      (c.compileProgram (q.cacheOf target) number p).outcome where
  unseen p' hkeys hsame := by
    refine Compiler.alike_compileProgram (fun _ => rfl) hkeys (nodup_of_generate hp)
      fun ref hnone => ?_
    refine hsame ref (Option.eq_none_iff_forall_not_mem.mpr fun l hl => ?_)
    have hkept : (q.cacheOf target).find? ref = some l := h.kept hl
    rw [hnone] at hkept
    cases hkept
  counted := c.countsUpTo_compileProgram (q.cacheOf target) number p
  keys thread hok := by
    rcases c.compileProgram_cases (q.cacheOf target) number p with
      ⟨e, he, -⟩ | ⟨thread', hok', hkeys, -⟩
    · rw [he] at hok
      cases hok
    · cases hok'.symm.trans hok
      exact hkeys

/--
**The cache is written once, and a failure leaves no trace in it.**

Take a project at some time in the past and at a later time, with any calls in between, by any of
its compilers and for threads of any of its targets, and then one more call. What was kept in the
past is kept for good, and the call hands it out. If the call fails, then nothing has changed; if it
succeeds, then what it has handed out is kept, and nothing else is new. The compiler has not looked
at the routines for which something was kept, and if it has succeeded, then it has counted each
routine of the thread once.
-/
theorem writeOnce_of_compile (hpast : past.Later q)
    (hcompile : q.compile compiler target number = some (outcome, q')) :
    WroteOnce past q q' target number outcome
      ∧ ∃ c stats, q.compilers[compiler]? = some c
        ∧ q'.compilers = q.compilers.set compiler (c.withStats stats)
        ∧ (∀ thread, outcome = .ok thread → stats.hits + stats.compiled
          = c.stats.hits + c.stats.compiled + (1 + thread.variants.keys.length))
        ∧ ((∃ e, q.generate c target number = some (.error e) ∧ stats = c.stats)
          ∨ ∃ p, q.generate c target number = some (.ok p)
            ∧ Spared past q target number c stats p outcome) := by
  refine ⟨⟨fun t ref l hl => ⟨hpast.kept hl, kept_of_compile hcompile (hpast.kept hl)⟩,
    fun t t' n => by rw [kept_script, kept_script], fun e he => kept_of_error hcompile he,
    fun thread hok ref l hl => ?_, fun thread hok => kept_or_of_ok hcompile hok⟩, ?_⟩
  · obtain ⟨hkept, hsame⟩ := kept_of_ok hcompile hok hl
    exact ⟨hkept, fun l' hl' => hsame l' (hpast.kept hl')⟩
  obtain ⟨c, hc, ⟨e, he, rfl, rfl⟩ | ⟨p, hp, rfl, rfl⟩⟩ := compile_cases hcompile
  · refine ⟨c, c.stats, hc, ?_, fun _ hok => (by cases hok), Or.inl ⟨e, he, rfl⟩⟩
    obtain ⟨hlt, rfl⟩ := List.getElem?_eq_some_iff.mp hc
    exact (List.set_getElem_self hlt).symm
  · have hspared := hpast.spared hp
    refine ⟨c, _, hc, ?_, fun thread hok => ?_, Or.inr ⟨p, hp, hspared⟩⟩
    · rw [← Compiler.compiler_compileProgram]
      rfl
    · obtain ⟨visited, -, hcounts, hall⟩ := hspared.counted
      rw [hcounts.total, hall ⟨thread, hok⟩, hspared.keys thread hok, Program.refs,
        List.length_cons, List.length_map, Nat.add_comm 1]

/-- Two targets on which `chorusScript` runs, each with its own procedure of the same name, and
three compilers, of which the first one may not use the host. -/
def choir : Project where
  targets := [Target.chorus, { Target.chorus with
    procedures := [{ proccode := "sing %s", warp := true, body := some 5,
                     params := [⟨"a", "verses", .textOrNumber⟩] }] }]
  scripts := [Target.chorusScript]
  compilers := [{ capabilities := .none }, {}, { config := ⟨0, false⟩ }]

/-- The first compiler fails, since the variant speaks. When the others have compiled the script for
both targets, it is handed what they have left. -/
theorem writeOnce_of_compile_choir :
    ∃ e q₁ second q₂ third q₃ fourth q₄, choir.compile 0 0 0 = some (.error e, q₁)
      ∧ q₁.compile 1 0 0 = some (.ok second, q₂) ∧ q₂.compile 2 1 0 = some (.ok third, q₃)
      ∧ q₃.compile 0 0 0 = some (.ok fourth, q₄)
      ∧ q₄.compilers.map Compiler.stats = [⟨2, 2, 0⟩, ⟨2, 0, 0⟩, ⟨1, 1, 0⟩]
      ∧ (∀ t ref, q₁.kept t ref = choir.kept t ref)
      ∧ (∀ ref l l', second.routine? 0 ref = some l → fourth.routine? 0 ref = some l' → l = l')
      ∧ WroteOnce q₂ q₃ q₄ 0 0 (.ok fourth) := by
  have hrun : ((choir.compile 0 0 0).bind fun r₁ => (r₁.2.compile 1 0 0).bind fun r₂ =>
      (r₂.2.compile 2 1 0).bind fun r₃ => (r₃.2.compile 0 0 0).map fun r₄ =>
        (r₁.1.toOption.isSome, r₂.1.toOption.isSome, r₃.1.toOption.isSome, r₄.1.toOption.isSome,
          r₄.2.compilers.map Compiler.stats))
      = some (false, true, true, true, [⟨2, 2, 0⟩, ⟨2, 0, 0⟩, ⟨1, 1, 0⟩]) := by
    decide +kernel
  obtain ⟨⟨outcome₁, q₁⟩, h₁, hrun⟩ := Option.bind_eq_some_iff.mp hrun
  obtain ⟨⟨outcome₂, q₂⟩, h₂, hrun⟩ := Option.bind_eq_some_iff.mp hrun
  obtain ⟨⟨outcome₃, q₃⟩, h₃, hrun⟩ := Option.bind_eq_some_iff.mp hrun
  obtain ⟨⟨outcome₄, q₄⟩, h₄, hrun⟩ := Option.map_eq_some_iff.mp hrun
  simp only [Prod.mk.injEq] at hrun
  obtain ⟨hfail, hok₂, hok₃, hok₄, hstats⟩ := hrun
  rcases outcome₁ with e | _
  · rcases outcome₂ with _ | second
    · cases hok₂
    rcases outcome₃ with _ | third
    · cases hok₃
    rcases outcome₄ with _ | fourth
    · cases hok₄
    have hfirst := (writeOnce_of_compile .refl h₁).1
    have hsecond := (writeOnce_of_compile .refl h₂).1
    have hfourth := (writeOnce_of_compile (.compile .refl h₃) h₄).1
    refine ⟨e, q₁, second, q₂, third, q₃, fourth, q₄, h₁, h₂, h₃, h₄, hstats, hfirst.failed e rfl,
      fun ref l l' hl hl' => ?_, hfourth⟩
    exact (hfourth.handed fourth rfl ref l' hl').2 l (hsecond.handed second rfl ref l hl).1
  · cases hfail

end Project

/-! ## Sessions -/

namespace Session

/-- A session as a project with one target. -/
def project (s : Session) : Project where
  targets := [s.target]
  scripts := s.scripts
  compilers := s.compilers
  shared := s.cache
  own := fun _ => s.cache

theorem kept_project (s : Session) (t : Nat) (ref : ScriptRef) :
    s.project.kept t ref = s.cache.find? ref := by
  cases ref with
  | script n => rw [Project.kept_script, project]
  | «variant» k => rw [Project.kept_variant, project]

/-- **A session compiles as its project does**, with the same outcome, the same counts, and the same
routines kept. -/
theorem exists_compile_project {s s' : Session} {compiler thread : Nat}
    {outcome : Except CompilerError CompiledThread}
    (h : s.compile compiler thread = some (outcome, s')) :
    ∃ number script q, s.scriptOf? thread = some (number, script)
      ∧ s.project.compile compiler 0 number = some (outcome, q)
      ∧ q.targets = [s'.target] ∧ q.scripts = s'.scripts ∧ q.compilers = s'.compilers
      ∧ ∀ ref, q.kept 0 ref = s'.cache.find? ref := by
  obtain ⟨c, number, script, hc, hscript, htarget, hscripts, hcases⟩ := compile_cases h
  have hgenerate : s.project.generate c 0 number
      = some (s.target.generate c.config script).outcome := by
    simp [Project.generate, project, scripts_of_scriptOf? hscript]
  have hc' : s.project.compilers[compiler]? = some c := hc
  rw [htarget, hscripts]
  rcases hcases with ⟨e, he, rfl, hcompilers, hcache⟩ | ⟨p, hp, rfl, hcompilers, hcache⟩
  · refine ⟨number, script, s.project, hscript, ?_, rfl, rfl, hcompilers.symm, fun ref => ?_⟩
    · simp [Project.compile, hc', hgenerate, he]
    · rw [kept_project, hcache]
  · have halike : (c.compileProgram (s.project.cacheOf 0) number p).Alike
        (c.compileProgram s.cache number p) :=
      Compiler.alike_compileProgram (s.kept_project 0) rfl
        (Target.generatedBy_of_generate hp).nodup fun _ _ => rfl
    refine ⟨number, script, s.project.afterCompilation compiler 0
      (c.compileProgram (s.project.cacheOf 0) number p), hscript, ?_, rfl, rfl, ?_, fun ref => ?_⟩
    · simp [Project.compile, hc', hgenerate, hp, halike.outcome]
    · rw [hcompilers, ← halike.compiler]
      rfl
    · rcases s.project.kept_afterCompilation compiler 0
        (c.compileProgram (s.project.cacheOf 0) number p) 0 ref with ⟨hkept, -⟩ | ⟨hne, -⟩
      · rw [hkept, hcache, halike.kept]
      · exact absurd rfl hne

end Session

end BlockScript
