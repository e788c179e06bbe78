import BlockScript.Proofs.Threads

/-!
# Compiled threads have all the variants that they call

The table of variants of a compiled thread has the keys of the program that was just put together.
The routines in it may be older: each may have been compiled for another program and with other
settings. It calls the same variants all the same, because it was made of the same blocks, and
settings have no influence on which variants are called (`CompiledThread.MadeOf.calls`).

Main statement: a compiled thread is closed, whatever happened in its session before
(`Session.closed_of_compile`).
-/

namespace BlockScript

variable {t : Target} {scripts : List Script}

/-- The routine has the name, the number of arguments and the warp of the variant. -/
structure Image.HeadedBy (i : Image) (k : VariantKey) : Prop where
  name : i.name = k.text
  arity : i.arity.toNat = k.signature.length
  warp : i.warp = k.warp

/-- What was made for a variant at some time has its heading. -/
theorem Linked.MadeFor.headedBy {k : VariantKey} {l : Linked}
    (h : l.MadeFor t scripts (.variant k)) : l.image.HeadedBy k := by
  obtain ⟨c, r, p, ⟨d, hd, hr⟩, hcompile⟩ := h
  obtain ⟨hscript, hargs, -, -⟩ := Target.variantRoutine_eq_ok hd hr
  obtain ⟨himage, hfew, -⟩ := Routine.compile_eq_ok hcompile
  rw [himage]
  refine ⟨?_, ?_, ?_⟩
  · rw [Routine.image, Routine.label, hscript, Procedure.variantScript]
  · rw [hargs] at hfew
    rw [Routine.image, hargs, UInt16.toNat_ofNat', Nat.mod_eq_of_lt hfew]
  · rw [Routine.image, Routine.warp, hscript, Procedure.variantScript]

/-- A routine that stands for one of a program calls only what that one calls. -/
theorem Linked.StandsFor.exists_calls {config c : CompilerConfig} {p : Program} {l : Linked}
    {r : Routine} (h : l.StandsFor t scripts config p c r) :
    ∃ own ∈ p.routines, ∀ k ∈ l.image.procedures, own.Calls k := by
  obtain ⟨ref, own, p', hmem, hown, hr, hcompile⟩ := h
  refine ⟨own, hmem, fun k hk => ?_⟩
  rw [(Routine.compile_eq_ok hcompile).1] at hk
  exact Routine.calls_of_untimed (hr.untimed hown) (Routine.calls_of_mem_procedures hk)

namespace CompiledThread

/-- All routines of the thread, that of its script first. -/
def routines (thread : CompiledThread) : List Linked := thread.entry :: thread.variants.values

/-- The thread has every variant that one of its routines names, and each of its variants is what
the key says. -/
structure Closed (thread : CompiledThread) : Prop where
  calls : ∀ l ∈ thread.routines, ∀ k ∈ l.image.procedures, k ∈ thread.variants.keys
  nodup : thread.variants.keys.Nodup
  headed : ∀ k l, (k, l) ∈ thread.variants.entries → l.image.HeadedBy k

variable {number : Nat} {script : Script} {config : CompilerConfig} {p : Program}
  {thread : CompiledThread}

theorem MadeOf.keys (h : thread.MadeOf t scripts number p) :
    thread.variants.keys = p.procedures.keys :=
  (VariantTable.keys_eq_of_forall₂ (h.variants.imp fun _ _ hev => hev.1)).symm

/-- The routines of a thread call what the program calls. -/
theorem MadeOf.calls (h : thread.MadeOf t scripts number p) (hp : p.GeneratedBy t config script)
    (hscript : scripts[number]? = some script) {l : Linked} (hl : l ∈ thread.routines) :
    ∃ own ∈ p.routines, ∀ k ∈ l.image.procedures, own.Calls k := by
  rcases List.mem_cons.mp hl with rfl | hl
  · obtain ⟨c, r, hstands, -⟩ := h.standsFor_entry hp hscript
    exact hstands.exists_calls
  · obtain ⟨k, hk⟩ := VariantTable.mem_values_iff.mp hl
    have hnodup : thread.variants.keys.Nodup := h.keys ▸ hp.nodup
    obtain ⟨c, r, hstands, -⟩ :=
      h.standsFor_variant hp ((VariantTable.find?_eq_some_iff hnodup).mpr hk)
    exact hstands.exists_calls

theorem MadeOf.closed (h : thread.MadeOf t scripts number p) (hp : p.GeneratedBy t config script)
    (hscript : scripts[number]? = some script) : thread.Closed where
  calls l hl k hk := by
    obtain ⟨own, hown, hcalls⟩ := h.calls hp hscript hl
    rw [h.keys]
    exact hp.called own hown k (hcalls k hk)
  nodup := h.keys ▸ hp.nodup
  headed k l hkl := by
    obtain ⟨e, -, hkey, hmade⟩ := exists_mem_of_forall₂ h.variants hkl
    rw [hkey] at hmade
    exact hmade.headedBy

end CompiledThread

namespace Session

/--
**A compiled thread has every variant that its routines can call.**

This is so whatever happened in the session before, so also if some of the routines, or all, were
taken from the cache, where compilers with other settings and other capabilities have left them.
-/
theorem closed_of_compile {start s s' : Session} {compiler thread : Nat} {compiled : CompiledThread}
    (hstart : start.cache = {}) (hs : start.Later s)
    (hcompile : s.compile compiler thread = some (.ok compiled, s')) : compiled.Closed := by
  obtain ⟨c, number, script, p, -, hscript, hp, hmade⟩ :=
    (hs.faithful hstart).exists_madeOf hcompile
  exact hmade.closed (Target.generatedBy_of_generate hp) (scripts_of_scriptOf? hscript)

/-- Two compilers for the script of `chorus`. The second one has other settings, and may not use the
host. -/
def duet : Session :=
  { chorus with compilers := [{}, { config := ⟨0, false⟩, capabilities := .none }] }

theorem closed_of_compile_duet :
    ∃ first s₁ second s₂, (duet.newThread 0).compile 0 0 = some (.ok first, s₁)
      ∧ (s₁.newThread 0).compile 1 1 = some (.ok second, s₂)
      ∧ s₂.compilers.map Compiler.stats = [⟨2, 0, 0⟩, ⟨0, 2, 0⟩]
      ∧ second.entry.image.procedures ≠ [] ∧ second.Closed := by
  have hrun : (((duet.newThread 0).compile 0 0).bind fun r₁ => r₁.1.toOption.bind fun _ =>
      ((r₁.2.newThread 0).compile 1 1).bind fun r₂ => r₂.1.toOption.map fun second =>
        (r₂.2.compilers.map Compiler.stats, second.entry.image.procedures.isEmpty))
      = some ([⟨2, 0, 0⟩, ⟨0, 2, 0⟩], false) := by
    decide +kernel
  obtain ⟨⟨outcome₁, s₁⟩, hfirst, hrun⟩ := Option.bind_eq_some_iff.mp hrun
  obtain ⟨first, houtcome₁, hrun⟩ := Option.bind_eq_some_iff.mp hrun
  obtain ⟨⟨outcome₂, s₂⟩, hsecond, hrun⟩ := Option.bind_eq_some_iff.mp hrun
  obtain ⟨second, houtcome₂, hrun⟩ := Option.map_eq_some_iff.mp hrun
  cases eq_ok_of_toOption houtcome₁
  cases eq_ok_of_toOption houtcome₂
  obtain ⟨hstats, hprocedures⟩ := Prod.mk.inj hrun
  have hempty : duet.cache = {} := rfl
  refine ⟨first, s₁, second, s₂, hfirst, hsecond, hstats, ?_,
    closed_of_compile hempty (.newThread 0 (.compile (.newThread 0 .refl) hfirst)) hsecond⟩
  intro hnil
  rw [hnil] at hprocedures
  cases hprocedures

end Session

end BlockScript
