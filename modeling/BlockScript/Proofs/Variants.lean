import BlockScript.Proofs.Tables
import Mathlib.Data.List.Perm.Subperm
import Mathlib.Order.Bounds.Basic

/-!
# The variants of a program

A program holds the variants that its calls need, and no others. The search for them keeps a queue
of the variants asked for: those begun, then those that wait. `Target.Progress` is what holds after
every step of the search:

* each variant begun has been made from the procedure that its key names;
* each variant that a routine made so far calls has been asked for;
* each variant asked for is reached from the entry by calls.

When nothing waits any more, what has been made is closed under calls, and all of it is reached.
The number of steps is never used up, since the variants begun are distinct keys of the target.
-/

namespace BlockScript

/-! ## Calls between routines -/

/-- There is a call of the variant somewhere in the routine. -/
def Routine.Calls (r : Routine) (k : VariantKey) : Prop :=
  ∃ args y, .call k args y ∈ Stmt.allNodes r.stack

theorem Routine.calls_iff {r : Routine} {k : VariantKey} : r.Calls k ↔ k ∈ Stmt.allCalls r.stack :=
  Stmt.mem_allCalls_iff.symm

namespace Program

/-- The variant is reached from the entry by a chain of calls. -/
inductive Reaches (p : Program) : VariantKey → Prop where
  | entry {k : VariantKey} : p.entry.Calls k → Reaches p k
  | call {k l : VariantKey} {r : Routine} :
      Reaches p k → p.procedures.find? k = some r → r.Calls l → Reaches p l

/-- The keys include those that the entry calls, and those that each variant among them calls. -/
def ClosedUnderCalls (p : Program) (keys : Set VariantKey) : Prop :=
  (∀ k, p.entry.Calls k → k ∈ keys)
    ∧ ∀ k ∈ keys, ∀ r, p.procedures.find? k = some r → ∀ l, r.Calls l → l ∈ keys

/-- What is reached lies in every set of keys that is closed under calls. -/
theorem Reaches.mem {p : Program} {keys : Set VariantKey} (hkeys : p.ClosedUnderCalls keys)
    {k : VariantKey} (h : p.Reaches k) : k ∈ keys := by
  induction h with
  | entry hk => exact hkeys.1 _ hk
  | call _ hr hl ih => exact hkeys.2 _ ih _ hr _ hl

/-- More variants keep what was reached. -/
theorem Reaches.insert {entry : Routine} {made : VariantTable Routine} {k l : VariantKey}
    {r : Routine} (hnodup : made.keys.Nodup) (hl : l ∉ made.keys)
    (h : Reaches ⟨entry, made⟩ k) : Reaches ⟨entry, made.insert l r⟩ k := by
  have hnodup' : (made.insert l r).keys.Nodup :=
    (VariantTable.perm_keys_insert hl).nodup_iff.mpr (List.nodup_cons.mpr ⟨hl, hnodup⟩)
  induction h with
  | entry hk => exact .entry hk
  | call _ hr hc ih =>
    refine .call ih ((VariantTable.find?_eq_some_iff hnodup').mpr ?_) hc
    exact (VariantTable.perm_insert hl).mem_iff.mpr
      (List.mem_cons_of_mem _ (VariantTable.mem_of_find? hr))

end Program

/-! ## The queue -/

namespace Target

variable {t : Target} {config : CompilerConfig} {entry : Routine}

/-- Asks for variants, one after the other. -/
def requestAll (t : Target) (q : VariantQueue) (keys : List VariantKey) : VariantQueue :=
  keys.foldl (fun q key =>
    match t.procedure? key.proccode with
    | some p => q.request ⟨key, p⟩
    | none => q) q

/-- What asking for variants adds to the queue. -/
structure Requested (t : Target) (q q' : VariantQueue) (keys : List VariantKey) : Prop where
  added : ∃ new : List VariantRequest, q'.known = q.known ++ new.map VariantRequest.key
    ∧ q'.waiting = q.waiting ++ new ∧ ∀ r ∈ new, r.key ∈ keys ∧ r.key.Names t r.procedure
  nodup : q.known.Nodup → q'.known.Nodup
  all : ∀ k ∈ keys, k ∈ q'.known

theorem Requested.known_subset {q q' : VariantQueue} {keys : List VariantKey}
    (h : Requested t q q' keys) {k : VariantKey} (hk : k ∈ q.known) : k ∈ q'.known := by
  obtain ⟨new, hknown, -⟩ := h.added
  rw [hknown]
  exact List.mem_append_left _ hk

theorem Requested.mem_of_known {q q' : VariantQueue} {keys : List VariantKey}
    (h : Requested t q q' keys) {k : VariantKey} (hk : k ∈ q'.known) : k ∈ q.known ∨ k ∈ keys := by
  obtain ⟨new, hknown, -, hnew⟩ := h.added
  rw [hknown, List.mem_append, List.mem_map] at hk
  rcases hk with hk | ⟨r, hr, rfl⟩
  · exact Or.inl hk
  · exact Or.inr (hnew r hr).1

theorem requested_request {q : VariantQueue} {k : VariantKey} {d : Procedure} (hk : k.Names t d) :
    Requested t q (q.request ⟨k, d⟩) [k] := by
  unfold VariantQueue.request
  split
  · next hc =>
    have hmem : k ∈ q.known := by simpa [VariantQueue.contains] using hc
    exact ⟨⟨[], by simp⟩, fun h => h, by simpa using hmem⟩
  · next hc =>
    have hmem : k ∉ q.known := by simpa [VariantQueue.contains] using hc
    refine ⟨⟨[⟨k, d⟩], rfl, rfl, by simpa using hk⟩, fun h => ?_, by simp⟩
    exact List.concat_eq_append ▸ h.concat hmem

theorem Requested.trans {q₁ q₂ q₃ : VariantQueue} {keys keys' : List VariantKey}
    (h₁ : Requested t q₁ q₂ keys) (h₂ : Requested t q₂ q₃ keys') :
    Requested t q₁ q₃ (keys ++ keys') := by
  obtain ⟨new, hk, hw, hn⟩ := h₁.added
  obtain ⟨new', hk', hw', hn'⟩ := h₂.added
  refine ⟨⟨new ++ new', by simp [hk', hk], by simp [hw', hw], fun r hr => ?_⟩,
    fun h => h₂.nodup (h₁.nodup h), fun k hkm => ?_⟩
  · rcases List.mem_append.mp hr with hr | hr
    · exact ⟨List.mem_append_left _ (hn r hr).1, (hn r hr).2⟩
    · exact ⟨List.mem_append_right _ (hn' r hr).1, (hn' r hr).2⟩
  · rcases List.mem_append.mp hkm with hkm | hkm
    · exact h₂.known_subset (h₁.all k hkm)
    · exact h₂.all k hkm

/-- Asking for keys that name variants adds those that are new, each once. -/
theorem requested_requestAll {keys : List VariantKey} (hkeys : ∀ k ∈ keys, ∃ d, k.Names t d) :
    ∀ q : VariantQueue, Requested t q (t.requestAll q keys) keys := by
  induction keys with
  | nil => exact fun q => ⟨⟨[], by simp [requestAll]⟩, fun h => h, by simp⟩
  | cons k keys ih =>
    intro q
    obtain ⟨d, hd⟩ := hkeys k List.mem_cons_self
    have hstep : t.requestAll q (k :: keys) = t.requestAll (q.request ⟨k, d⟩) keys := by
      simp [requestAll, hd.defined]
    rw [hstep]
    exact (requested_request hd).trans
      (ih (fun k' hk' => hkeys k' (List.mem_cons_of_mem _ hk')) (q.request ⟨k, d⟩))

/-! ## The search -/

/-- What holds after every step of the search for variants. -/
structure Progress (t : Target) (config : CompilerConfig) (entry : Routine) (q : VariantQueue)
    (made : VariantTable Routine) (begun : List VariantKey) : Prop where
  known_eq : q.known = begun ++ q.waiting.map VariantRequest.key
  nodup : q.known.Nodup
  waiting : ∀ r ∈ q.waiting, r.key.Names t r.procedure
  keys : made.keys.Perm begun
  names : ∀ k r, (k, r) ∈ made.entries → ∃ d, k.Names t d ∧ t.variantRoutine config ⟨k, d⟩ = .ok r
  entry_called : ∀ k, entry.Calls k → k ∈ q.known
  made_called : ∀ k r, (k, r) ∈ made.entries → ∀ l, r.Calls l → l ∈ q.known
  reached : ∀ k ∈ q.known, Program.Reaches ⟨entry, made⟩ k

theorem exists_names_of_calls {warp : Bool} {sig : List Shape} {r : Routine}
    (hr : ∀ n ∈ Stmt.allNodes r.stack, n.ProperIn t warp sig) {k : VariantKey}
    (hk : k ∈ Stmt.allCalls r.stack) : ∃ d, k.Names t d := by
  obtain ⟨args, y, hcall⟩ := Routine.calls_iff.mpr hk
  exact (hr _ hcall).calls.1

theorem progress_start {script : Script} (h : t.entryRoutine config script = .ok entry) :
    Progress t config entry (t.requestCalls {} entry) {} [] := by
  have hreq : Requested t {} (t.requestCalls {} entry) (Stmt.allCalls entry.stack) :=
    requested_requestAll (fun k hk => exists_names_of_calls (entryRoutine_eq_ok h).2.2.2 hk) {}
  obtain ⟨new, hknown, hwaiting, hnew⟩ := hreq.added
  refine ⟨by simp [hknown, hwaiting], hreq.nodup List.nodup_nil, fun r hr => ?_, List.Perm.refl _,
    by simp, fun k hk => hreq.all k (Routine.calls_iff.mp hk), by simp, fun k hk => ?_⟩
  · rw [hwaiting, List.nil_append] at hr
    exact (hnew r hr).2
  · rcases hreq.mem_of_known hk with hk | hk
    · cases hk
    · exact .entry (Routine.calls_iff.mpr hk)

/-- **One step of the search.** The variant that has waited longest is made, and what it calls is
asked for. -/
theorem Progress.step {q q' : VariantQueue} {made : VariantTable Routine} {begun : List VariantKey}
    (h : Progress t config entry q made begun) {req : VariantRequest} {r : Routine}
    (hnext : q.next? = some (req, q')) (hr : t.variantRoutine config req = .ok r) :
    Progress t config entry (t.requestCalls q' r) (made.insert req.key r) (begun ++ [req.key]) := by
  obtain ⟨key, d⟩ := req
  obtain ⟨rest, hwait, hq'⟩ : ∃ rest, q.waiting = ⟨key, d⟩ :: rest ∧ q' = ⟨q.known, rest⟩ := by
    unfold VariantQueue.next? at hnext
    split at hnext
    · cases hnext
    · next hw =>
      cases hnext
      exact ⟨_, hw, rfl⟩
  have hd : key.Names t d := h.waiting ⟨key, d⟩ (by rw [hwait]; exact List.mem_cons_self)
  have hknown : q'.known = begun ++ [key] ++ q'.waiting.map VariantRequest.key := by
    rw [hq', h.known_eq, hwait]
    simp
  have hfresh : key ∉ made.keys := by
    intro hmem
    have hbegun : key ∈ begun := h.keys.mem_iff.mp hmem
    have hnodup := h.nodup
    rw [h.known_eq, hwait] at hnodup
    exact (List.nodup_append.mp hnodup).2.2 key hbegun key List.mem_cons_self rfl
  have hkeys : made.keys.Nodup := by
    have hnodup := h.nodup
    rw [h.known_eq] at hnodup
    exact h.keys.nodup_iff.mpr (List.nodup_append.mp hnodup).1
  have hreq : Requested t q' (t.requestCalls q' r) (Stmt.allCalls r.stack) :=
    requested_requestAll
      (fun k hk => exists_names_of_calls (variantRoutine_eq_ok hd hr).2.2.2 hk) q'
  have hentries := VariantTable.perm_insert (a := r) hfresh
  have hsame : q'.known = q.known := by rw [hq']
  -- the key itself is reached already, so what its routine calls is reached through it
  have hreach : Program.Reaches ⟨entry, made.insert key r⟩ key :=
    (h.reached key (by rw [h.known_eq, hwait]; simp)).insert hkeys hfresh
  have hfind : (made.insert key r).find? key = some r := by
    refine (VariantTable.find?_eq_some_iff ?_).mpr (hentries.mem_iff.mpr List.mem_cons_self)
    exact (VariantTable.perm_keys_insert hfresh).nodup_iff.mpr (List.nodup_cons.mpr ⟨hfresh, hkeys⟩)
  obtain ⟨new, hnewKnown, hnewWaiting, hnew⟩ := hreq.added
  refine ⟨?_, hreq.nodup (hsame ▸ h.nodup), fun req' hreq' => ?_, ?_, fun k r' hk => ?_,
    fun k hk => ?_, fun k r' hk l hl => ?_, fun k hk => ?_⟩
  · rw [hnewKnown, hnewWaiting, hknown]
    simp
  · rw [hnewWaiting, List.mem_append] at hreq'
    rcases hreq' with hold | hnew'
    · exact h.waiting req' (by rw [hwait]; exact List.mem_cons_of_mem _ (by rwa [hq'] at hold))
    · exact (hnew req' hnew').2
  · exact (VariantTable.perm_keys_insert hfresh).trans
      ((h.keys.cons key).trans (List.perm_append_singleton key begun).symm)
  · rcases List.mem_cons.mp (hentries.mem_iff.mp hk) with heq | hk
    · cases heq
      exact ⟨d, hd, hr⟩
    · exact h.names k r' hk
  · exact hreq.known_subset (hsame ▸ h.entry_called k hk)
  · rcases List.mem_cons.mp (hentries.mem_iff.mp hk) with heq | hk
    · cases heq
      exact hreq.all l (Routine.calls_iff.mp hl)
    · exact hreq.known_subset (hsame ▸ h.made_called k r' hk l hl)
  · rcases hreq.mem_of_known hk with hk | hk
    · exact (h.reached k (hsame ▸ hk)).insert hkeys hfresh
    · exact .call hreach hfind (Routine.calls_iff.mpr hk)

/-- No more variants are begun than the target has. -/
theorem Progress.length_begun_le {q : VariantQueue} {made : VariantTable Routine}
    {begun : List VariantKey} (h : Progress t config entry q made begun) :
    begun.length ≤ t.variantBound := by
  have hnodup := h.nodup
  rw [h.known_eq] at hnodup
  have hbegun : begun.Nodup := (List.nodup_append.mp hnodup).1
  rw [← length_variantKeys]
  refine (List.subperm_of_subset hbegun fun k hk => ?_).length_le
  obtain ⟨r, hr⟩ := VariantTable.mem_keys_iff.mp (h.keys.mem_iff.mpr hk)
  obtain ⟨d, hd, -⟩ := h.names k r hr
  exact mem_variantKeys hd

end Target

/-! ## The program -/

/-- What is known of the program of a script. -/
structure Program.GeneratedBy (t : Target) (config : CompilerConfig) (script : Script)
    (p : Program) : Prop where
  entry : t.entryRoutine config script = .ok p.entry
  nodup : p.procedures.keys.Nodup
  names : ∀ k r, (k, r) ∈ p.procedures.entries →
    ∃ d, k.Names t d ∧ t.variantRoutine config ⟨k, d⟩ = .ok r
  called : ∀ r ∈ p.routines, ∀ k, r.Calls k → k ∈ p.procedures.keys
  reached : ∀ k ∈ p.procedures.keys, p.Reaches k
  count : p.procedures.keys.length ≤ t.variantBound

namespace Target

variable {t : Target} {config : CompilerConfig} {entry : Routine}

/-- A search that has come to its end has made the program. -/
theorem Progress.finish {script : Script} {q : VariantQueue} {made : VariantTable Routine}
    {begun : List VariantKey} (h : Progress t config entry q made begun)
    (hentry : t.entryRoutine config script = .ok entry) (hq : q.waiting = []) :
    Program.GeneratedBy t config script ⟨entry, made⟩ := by
  have hbegun : q.known = begun := by simp [h.known_eq, hq]
  have hmem : ∀ k, k ∈ made.keys ↔ k ∈ q.known := fun k => by rw [hbegun, h.keys.mem_iff]
  refine ⟨hentry, h.keys.nodup_iff.mpr (hbegun ▸ h.nodup), h.names, fun r hr k hk => ?_,
    fun k hk => h.reached k ((hmem k).mp hk), h.keys.length_eq ▸ h.length_begun_le⟩
  rw [Program.routines, List.mem_cons, VariantTable.mem_values_iff] at hr
  rcases hr with rfl | ⟨l, hl⟩
  · exact (hmem k).mpr (h.entry_called k hk)
  · exact (hmem k).mpr (h.made_called l r hl k hk)

/-- The search keeps to `Progress` until nothing waits; the steps it is given are enough, since each
of them begins one more variant of the target. -/
theorem generatedBy_of_makeVariants {script : Script} {p : Program}
    (hentry : t.entryRoutine config script = .ok entry) :
    ∀ (steps : Nat) {q : VariantQueue} {made : VariantTable Routine} {begun : List VariantKey},
      Progress t config entry q made begun → t.variantBound < steps + begun.length →
      (t.makeVariants config entry steps q made begun).outcome = .ok p →
      p.GeneratedBy t config script
  | 0, _, _, _, hprog, hsteps, _ => by
    have := hprog.length_begun_le
    omega
  | steps + 1, q, made, begun, hprog, hsteps, h => by
    rw [makeVariants] at h
    split at h
    · next hnone =>
      cases h
      refine hprog.finish hentry ?_
      unfold VariantQueue.next? at hnone
      split at hnone
      · assumption
      · cases hnone
    · next req q' hnext =>
      split at h
      · cases h
      · next r hr =>
        refine generatedBy_of_makeVariants hentry steps (hprog.step hnext hr) ?_ h
        simp only [List.length_append, List.length_singleton]
        omega

/-- **A program that was put together holds exactly the variants that it needs.** -/
theorem generatedBy_of_generate {script : Script} {p : Program}
    (h : (t.generate config script).outcome = .ok p) : p.GeneratedBy t config script := by
  unfold generate at h
  split at h
  · cases h
  · next entry hentry =>
    exact generatedBy_of_makeVariants hentry _ (progress_start hentry) (by simp) h

/-- What holds of a routine of a program: everything in it fits into it. -/
theorem proper_of_generatedBy {script : Script} {p : Program} (h : p.GeneratedBy t config script)
    {r : Routine} (hr : r ∈ p.routines) :
    ∀ n ∈ Stmt.allNodes r.stack, n.ProperIn t r.warp r.arguments := by
  rw [Program.routines, List.mem_cons, VariantTable.mem_values_iff] at hr
  rcases hr with rfl | ⟨k, hk⟩
  · obtain ⟨-, harg, -, hproper⟩ := entryRoutine_eq_ok h.entry
    rw [harg]
    exact hproper
  · obtain ⟨d, hd, hroutine⟩ := h.names k r hk
    obtain ⟨hscript, harg, -, hproper⟩ := variantRoutine_eq_ok hd hroutine
    rw [harg, Routine.warp, hscript]
    exact hproper

/--
**The procedures of a program are the least set of variants that is closed under calls.**

Each of them is reached from the entry. Its key names a procedure of the target, with one canonical
shape for each parameter, and its routine has the arguments and the warp that the key says. A call
anywhere in the program passes as many arguments as the key has shapes, of shapes that widen to
those, and a call from warp leads into warp.
-/
theorem procedures_isLeast_of_generate {script : Script} {p : Program}
    (h : (t.generate config script).outcome = .ok p) :
    IsLeast {keys | p.ClosedUnderCalls keys} {k | k ∈ p.procedures.keys}
      ∧ (∀ k ∈ p.procedures.keys, p.Reaches k)
      ∧ p.procedures.keys.Nodup
      ∧ (∀ k r, (k, r) ∈ p.procedures.entries →
          (∃ d, t.procedure? k.proccode = some d ∧ k.signature.length = d.params.length
            ∧ (d.warp = true → k.warp = true))
          ∧ (∀ s ∈ k.signature, s.widen = s)
          ∧ r.arguments = k.signature ∧ r.warp = k.warp)
      ∧ ∀ r ∈ p.routines, ∀ k args y, .call k args y ∈ Stmt.allNodes r.stack →
          (r.warp = true → k.warp = true)
          ∧ args.length = k.signature.length
          ∧ args.map (fun e => e.shape.widen) = k.signature := by
  have hp := generatedBy_of_generate h
  refine ⟨⟨⟨fun k hk => ?_, fun k _ r hr l hl => ?_⟩, fun keys hkeys k hk => ?_⟩, hp.reached,
    hp.nodup, fun k r hk => ?_, fun r hr k args y hcall => ?_⟩
  · exact hp.called p.entry List.mem_cons_self k hk
  · have hmem : r ∈ p.procedures.values :=
      VariantTable.mem_values_iff.mpr ⟨k, VariantTable.mem_of_find? hr⟩
    exact hp.called r (List.mem_cons_of_mem _ hmem) l hl
  · exact (hp.reached k hk).mem hkeys
  · obtain ⟨d, hd, hroutine⟩ := hp.names k r hk
    obtain ⟨hscript, harg, -⟩ := variantRoutine_eq_ok hd hroutine
    exact ⟨⟨d, hd.defined, hd.arity, hd.warp⟩, hd.canonical, harg,
      by rw [Routine.warp, hscript]; rfl⟩
  · obtain ⟨-, hshapes, hwarp⟩ := (proper_of_generatedBy hp hr _ hcall).calls
    exact ⟨hwarp, by rw [← hshapes, List.length_map], hshapes⟩

/-- Two procedures. The first passes its parameters on in the other order, from a branch inside a
loop; the second runs in warp and calls the first. -/
def crossing : Target where
  blocks := .ofList
    [{ opcode := "control_forever", inputs := [("SUBSTACK", .block 1)] },
     { opcode := "control_if", inputs := [("CONDITION", .block 2), ("SUBSTACK", .block 3)] },
     { opcode := "argument_reporter_boolean", fields := [("VALUE", "flag")] },
     { opcode := "procedures_call", proccode := some "cross %s %b",
       inputs := [("a", .block 4), ("b", .block 5)] },
     { opcode := "argument_reporter_boolean", fields := [("VALUE", "flag")] },
     { opcode := "argument_reporter_string_number", fields := [("VALUE", "item")] },
     { opcode := "procedures_call", proccode := some "cross %s %b",
       inputs := [("a", .literal (.text "x")), ("b", .literal (.bool true))] },
     { opcode := "procedures_call", proccode := some "all", next := some 8 },
     { opcode := "procedures_call", proccode := some "cross %s %b" }]
  procedures :=
    [{ proccode := "cross %s %b", body := some 0,
       params := [⟨"a", "item", .textOrNumber⟩, ⟨"b", "flag", .boolean⟩] },
     { proccode := "all", warp := true, body := some 6 }]

/-- A script that calls both procedures of `crossing`. -/
def crossingScript : Script := ⟨"main", crossing.blocks, some 7, false⟩

theorem procedures_isLeast_crossing :
    ∃ p, (crossing.generate {} crossingScript).outcome = .ok p ∧ p.procedures.keys.length = 5
      ∧ IsLeast {keys | p.ClosedUnderCalls keys} {k | k ∈ p.procedures.keys} := by
  have hlen : (crossing.generate {} crossingScript).outcome.toOption.map
      (fun p => p.procedures.keys.length) = some 5 := by decide +kernel
  obtain ⟨p, hp, hlen⟩ := Option.map_eq_some_iff.mp hlen
  have hp := eq_ok_of_toOption hp
  exact ⟨p, hp, hlen, (procedures_isLeast_of_generate hp).1⟩

end Target

end BlockScript
