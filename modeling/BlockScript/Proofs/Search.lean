import BlockScript.Proofs.Escapes
import BlockScript.Proofs.Variants
import Mathlib.Algebra.GroupWithZero.Nat

/-!
# The search for variants ends

A variant that is made may ask for further ones, of its own procedure too and with other shapes each
time, so the queue may grow while it is worked off. `Target.SearchEnds` is the search as it is
meant, which goes on for as long as anything waits: no number of steps is given to it. It ends since
each round begins a variant that was not begun before, and a target has only so many
(`Target.Progress.length_begun_le`).

Main statement: the search that is given `variantBound + 1` steps finds what the search without a
bound finds, and the variants are no more than the procedures allow
(`Target.searchReturns_of_generate`).
-/

namespace BlockScript

/-- How far the search for variants has come. -/
structure Search where
  queue : VariantQueue
  made : VariantTable Routine
  begun : List VariantKey

namespace Search

/-- The search begins with what the entry calls. -/
def start (t : Target) (entry : Routine) : Search := ⟨t.requestCalls {} entry, {}, []⟩

/-- A variant has been made, and what it calls has been asked for. -/
def record (s : Search) (t : Target) (queue : VariantQueue) (k : VariantKey) (r : Routine) :
    Search :=
  ⟨t.requestCalls queue r, s.made.insert k r, s.begun ++ [k]⟩

end Search

namespace Target

/-- The search that has come so far makes `rounds` more variants and then ends, because nothing
waits any more or because there is no routine of the variant that comes next. -/
inductive SearchEnds (t : Target) (config : CompilerConfig) (entry : Routine) :
    (rounds : Nat) → Search → Generation → Prop
  | done {s : Search} (next : s.queue.next? = none) :
    SearchEnds t config entry 0 s ⟨.ok ⟨entry, s.made⟩, s.begun⟩
  | failed {s : Search} {request : VariantRequest} {queue : VariantQueue} {e : GenerationError}
    (next : s.queue.next? = some (request, queue))
    (routine : t.variantRoutine config request = .error e) :
    SearchEnds t config entry 0 s ⟨.error e, s.begun ++ [request.key]⟩
  | made {n : Nat} {s : Search} {request : VariantRequest} {queue : VariantQueue} {r : Routine}
    {g : Generation} (next : s.queue.next? = some (request, queue))
    (routine : t.variantRoutine config request = .ok r)
    (rest : SearchEnds t config entry n (s.record t queue request.key r) g) :
    SearchEnds t config entry (n + 1) s g

/-- What the search without a bound finds for a script, after at most `bound` rounds. -/
inductive SearchReturns (t : Target) (config : CompilerConfig) (script : Script) (bound : Nat) :
    Generation → Prop
  | refused {e : GenerationError} (entry : t.entryRoutine config script = .error e) :
    SearchReturns t config script bound ⟨.error e, []⟩
  | searched {r : Routine} {rounds : Nat} {g : Generation}
    (entry : t.entryRoutine config script = .ok r)
    (ends : SearchEnds t config r rounds (.start t r) g) (within : rounds ≤ bound) :
    SearchReturns t config script bound g

variable {t : Target} {config : CompilerConfig} {entry : Routine}

/-- A search that ends finds the same with any number of steps that is large enough. -/
theorem SearchEnds.makeVariants_eq {rounds : Nat} {s : Search} {g : Generation}
    (h : t.SearchEnds config entry rounds s g) {steps : Nat} (hsteps : rounds < steps) :
    t.makeVariants config entry steps s.queue s.made s.begun = g := by
  obtain ⟨steps, rfl⟩ := Nat.exists_eq_add_one_of_ne_zero (Nat.ne_of_gt (Nat.zero_lt_of_lt hsteps))
  induction h generalizing steps with
  | done hnext => rw [makeVariants, hnext]
  | failed hnext hroutine =>
    rw [makeVariants, hnext]
    simp only [hroutine]
  | @made n _ _ _ _ _ hnext hroutine _ ih =>
    have hlt : n < steps := Nat.lt_of_succ_lt_succ hsteps
    obtain ⟨steps, rfl⟩ := Nat.exists_eq_add_one_of_ne_zero (Nat.ne_of_gt (Nat.zero_lt_of_lt hlt))
    rw [makeVariants, hnext]
    simp only [hroutine]
    exact ih steps hlt

/-- **The search ends.** With `room` for variants that were not begun yet, it makes at most so many
more. -/
theorem Progress.searchEnds : ∀ (room : Nat) (s : Search),
    t.Progress config entry s.queue s.made s.begun → t.variantBound ≤ room + s.begun.length →
    ∃ rounds g, t.SearchEnds config entry rounds s g ∧ rounds ≤ room
  | room, s, hprogress, hroom => by
    cases hnext : s.queue.next? with
    | none => exact ⟨0, _, .done hnext, Nat.zero_le _⟩
    | some found =>
      obtain ⟨request, queue⟩ := found
      cases hroutine : t.variantRoutine config request with
      | error e => exact ⟨0, _, .failed hnext hroutine, Nat.zero_le _⟩
      | ok r =>
        -- The variant is begun now, so there was room for it.
        have hstep := hprogress.step hnext hroutine
        have hbegun := hstep.length_begun_le
        rw [List.length_append, List.length_singleton] at hbegun
        obtain ⟨room, rfl⟩ : ∃ room', room = room' + 1 := ⟨room - 1, by omega⟩
        have hrest : t.variantBound ≤ room + (s.record t queue request.key r).begun.length := by
          rw [Search.record, List.length_append, List.length_singleton]
          omega
        obtain ⟨rounds, g, hends, hrounds⟩ := Progress.searchEnds room _ hstep hrest
        exact ⟨rounds + 1, g, .made hnext hroutine hends, Nat.succ_le_succ hrounds⟩

/-- **Whatever the procedures call, the program of a script is found or refused.** The search
without a bound ends with what `generate` returns, after at most as many rounds as the procedures
have variants, and each walk on the way ends or comes to a bad block after at most as many blocks as
its arena has. If there is a program, a procedure of `n` parameters has no more than `2 * 3 ^ n`
variants in it on the whole. -/
theorem searchReturns_of_generate (t : Target) (config : CompilerConfig) (script : Script) :
    t.SearchReturns config script (t.procedures.map fun d => 2 * 3 ^ d.params.length).sum
        (t.generate config script)
      ∧ (∀ (a : Arena) (first : Option BlockId), ∃ n ≤ a.size,
        a.stackTrail t (n + 1) first = a.stackTrail t n first
          ∨ ¬ a.Distinct (a.stackTrail t (n + 1) first))
      ∧ ∀ p, (t.generate config script).outcome = .ok p →
        p.procedures.keys.length ≤ (t.procedures.map fun d => 2 * 3 ^ d.params.length).sum := by
  have hbound : (t.procedures.map fun d => 2 * 3 ^ d.params.length).sum = t.variantBound := rfl
  rw [hbound]
  refine ⟨?_, fun a first => ?_, fun p hp => (generatedBy_of_generate hp).count⟩
  · rw [generate]
    cases hentry : t.entryRoutine config script with
    | error e => exact .refused hentry
    | ok entry =>
      obtain ⟨rounds, g, hends, hrounds⟩ :=
        Progress.searchEnds t.variantBound (.start t entry) (progress_start hentry)
          (Nat.le_add_right _ _)
      have hfound :
          t.makeVariants config entry (t.variantBound + 1) (t.requestCalls {} entry) {} [] = g :=
        hends.makeVariants_eq (Nat.lt_succ_of_le hrounds)
      dsimp only
      rw [hfound]
      exact .searched hentry hends hrounds
  · exact (makesRoutine_routineOf ⟨t, config, false, none⟩ ⟨"", a, first, false⟩ [] none).ends

/-- Two procedures that call each other and themselves, with shapes that change from call to
call. -/
theorem searchReturns_of_generate_crossing :
    ∃ p, (crossing.generate {} crossingScript).outcome = .ok p
      ∧ p.procedures.keys.length
        ≤ (crossing.procedures.map fun d => 2 * 3 ^ d.params.length).sum := by
  have hsome : (crossing.generate {} crossingScript).outcome.toOption.isSome = true := by
    decide +kernel
  obtain ⟨p, hp⟩ := Option.isSome_iff_exists.mp hsome
  have hp := eq_ok_of_toOption hp
  exact ⟨p, hp, (searchReturns_of_generate crossing {} crossingScript).2.2 p hp⟩

end Target

end BlockScript
