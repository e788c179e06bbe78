import BlockScript.Proofs.Closure
import BlockScript.Proofs.Confinement
import BlockScript.Proofs.Effects
import BlockScript.Proofs.Histories
import BlockScript.Proofs.WriteOnce

/-!
# Nothing but what was granted

A routine is linked under capabilities, and from then on it carries the names that it may call. A
frame calls no primitive that its routine does not name (`Frame.leaves_exec`), and each routine that
a thread enters is one of its variants (`Frame.within`); so all primitives that a thread ever calls
are among those that were allowed when its routines were linked (`Execution.Allowed.history`). A
support function is the one that the image names, and is applied to as many values as it takes
(`Frame.exists_applies`).

Compilers with different capabilities share what they have compiled. Whoever is handed a routine, it
was linked under the capabilities of the compiler that has stored it (`Project.Stores.linkedUnder`).

Main statement: `Project.granted_of_compile`.
-/

namespace BlockScript

variable {σ : Type}

/-! ## What linking grants -/

/-- The routine imports no primitive that the capabilities do not allow, and no support function
that there is not. -/
structure Linked.ConfinedTo (c : Capabilities) (l : Linked) : Prop where
  host : ∀ name ∈ l.image.host, c.allows name = true
  support : ∀ name ∈ l.image.support, ∃ fn ∈ Support.all, fn.name = name

/-- The routine has come of linking an image under the capabilities. -/
def Linked.LinkedUnder (c : Capabilities) (l : Linked) : Prop := ∃ i : Image, i.link c = .ok l

/-- **What is linked is confined** to the capabilities. -/
theorem Linked.LinkedUnder.confinedTo {c : Capabilities} {l : Linked} (h : l.LinkedUnder c) :
    l.ConfinedTo c := by
  obtain ⟨i, hlink⟩ := h
  obtain ⟨rfl, hallowed⟩ := Image.allows_of_link hlink
  refine ⟨hallowed, fun name hname => ?_⟩
  rw [← l.imported] at hname
  obtain ⟨fn, -, hfn⟩ := List.mem_map.mp hname
  exact ⟨fn, Support.mem_all fn, hfn⟩

theorem Image.linkedUnder_of_load {name : String} {bytes : List UInt8} {c : Capabilities}
    {l : Linked} (h : Image.load name bytes c = .ok l) : l.LinkedUnder c := by
  unfold load at h
  split at h
  · cases h
  · exact ⟨_, h⟩

/-! ## Calls of primitives -/

namespace Frame

variable {h : Host σ} {w : World σ} {P : World σ → Prop}

/-- The world that an instruction has left has the property. -/
def Leaves (P : World σ → Prop) (r : Frame × World σ × Effect) : Prop := P r.2.1

/-- **All that an instruction can do to the world is a call that its routine may make.** -/
theorem leaves_exec (f : Frame) (s : Setting) (callers : List Frame) (op : Instr) (hw : P w)
    (hcall : ∀ call, f.routine.MayCall call → P (h.afterCall w call)) :
    Leaves P (f.exec h s callers w op) := by
  rcases f.callsWithin_exec (h := h) (w := w) s callers op with hworld | ⟨call, hmay, hworld, -⟩
  · rw [Leaves, hworld]
    exact hw
  · rw [Leaves, hworld]
    exact hcall call hmay

end Frame

/-- **What holds of all variants holds of every routine that a thread ever gets into.** -/
def Frame.within (s : Setting) {R : Linked → Prop}
    (hvariants : ∀ k l, s.variants.find? k = some l → R l) : FrameInvariant s where
  Holds f := f.Confined ∧ R f.routine
  Admits _ _ := True
  exec := by
    rintro σ h callers w f ⟨hf, hroutine⟩ hnone
    obtain ⟨op, hop⟩ : ∃ op, f.routine.image.ops[f.pc]? = some op :=
      ⟨_, List.getElem?_eq_getElem hf.inside⟩
    have hconfined := hf.exec (w := w) hnone hop h s callers
    have hexec := executes_exec h s callers w f op
    refine ⟨op, by rw [f.routine.code_eq, List.getElem?_toArray, hop], ?_⟩
    generalize f.exec h s callers w op = r at hconfined hexec
    obtain ⟨f', w', effect⟩ := r
    have hroutine' : R f'.routine := hexec.routine.symm ▸ hroutine
    cases effect with
    | next | nextUnlessStopped | suspend => exact ⟨hconfined, hroutine'⟩
    | leave => trivial
    | fail fault => exact ⟨⟨hconfined.1, hroutine'⟩, trivial⟩
    | enter callee args =>
      obtain ⟨key, -, hfind⟩ := hexec.exists_variant
      exact ⟨⟨hconfined.1, hroutine'⟩, .start callee args, hvariants key callee hfind⟩
  resume := by
    rintro f id v ⟨hf, hroutine⟩ hid
    exact ⟨(confinement s).resume v hf hid, hroutine⟩

/-! ## What a thread calls -/

namespace Execution

/-- The world after a step that has an outcome. -/
theorem worldAfter_of_run {h : Host σ} {s : Setting} : ∀ (bound : Nat) {w w' : World σ}
    {e e' : Execution} {outcome : Outcome}, e.run h s bound w = some (outcome, w', e') →
    worldAfter h s bound w e = w'
  | 0, _, _, _, _, _, hrun => by cases hrun
  | bound + 1, w, w', e, e', outcome, hrun => by
    rcases htick : e.tick h s w with ⟨e₁, w₁, flow⟩
    rw [run_succ bound htick] at hrun
    rw [worldAfter_succ bound htick]
    cases hend : flow.ending e₁ with
    | none =>
      rw [hend] at hrun
      exact worldAfter_of_run bound hrun
    | some r =>
      rw [hend] at hrun
      cases hrun
      rfl

/-- All primitives that were called are allowed. -/
def Allowed (c : Capabilities) (w : World (σ × List Observation)) : Prop :=
  ∀ name args, .called (.primitive name args) ∈ w.host.2 → c.allows name = true

section

variable {s : Setting} {c : Capabilities} {h : Host σ} {o : Outside σ}
  {w : World (σ × List Observation)}

theorem Allowed.afterCall (hw : Allowed c w) {l : Linked} (hl : l.ConfinedTo c) {call : HostEvent}
    (hcall : l.MayCall call) : Allowed c (h.recorded.afterCall w call) := by
  obtain ⟨-, call', hseen, hsame⟩ := h.recorded_afterCall w call
  intro name args hmem
  rw [hseen, List.mem_append, List.mem_singleton] at hmem
  rcases hmem with hmem | hmem
  · exact hw name args hmem
  · cases hmem
    exact hl.host name (hcall name args (hsame rfl))

theorem Allowed.dispatch (hw : Allowed c w) {frames : List Frame}
    (hframes : ∀ f ∈ frames, f.Confined ∧ f.routine.ConfinedTo c) :
    Allowed c (Execution.dispatch h.recorded s w frames).2.1 := by
  cases frames with
  | nil => exact hw
  | cons f callers =>
    have hf := (hframes f List.mem_cons_self).2
    cases hpending : f.pending with
    | some id =>
      have hpoll : Allowed c (h.recorded.afterCall w (.poll id)) :=
        hw.afterCall hf fun name args heq => by cases heq
      simp only [Execution.dispatch, hpending, pollFrame]
      split <;> exact hpoll
    | none =>
      simp only [Execution.dispatch, hpending]
      split
      · exact hw
      · next op _ =>
        rw [applyEffect_world]
        exact f.leaves_exec s callers op hw fun call hcall => hw.afterCall hf hcall

variable (hvariants : ∀ k l, s.variants.find? k = some l → l.ConfinedTo c)

include hvariants

theorem Allowed.tick (hw : Allowed c w) {e : Execution}
    (he : (Frame.within s hvariants).HoldsOf e) : Allowed c (e.tick h.recorded s w).2.1 := by
  rcases tick_cases (h := h.recorded) (s := s) w e with ⟨e', fault, -, -, heq⟩ | ⟨e', -, -, heq⟩
  · rw [heq]
    exact hw
  · rw [heq]
    exact hw.dispatch he

theorem Allowed.worldAfter : ∀ (bound : Nat) {w : World (σ × List Observation)} {e : Execution},
    Allowed c w → (Frame.within s hvariants).HoldsOf e →
    Allowed c (worldAfter h.recorded s bound w e)
  | 0, _, _, hw, _ => hw
  | bound + 1, w, e, hw, he => by
    have hw₁ := hw.tick (h := h) hvariants he
    have he₁ := ((Frame.within s hvariants).tick (h := h.recorded) (w := w) he).1
    rcases htick : e.tick h.recorded s w with ⟨e₁, w₁, flow⟩
    rw [htick] at hw₁ he₁
    rw [worldAfter_succ bound htick]
    split
    · exact hw₁
    · exact Allowed.worldAfter bound hw₁ he₁

theorem Allowed.step {bound : Nat} {w' : World (σ × List Observation)} {e e' : Execution}
    {outcome : Outcome} (hw : Allowed c w) (he : (Frame.within s hvariants).HoldsOf e)
    (hstep : e.step h.recorded s bound w = some (outcome, w', e')) : Allowed c w' := by
  unfold Execution.step at hstep
  split_ifs at hstep
  · cases hstep
    exact hw
  · cases hstep
    exact hw
  · cases hstep
    exact hw
  · rw [← worldAfter_of_run bound hstep]
    exact hw.worldAfter hvariants bound he

/-- **A thread calls no primitive but those that are allowed**, however many steps it takes and
whatever comes of them. -/
theorem Allowed.history {bound : Nat} : ∀ (steps : Nat) {w : World (σ × List Observation)}
    {e : Execution}, Allowed c w → (Frame.within s hvariants).HoldsOf e →
    Allowed c (history o.recorded s bound steps w e).world
  | 0, _, _, hw, _ => hw
  | steps + 1, w, e, hw, he => by
    rw [Execution.history]
    split
    · exact hw.worldAfter hvariants bound he
    · next outcome w' e' hstep =>
      have hw' := hw.step hvariants he hstep
      refine Allowed.history steps ?_ ((Frame.within s hvariants).step he hstep).1
      cases outcome with
      | yielded kind =>
        intro name args hmem
        rcases List.mem_append.mp hmem with hmem | hmem
        · exact hw' name args hmem
        · cases List.mem_singleton.mp hmem
      | finished | stopped | failed => exact hw'

end

end Execution

/-! ## Calls of support functions -/

/-- The frame is about to replace the values on top of its stack, as many as the function takes, by
what the function makes of them. If they are not there it fails, and nothing else happens. -/
structure Frame.Applies (s : Setting) (callers : List Frame) (f : Frame) (fn : Support) : Prop where
  applies : ∀ {σ : Type} (h : Host σ) (w : World σ) (rest args : List Value),
    f.stack.toList = rest ++ args → args.length = fn.arity →
    Execution.dispatch h s w (f :: callers)
      = ({ f with pc := f.pc + 1, stack := (rest ++ [fn.apply args]).toArray } :: callers, w, .next)
  fails : ∀ {σ : Type} (h : Host σ) (w : World σ), f.stack.size < fn.arity →
    Execution.dispatch h s w (f :: callers)
      = (f :: callers, w, .fail (.stackUnderflow f.routine.name f.pc))

/-- The function that the image of a linked routine names at an index, and the number of values that
it is called with. -/
theorem Linked.exists_support {l : Linked} {pc : Nat} {i argc : UInt16}
    (hop : l.image.ops[pc]? = some (.callSupport i argc)) :
    ∃ fn, l.support[i.toNat]? = some fn ∧ l.image.support[i.toNat]? = some fn.name
      ∧ fn.arity = argc.toNat := by
  have hlt : i.toNat < l.support.length := by
    rw [l.length_support]
    exact Image.lt_of_indexFlaw? (flawless hop).2
  have hfn := List.getElem?_eq_getElem hlt
  refine ⟨l.support[i.toNat], hfn, ?_, ?_⟩
  · rw [← l.imported, List.getElem?_map, hfn, Option.map_some]
  · have hcalled := l.called _ (List.mem_of_getElem? hop)
    simp only [Image.arityError?, hfn] at hcalled
    split at hcalled
    · assumption
    · cases hcalled

/-- **A support function is applied to as many values as it takes.** -/
theorem Frame.exists_applies {f : Frame} {i argc : UInt16} (hnone : f.pending = none)
    (hop : f.routine.image.ops[f.pc]? = some (.callSupport i argc)) (s : Setting)
    (callers : List Frame) :
    ∃ fn ∈ Support.all, f.routine.image.support[i.toNat]? = some fn.name
      ∧ f.Applies s callers fn := by
  obtain ⟨fn, hfn, hname, harity⟩ := Linked.exists_support hop
  have hcode : f.routine.code[f.pc]? = some (.callSupport i argc) := by
    rw [f.routine.code_eq, List.getElem?_toArray, hop]
  have hdispatch : ∀ {σ : Type} (h : Host σ) (w : World σ),
      Execution.dispatch h s w (f :: callers)
        = Execution.applyEffect (f.exec h s callers w (.callSupport i argc)).2.1
          (f.exec h s callers w (.callSupport i argc)).1 callers
          (f.exec h s callers w (.callSupport i argc)).2.2 := by
    intro σ h w
    simp only [Execution.dispatch, hnone, hcode]
  refine ⟨fn, Support.mem_all fn, hname, fun h w rest args hstack hlength => ?_,
    fun h w hshort => ?_⟩
  · rw [hdispatch]
    simp only [exec, hfn, ← harity, withValues_of_append hstack hlength]
    simp [Execution.applyEffect, Frame.push, advance]
  · rw [hdispatch]
    simp only [exec, hfn, withValues, ← harity, if_pos hshort]
    rfl

/-! ## Threads -/

/-- However the thread goes on, it calls only primitives that are allowed; and where it calls a
support function, it applies the one that the image names to as many values as that takes. -/
structure Execution.StaysWithin (c : Capabilities) (s : Setting) (e : Execution) : Prop where
  primitives : ∀ (σ : Type) (o : Outside σ) (bound steps : Nat) (w : σ) (stop : Bool)
    (name : String) (args : List Value),
    .called (.primitive name args)
      ∈ (history o.recorded s bound steps ⟨(w, []), stop⟩ e).world.host.2 →
    c.allows name = true
  support : ∀ (f : Frame) (callers : List Frame) (i argc : UInt16), e.frames = f :: callers →
    f.pending = none → f.routine.image.ops[f.pc]? = some (.callSupport i argc) →
    ∃ fn ∈ Support.all, f.routine.image.support[i.toNat]? = some fn.name ∧ f.Applies s callers fn

/-- **A thread of routines that are linked under some capabilities stays within them.** -/
theorem Execution.staysWithin_of_visits {c : Capabilities} {entry : Linked} {s : Setting}
    (hentry : entry.LinkedUnder c)
    (hvariants : ∀ k l, s.variants.find? k = some l → l.LinkedUnder c)
    {e : Execution} (he : (Execution.start entry).Visits s e) : e.StaysWithin c s := by
  have hconfined : ∀ k l, s.variants.find? k = some l → l.ConfinedTo c :=
    fun k l hl => (hvariants k l hl).confinedTo
  have hstart : (Frame.within s hconfined).HoldsOf (Execution.start entry) := by
    intro f hf
    rw [List.mem_singleton.mp hf]
    exact ⟨.start entry [], hentry.confinedTo⟩
  have hholds := (Frame.within s hconfined).visits hstart he
  refine ⟨fun σ o bound steps w stop => ?_, fun f callers i argc _ hnone hop => ?_⟩
  · exact Allowed.history hconfined steps (fun _ _ hmem => (List.not_mem_nil hmem).elim) hholds
  · exact f.exists_applies hnone hop s callers

/-! ## Who has granted what -/

namespace Compiler

variable {c : Compiler} {cache : Cache} {p : Program}

theorem linkedUnder_of_obtain {ref : ScriptRef} {r : Routine} {stats stats' : Stats} {l : Linked}
    (h : c.obtain cache p ref r stats = (.ok l, stats')) (hnone : cache.find? ref = none) :
    l.LinkedUnder c.capabilities := by
  rw [obtain, hnone] at h
  unfold build at h
  dsimp only at h
  split at h
  · cases h
  · split at h
    · cases h
    · next hload =>
      cases h
      exact Image.linkedUnder_of_load hload

/-- What a compiler hands out is what was kept, or is linked under its own capabilities. -/
theorem linkedUnder_of_compileProgram {number : Nat} {thread : CompiledThread}
    (h : (c.compileProgram cache number p).outcome = .ok thread) {ref : ScriptRef} {l : Linked}
    (hl : thread.routine? number ref = some l) (hnone : cache.find? ref = none) :
    l.LinkedUnder c.capabilities := by
  unfold compileProgram at h
  split at h
  · cases h
  next entry _ hentry =>
  split at h
  · cases h
  next variants _ hvariants =>
  cases h
  have hall := forall₂_of_obtainAll
    (R := fun k _ l => cache.find? (.variant k) = none → l.LinkedUnder c.capabilities)
    (fun _ _ _ _ _ h => linkedUnder_of_obtain h) hvariants
  cases ref with
  | script n =>
    rw [CompiledThread.routine?] at hl
    split at hl
    · next hn =>
      cases hl
      exact linkedUnder_of_obtain hentry (hn ▸ hnone)
    · cases hl
  | «variant» k =>
    obtain ⟨e, -, hkey, hlinked⟩ := exists_mem_of_forall₂ hall (VariantTable.mem_of_find? hl)
    rw [hkey] at hlinked
    exact hlinked hnone

end Compiler

namespace Project

variable {start before after q q' : Project} {compiler target number : Nat} {c : Compiler}
  {ref : ScriptRef} {l : Linked}

/-- A call by a compiler has stored the routine: nothing was kept before the call, and now the
routine is. -/
structure Stores (before after : Project) (c : Compiler) (target : Nat) (ref : ScriptRef)
    (l : Linked) : Prop where
  called : ∃ compiler caller number outcome, before.compilers[compiler]? = some c
    ∧ before.compile compiler caller number = some (outcome, after)
  empty : before.kept target ref = none
  kept : after.kept target ref = some l

/-- **What a compiler stores it has linked itself.** -/
theorem Stores.linkedUnder (h : before.Stores after c target ref l) :
    l.LinkedUnder c.capabilities := by
  obtain ⟨⟨compiler, target', number, outcome, hc, hcompile⟩, hempty, hkept⟩ := h
  obtain ⟨c', hc', hcases⟩ := compile_cases hcompile
  cases hc.symm.trans hc'
  have hchanged : after.kept target ref ≠ before.kept target ref := by
    rw [hempty, hkept]
    exact Option.some_ne_none l
  rcases hcases with ⟨-, -, -, rfl⟩ | ⟨p, -, -, rfl⟩
  · exact absurd rfl hchanged
  rcases before.kept_afterCompilation compiler target'
    (c.compileProgram (before.cacheOf target') number p) target ref with
    ⟨hcache, hsame⟩ | ⟨-, hsame⟩
  · have hnone : (before.cacheOf target').find? ref = none := by
      rw [hsame, Project.kept] at hempty
      exact hempty
    rw [hkept] at hcache
    rcases c.compileProgram_cases (before.cacheOf target') number p
      with ⟨e, -, hfailed⟩ | ⟨thread, hok, -, -, hstored⟩
    · rw [hfailed, hnone] at hcache
      cases hcache
    · rw [hstored, hnone, Option.none_or] at hcache
      exact Compiler.linkedUnder_of_compileProgram hok hcache.symm hnone
  · exact absurd hsame hchanged

/-- What is kept, and was not at some time in the past, was stored by a call since then. -/
theorem Later.exists_stores (h : start.Later q) (hempty : start.kept target ref = none)
    (hkept : q.kept target ref = some l) :
    ∃ before after c, start.Later before ∧ before.Stores after c target ref l ∧ after.Later q := by
  induction h generalizing l with
  | refl =>
    rw [hempty] at hkept
    cases hkept
  | @compile q q' compiler target' number outcome hbefore hdone ih =>
    cases hq : q.kept target ref with
    | none =>
      obtain ⟨c, hc, -⟩ := compile_cases hdone
      exact ⟨q, q', c, hbefore, ⟨⟨compiler, target', number, outcome, hc, hdone⟩, hq, hkept⟩, .refl⟩
    | some l' =>
      cases (kept_of_compile hdone hq).symm.trans hkept
      obtain ⟨before, after, c, hbefore', hstores, hafter⟩ := ih hq
      exact ⟨before, after, c, hbefore', hstores, .compile hafter hdone⟩

/-- A routine that is kept now was stored by a call since the beginning; and by whatever call it was
stored, it is confined to the capabilities of the compiler that was called. -/
structure Granted (start now : Project) (target : Nat) (ref : ScriptRef) (l : Linked) : Prop where
  stored : ∃ before after c,
    start.Later before ∧ before.Stores after c target ref l ∧ after.Later now
  confined : ∀ (before after : Project) (c : Compiler), before.Stores after c target ref l →
    l.ConfinedTo c.capabilities

/-- All routines of a thread that is handed out have their names in it. -/
theorem exists_routine? (hcompile : q.compile compiler target number = some (.ok thread, q'))
    (hl : l ∈ thread.routines) : ∃ ref, thread.routine? number ref = some l := by
  rcases List.mem_cons.mp hl with rfl | hl
  · exact ⟨.script number, by simp [CompiledThread.routine?]⟩
  · obtain ⟨k, hk⟩ := VariantTable.mem_values_iff.mp hl
    obtain ⟨c, -, ⟨e, -, he, -⟩ | ⟨p, hp, hok, -⟩⟩ := compile_cases hcompile
    · cases he
    rcases c.compileProgram_cases (q.cacheOf target) number p with
      ⟨e, he, -⟩ | ⟨thread', hok', hkeys, -⟩
    · rw [he] at hok
      cases hok
    · cases hok.trans hok'
      have hnodup : thread.variants.keys.Nodup := hkeys ▸ nodup_of_generate hp
      exact ⟨.variant k, (VariantTable.find?_eq_some_iff hnodup).mpr hk⟩

/--
**A thread can do nothing but what was granted.**

Take a project in which nothing is kept at first, and any calls by any of its compilers, each with
capabilities of its own. Each routine of a thread that is handed out then was stored by one of these
calls, and it imports only primitives that the compiler of that call may use, and only support
functions that there are.

Take any routine and any table of variants that were linked under some capabilities, and let a
thread run from the beginning of the routine, on any hosts and with any outcomes of its steps. From
whatever state it gets into, it calls only primitives that are allowed. Where it calls a support
function, that is the one that the image names, and it is applied to as many values as it takes.
-/
theorem granted_of_compile {thread : CompiledThread} (hfresh : ∀ t ref, start.kept t ref = none)
    (hlater : start.Later q) (hcompile : q.compile compiler target number = some (.ok thread, q')) :
    (∀ l ∈ thread.routines, ∃ ref,
      thread.routine? number ref = some l ∧ Granted start q' target ref l)
      ∧ ∀ (c : Capabilities) (entry : Linked) (s : Setting), entry.LinkedUnder c →
        (∀ k l, s.variants.find? k = some l → l.LinkedUnder c) →
        ∀ e, (Execution.start entry).Visits s e → e.StaysWithin c s := by
  refine ⟨fun l hl => ?_, fun c entry s hentry hvariants e he => ?_⟩
  · obtain ⟨ref, href⟩ := exists_routine? hcompile hl
    have hkept := (kept_of_ok hcompile rfl href).1
    refine ⟨ref, href, (hlater.compile hcompile).exists_stores (hfresh target ref) hkept, ?_⟩
    exact fun before after c hstores => hstores.linkedUnder.confinedTo
  · exact Execution.staysWithin_of_visits hentry hvariants he

/-- A compiler that may use nothing of the host cannot compile a script that speaks. After another
one has compiled it, it is handed a routine that speaks. -/
theorem granted_of_compile_choir :
    ∃ e q₁ second q₂ third q₃, choir.compile 0 0 0 = some (.error e, q₁)
      ∧ q₁.compile 1 0 0 = some (.ok second, q₂) ∧ q₂.compile 0 0 0 = some (.ok third, q₃)
      ∧ choir.compilers.map Compiler.capabilities = [.none, .standard, .standard]
      ∧ (∃ l ∈ third.routines, "looks_say" ∈ l.image.host)
      ∧ ∀ l ∈ third.routines, ∃ ref, third.routine? 0 ref = some l ∧ Granted choir q₃ 0 ref l := by
  have hrun : ((choir.compile 0 0 0).bind fun r₁ => (r₁.2.compile 1 0 0).bind fun r₂ =>
      (r₂.2.compile 0 0 0).map fun r₃ => (r₁.1.toOption.isSome, r₂.1.toOption.isSome,
        r₃.1.toOption.map fun thread =>
          thread.routines.any fun l => l.image.host.contains "looks_say"))
      = some (false, true, some true) := by
    decide +kernel
  obtain ⟨⟨outcome₁, q₁⟩, h₁, hrun⟩ := Option.bind_eq_some_iff.mp hrun
  obtain ⟨⟨outcome₂, q₂⟩, h₂, hrun⟩ := Option.bind_eq_some_iff.mp hrun
  obtain ⟨⟨outcome₃, q₃⟩, h₃, hrun⟩ := Option.map_eq_some_iff.mp hrun
  simp only [Prod.mk.injEq] at hrun
  obtain ⟨hfail, hok₂, hok₃⟩ := hrun
  obtain ⟨third, hthird, hspeaks⟩ := Option.map_eq_some_iff.mp hok₃
  rcases outcome₁ with e | _
  · rcases outcome₂ with _ | second
    · cases hok₂
    cases eq_ok_of_toOption hthird
    refine ⟨e, q₁, second, q₂, third, q₃, h₁, h₂, h₃, rfl, by simpa using hspeaks, ?_⟩
    exact (granted_of_compile (fun _ _ => rfl) (.compile (.compile .refl h₁) h₂) h₃).1
  · cases hfail

end Project

end BlockScript
