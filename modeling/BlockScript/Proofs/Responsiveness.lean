import BlockScript.Proofs.Closure
import BlockScript.Proofs.Refinement
import BlockScript.Proofs.Rounds

/-!
# No step runs for ever

Between two places where it gives way a thread may go round in loops, enter variants and come back
from them. In the code of one routine every way comes to an end (`Linked.settles_of_compile`), calls
lead down to the limit of the call depth at most, and there are finitely many callers to come back
to (`Execution.returns_cons`). The one thing that could keep a step going is a host with time left
whenever it is asked, so for a thread in warp the time has to be used up (`Execution.Pressed`).

Main statement: a step of a compiled thread ends, if its routines look at the deadline and the time
is used up, and also if none of its routines is in warp (`Session.responsive_of_compile`).
-/

namespace BlockScript

variable {σ : Type}

namespace Execution

/-! ## Steps that end -/

/-- What is seen of the calls that the next tick makes. -/
def callsIn (h : Host σ) (s : Setting) (w : World σ) (e : Execution) : List Observation :=
  (e.tick h.recorded s ⟨(w.host, []), w.stop⟩).2.1.host.2

/-- The states that a step comes to, from its first one on. -/
inductive ComesTo (h : Host σ) (s : Setting) : World σ → Execution → World σ → Execution → Prop
  | refl {w e} : ComesTo h s w e w e
  | tick {w w₁ w' e e₁ e'} : e.tick h s w = (e₁, w₁, .next) → ComesTo h s w₁ e₁ w' e' →
    ComesTo h s w e w' e'

/-- The time is used up: no look at the deadline that the step makes finds time left. -/
def Pressed (h : Host σ) (s : Setting) (w : World σ) (e : Execution) : Prop :=
  ∀ w' e', ComesTo h s w e w' e' → .called (.deadline false) ∉ e'.callsIn h s w'

/-- A step from these frames ends, in every world. If `timed`, this need be so only where the time
is used up. -/
def Returns (timed : Prop) (h : Host σ) (s : Setting) (frames : List Frame) : Prop :=
  ∀ (w : World σ) (e : Execution), e.frames = frames → (timed → e.Pressed h s w) →
    ∃ bound r, ∀ more, e.run h s (bound + more) w = some r

variable {timed : Prop} {h : Host σ} {s : Setting} {frames callers : List Frame}

theorem tick_of_limitFault? {e : Execution} (w : World σ)
    (hlimit : limitFault? s.limits { e with ticks := e.ticks + 1 } = none) :
    e.tick h s w
      = (⟨(dispatch h s w e.frames).1, e.ticks + 1, e.stopped⟩, (dispatch h s w e.frames).2) := by
  unfold tick
  dsimp only
  rw [hlimit]

theorem exists_run_of_ending {w w₁ : World σ} {e e₁ : Execution} {flow : Flow}
    (htick : e.tick h s w = (e₁, w₁, flow)) {last : Outcome × Execution}
    (hend : flow.ending e₁ = some last) :
    ∃ bound r, ∀ more, e.run h s (bound + more) w = some r := by
  refine ⟨1, (last.1, w₁, last.2), fun more => ?_⟩
  rw [Nat.add_comm, run_succ more htick, hend]

/-- **A step returns if it does from what the next tick leaves.** -/
theorem Returns.intro (hnext : ∀ w, (dispatch h s w frames).2.2 = .next →
    (timed → .called (.deadline false)
      ∉ (dispatch h.recorded s ⟨(w.host, []), w.stop⟩ frames).2.1.host.2) →
    Returns timed h s (dispatch h s w frames).1) : Returns timed h s frames := by
  rintro w e rfl hpressed
  cases hlimit : limitFault? s.limits { e with ticks := e.ticks + 1 } with
  | some fault =>
    have htick : e.tick h s w = ({ e with ticks := e.ticks + 1 }, w, .fail fault) := by
      unfold tick
      dsimp only
      rw [hlimit]
    exact exists_run_of_ending htick rfl
  | none =>
    have htick := tick_of_limitFault? (h := h) w hlimit
    have hseen : timed → .called (.deadline false)
        ∉ (dispatch h.recorded s ⟨(w.host, []), w.stop⟩ e.frames).2.1.host.2 := by
      intro htimed
      have hcalls := hpressed htimed w e .refl
      rw [callsIn, tick_of_limitFault? _ hlimit] at hcalls
      exact hcalls
    have hreturns := hnext w
    rcases hdispatch : dispatch h s w e.frames with ⟨frames, w₁, flow⟩
    rw [hdispatch] at htick hreturns
    cases flow with
    | next =>
      obtain ⟨bound, r, hrun⟩ := hreturns rfl hseen w₁ _ rfl fun htimed w' e' hcomes =>
        hpressed htimed w' e' (.tick htick hcomes)
      refine ⟨bound + 1, r, fun more => ?_⟩
      rw [Nat.add_right_comm, run_succ _ htick]
      exact hrun more
    | suspend | finished | stopped | fail => exact exists_run_of_ending htick rfl

/-- There is nothing left to do. -/
theorem returns_nil : Returns timed h s [] := .intro fun _ hflow => by cases hflow

end Execution

/-! ## Routines that attend to the deadline -/

/-- The routine keeps its counts, every way in its code comes to an end, and it looks at the
deadline only if the thread is timed. -/
structure Linked.Attends (timed : Prop) (l : Linked) : Prop where
  keeps : l.KeepsCount
  settles : ∀ {pc}, pc < l.image.ops.length → ∀ locals, l.Settles pc locals
  timed : ∀ {c k}, .checkDeadline c k ∈ l.image.ops → timed

theorem Linked.attends_of_compile {timed : Prop} {t : Target} {scripts : List Script}
    {ref : ScriptRef} {config : CompilerConfig} {r : Routine} {p : Program} {l : Linked}
    (hr : ref.Denotes t scripts config r) (h : r.compile p config = .ok l.image)
    (hwarp : r.warp = true → config.warpTimer = true ∧ timed) : l.Attends timed := by
  obtain ⟨warp, hproper⟩ := hr.proper
  exact ⟨keepsCount_of_compile h hproper, settles_of_compile h fun hr => (hwarp hr).1,
    fun hop => (hwarp (Routine.settings_of_checkDeadline h hop).1).2⟩

namespace Execution

variable {timed : Prop} {h : Host σ} {s : Setting} {callers : List Frame} {f : Frame}

/-- A look at the deadline is seen by a host that records its calls. -/
theorem deadline_mem_of_due {w : World σ} (s : Setting) (callers : List Frame)
    (hpending : f.pending = none) {c : UInt16} {k : UInt32}
    (hop : f.routine.code[f.pc]? = some (.checkDeadline c k)) {v : Value}
    (hv : f.locals[c.toNat]? = some v)
    (hdue : (Number.ofNat k.toNat).le (v.toNumber.add 1) = true) :
    .called (.deadline (h.deadlineElapsed w.host).answer)
      ∈ (dispatch h.recorded s ⟨(w.host, []), w.stop⟩ (f :: callers)).2.1.host.2 := by
  simp only [dispatch, hpending, hop, applyEffect_world, Frame.exec, Frame.checkDeadline,
    Frame.withLocal, hv, hdue, if_true, World.after, Host.recorded, Reply.noting]
  exact List.mem_singleton.mpr rfl

section

variable (hvariants : ∀ k l, s.variants.find? k = some l → l.Attends timed)
include hvariants

/-- A step returns from a frame, if it does from its callers and from what the frame calls. -/
theorem returns_of_settles (hcallers : Returns timed h s callers)
    (hcalls : ∀ {f' : Frame} {callee : Linked} {args : List Value},
      callers.length + 1 < s.limits.maxCallDepth → Returns timed h s (f' :: callers) →
      (Frame.start callee args).Counting → callee.Attends timed →
      Returns timed h s (Frame.start callee args :: f' :: callers))
    {l : Linked} (hl : l.Attends timed) {pc : Nat} {locals : List Value}
    (hsettles : l.Settles pc locals) :
    ∀ {f : Frame}, f.routine = l → f.pc = pc → f.locals.toList = locals → f.Counting →
      Returns timed h s (f :: callers) := by
  let counting := Frame.counting s hvariants fun l hl => hl.keeps
  induction hsettles with
  | intro _ ih =>
    rintro f rfl rfl rfl hf
    have hnext : ∀ {op pc locals f'}, f.routine.image.ops[f.pc]? = some op →
        op.Leads f.pc f.locals.toList pc locals → f.IsAt f' pc locals → f'.Counting →
        Returns timed h s (f' :: callers) := fun hop hleads hat =>
      ih hf.small hop hleads hat.routine hat.pc hat.locals
    refine Returns.intro fun w hflow hseen => ?_
    cases hpending : f.pending with
    | some id =>
      obtain ⟨i, argc, hop⟩ := hf.waiting (by rw [hpending]; rfl)
      simp only [dispatch, hpending, pollFrame] at hflow ⊢
      cases hanswer : (h.poll w.host id).answer with
      | none =>
        rw [hanswer] at hflow
        cases hflow
      | some v =>
        exact hnext hop (.falls rfl) ⟨rfl, rfl, rfl⟩ (counting.resume v ⟨hf, hl⟩ hpending).1
    | none =>
      obtain ⟨op, hcode, hafter⟩ := counting.exec h callers w ⟨hf, hl⟩ hpending
      have hop : f.routine.image.ops[f.pc]? = some op := by
        rw [f.routine.code_eq, List.getElem?_toArray] at hcode
        exact hcode
      have hexec := Frame.executes_exec h s callers w f op
      simp only [dispatch, hpending, hcode] at hflow ⊢
      generalize f.exec h s callers w op = r at hafter hexec hflow ⊢
      obtain ⟨f', w', effect⟩ := r
      have hexec : f.Executes h s callers w op f' effect := hexec
      cases hexec with
      | fails | waits | yields => cases hflow
      | moves hleads hat _ heffect =>
        rcases heffect with rfl | rfl
        · exact hnext hop hleads hat hafter.1
        · exact hnext hop hleads hat hafter.1
      | asks hv hdue _ _ heffect =>
        -- The host says that the time is used up, so the thread gives way.
        have hmem := deadline_mem_of_due (h := h) (w := w) s callers hpending hcode hv hdue
        cases hanswer : (h.deadlineElapsed w.host).answer with
        | true =>
          rw [hanswer] at heffect
          cases heffect
          cases hflow
        | false =>
          rw [hanswer] at hmem
          exact absurd hmem (hseen (hl.timed (List.mem_of_getElem? hop)))
      | enters hat _ _ _ hdepth =>
        exact hcalls hdepth (hnext hop (.falls rfl) hat hafter.1.1) hafter.2.1 hafter.2.2
      | leaves => exact hcallers

/-- **A step returns from a frame, if it does from its callers.** Calls lead `depth` frames further
at most. -/
theorem returns_cons (depth : Nat) : ∀ {callers : List Frame} {f : Frame},
    s.limits.maxCallDepth ≤ callers.length + depth → Returns timed h s callers → f.Counting →
    f.routine.Attends timed → Returns timed h s (f :: callers) := by
  induction depth with
  | zero =>
    intro callers f hdepth hcallers hf hroutine
    refine returns_of_settles hvariants hcallers (fun hcall => ?_) hroutine
      (hroutine.settles hf.inside f.locals.toList) rfl rfl rfl hf
    omega
  | succ depth ih =>
    intro callers f hdepth hcallers hf hroutine
    refine returns_of_settles hvariants hcallers (fun _ hcaller => ?_) hroutine
      (hroutine.settles hf.inside f.locals.toList) rfl rfl rfl hf
    refine ih ?_ hcaller
    rw [List.length_cons]
    omega

theorem returns_of_counting (frames : List Frame)
    (hframes : ∀ f ∈ frames, f.Counting ∧ f.routine.Attends timed) : Returns timed h s frames := by
  induction frames with
  | nil => exact returns_nil
  | cons f callers ih =>
    obtain ⟨hf, hcallers⟩ := List.forall_mem_cons.mp hframes
    exact returns_cons hvariants s.limits.maxCallDepth (Nat.le_add_left _ _) (ih hcallers) hf.1 hf.2

/-- **Whatever a thread has done before, its next step returns.** -/
theorem returns_of_visits {entry : Linked} (hentry : entry.Attends timed) {e : Execution}
    (he : (Execution.start entry).Visits s e) {w : World σ} (hpressed : timed → e.Pressed h s w) :
    ∃ bound r, ∀ more, e.step h s (bound + more) w = some r := by
  have hstart :
      (Frame.counting s hvariants fun l hl => hl.keeps).HoldsOf (Execution.start entry) := by
    intro f hf
    rw [List.mem_singleton.mp hf]
    exact ⟨.start entry [] hentry.keeps, hentry⟩
  have hframes := (Frame.counting s hvariants fun l hl => hl.keeps).visits hstart he
  unfold step
  split_ifs
  · exact ⟨0, _, fun _ => rfl⟩
  · exact ⟨0, _, fun _ => rfl⟩
  · exact ⟨0, _, fun _ => rfl⟩
  · exact returns_of_counting hvariants e.frames hframes w e rfl hpressed

end

end Execution

/-! ## Compiled threads -/

namespace CompiledThread

variable {t : Target} {scripts : List Script} {number : Nat} {p : Program} {thread : CompiledThread}

/-- All routines of a thread were made of scripts and variants of the target. -/
theorem MadeOf.exists_madeFor (h : thread.MadeOf t scripts number p) {l : Linked}
    (hl : l ∈ thread.routines) : ∃ ref, l.MadeFor t scripts ref := by
  rcases List.mem_cons.mp hl with rfl | hl
  · exact ⟨_, h.entry⟩
  · obtain ⟨k, hk⟩ := VariantTable.mem_values_iff.mp hl
    obtain ⟨e, -, heq, hmade⟩ := exists_mem_of_forall₂ h.variants hk
    exact ⟨_, hmade⟩

/-- A step of a thread returns if all its routines attend to the deadline. -/
theorem returns_of_attends (timed : Prop) (hroutines : ∀ l ∈ thread.routines, l.Attends timed)
    {limits : Limits} {e : Execution}
    (he : (Execution.start thread.entry).Visits ⟨thread.variants, limits⟩ e) {h : Host σ}
    {w : World σ} (hpressed : timed → e.Pressed h ⟨thread.variants, limits⟩ w) :
    ∃ bound r, ∀ more, e.step h ⟨thread.variants, limits⟩ (bound + more) w = some r := by
  refine Execution.returns_of_visits (fun k l hl => ?_) (hroutines _ List.mem_cons_self) he hpressed
  exact hroutines l (List.mem_cons_of_mem _
    (VariantTable.mem_values_iff.mpr ⟨k, VariantTable.mem_of_find? hl⟩))

end CompiledThread

namespace Session

/--
**No step runs for ever.**

Take a compiled thread with any limits, in any state that it can get into, and any host. If all its
routines were made with looks at the deadline, and no look that the step makes finds time left, then
the step ends: it has an outcome, which is the same for all sufficiently large numbers of ticks. If
none of its routines is in warp, the step ends in any case.
-/
theorem responsive_of_compile {start s s' : Session} {compiler thread : Nat}
    {compiled : CompiledThread} (hstart : start.cache = {}) (hs : start.Later s)
    (hcompile : s.compile compiler thread = some (.ok compiled, s')) {limits : Limits}
    {e : Execution} (he : (Execution.start compiled.entry).Visits ⟨compiled.variants, limits⟩ e)
    {σ : Type} (h : Host σ) (w : World σ) :
    ((∀ l ∈ compiled.routines, l.MadeWith s.target s.scripts true) →
      e.Pressed h ⟨compiled.variants, limits⟩ w →
      ∃ bound r, ∀ more, e.step h ⟨compiled.variants, limits⟩ (bound + more) w = some r)
    ∧ ((∀ l ∈ compiled.routines, l.image.warp = false) →
      ∃ bound r, ∀ more, e.step h ⟨compiled.variants, limits⟩ (bound + more) w = some r) := by
  refine ⟨fun hmade hpressed => ?_, fun hwarp => ?_⟩
  · refine CompiledThread.returns_of_attends True (fun l hl => ?_) he fun _ => hpressed
    obtain ⟨ref, c, r, p, hr, hl, htimer⟩ := hmade l hl
    exact Linked.attends_of_compile hr hl fun _ => ⟨htimer, trivial⟩
  · obtain ⟨c, number, script, p, -, -, -, hmade⟩ := (hs.faithful hstart).exists_madeOf hcompile
    refine CompiledThread.returns_of_attends False (fun l hl => ?_) he fun hfalse => hfalse.elim
    obtain ⟨ref, c', r, p', hr, hl'⟩ := hmade.exists_madeFor hl
    refine Linked.attends_of_compile hr hl' fun hr' => ?_
    have hnot := hwarp l hl
    rw [(Routine.compile_eq_ok hl').1] at hnot
    cases hnot.symm.trans hr'

end Session

/-- A host that finds the time used up in all states of a kind presses the thread. -/
theorem Execution.Pressed.of_keeps {h : Host σ} {P : World σ → Prop} (hP : h.Keeps P)
    (hdeadline : ∀ w, P w → (h.deadlineElapsed w.host).answer = true) {w : World σ} (hw : P w)
    (s : Setting) (e : Execution) : e.Pressed h s w := by
  intro w' e' hcomes
  have hw' : P w' := by
    induction hcomes with
    | refl => exact hw
    | @tick w _ _ e _ _ htick _ ih =>
      have hkept := tick_keeps (s := s) hP hw e
      rw [htick] at hkept
      exact ih hkept
  unfold callsIn
  rcases tick_cases (h := h.recorded) (s := s) ⟨(w'.host, []), w'.stop⟩ e' with
    ⟨e₁, fault, -, -, htick⟩ | ⟨e₁, -, -, htick⟩
  · rw [htick]
    exact List.not_mem_nil
  · rw [htick]
    rcases callsOnce_dispatch (h := h.recorded) (s := s) ⟨(w'.host, []), w'.stop⟩ e'.frames with
      hworld | ⟨call, hworld, -⟩
    · rw [hworld]
      exact List.not_mem_nil
    · rw [hworld]
      cases call with
      | deadline elapsed =>
        simp [Host.afterCall, World.after, Host.recorded, Reply.noting, hdeadline w' hw']
      | escape | primitive | poll | get | set | now =>
        simp [Host.afterCall, World.after, Host.recorded, Reply.noting]

/-- A scripted host that finds the time used up does so for ever. -/
theorem ScriptedHost.keeps_elapsed : host.Keeps fun w => w.host.deadlines = [true] := by
  have htake : ∀ (x : ScriptedHost) (name : String),
      (x.takeResult name).2.deadlines = x.deadlines := by
    intro x name
    unfold takeResult
    split <;> rfl
  constructor
  case callPrimitive =>
    intro w name args hw
    simp only [World.after, host, callPrimitive]
    split <;> exact (htake _ _).trans hw
  case poll =>
    intro w id hw
    simp only [World.after, host, poll]
    split
    · split <;> exact hw
    · exact hw
  case evaluate =>
    intro w block opcode inputs hw
    exact (htake _ _).trans hw
  case deadlineElapsed =>
    intro w hw
    simp only [World.after, host, deadlineElapsed, takeDeadline, hw, takeNext]
    rfl
  all_goals
    intro w
    intros
    assumption

/-- A script that counts for ever, three times in each round. -/
def Target.spinner : Target where
  blocks := .ofList
    [{ opcode := "control_forever", inputs := [("SUBSTACK", .block 1)] },
     { opcode := "control_repeat",
       inputs := [("TIMES", .literal (.text "3")), ("SUBSTACK", .block 2)] },
     { opcode := "data_changevariableby", fields := [("VARIABLE", "turns")],
       inputs := [("VALUE", .literal (.text "1"))] }]

/-- The script of `Target.spinner`, in warp or not. -/
def Target.spinnerScript (warp : Bool) : Script := ⟨"main", spinner.blocks, some 0, warp⟩

namespace Session

/-- The beginning of a session with both scripts of `Target.spinner`. -/
def spinner : Session where
  target := Target.spinner
  scripts := [Target.spinnerScript true, Target.spinnerScript false]
  compilers := [{}]
  host := {}

theorem responsive_of_compile_spinner :
    (∃ compiled s', (spinner.newThread 0).compile 0 0 = some (.ok compiled, s')
      ∧ ((Execution.start compiled.entry).step ScriptedHost.host ⟨compiled.variants, {}⟩ 500
        ⟨{ deadlines := [true] }, false⟩).map Prod.fst = some (.yielded .soft)
      ∧ (∀ l ∈ compiled.routines, l.MadeWith Target.spinner spinner.scripts true)
      ∧ ∃ bound r, ∀ more, (Execution.start compiled.entry).step ScriptedHost.host
        ⟨compiled.variants, {}⟩ (bound + more) ⟨{ deadlines := [true] }, false⟩ = some r)
    ∧ ∃ compiled s', (spinner.newThread 1).compile 0 0 = some (.ok compiled, s')
      ∧ (∀ l ∈ compiled.routines, l.image.warp = false)
      ∧ ∃ bound r, ∀ more, (Execution.start compiled.entry).step ScriptedHost.host
        ⟨compiled.variants, {}⟩ (bound + more) ⟨{}, false⟩ = some r := by
  have hempty : spinner.cache = {} := rfl
  constructor
  · have hrun : (((spinner.newThread 0).compile 0 0).bind fun r => r.1.toOption.map fun compiled =>
        (compiled.routines.length, ((Execution.start compiled.entry).step ScriptedHost.host
          ⟨compiled.variants, {}⟩ 500 ⟨{ deadlines := [true] }, false⟩).map Prod.fst))
        = some (1, some (.yielded .soft)) := by
      decide +kernel
    obtain ⟨⟨outcome, s'⟩, hcompile, hcompiled⟩ := Option.bind_eq_some_iff.mp hrun
    obtain ⟨compiled, houtcome, hyielded⟩ := Option.map_eq_some_iff.mp hcompiled
    cases eq_ok_of_toOption houtcome
    obtain ⟨hone, hyielded⟩ := Prod.mk.inj hyielded
    obtain ⟨c, number, script, hc, hscript, -, -, hcases⟩ := compile_cases hcompile
    cases hc
    cases hscript
    rcases hcases with ⟨e, -, he, -⟩ | ⟨p, hp, hthread, -⟩
    · cases he
    have hentry := (Compiler.linkedIn_of_compileProgram hthread.symm).1
    have hmade : ∀ l ∈ compiled.routines, l.MadeWith Target.spinner spinner.scripts true := by
      intro l hl
      obtain ⟨a, ha⟩ := List.length_eq_one_iff.mp hone
      obtain ⟨rfl, -⟩ := List.cons.inj ha
      rw [ha] at hl
      rw [List.mem_singleton.mp hl]
      exact ⟨.script 0, _, _, p, ⟨_, rfl, (Target.generatedBy_of_generate hp).entry⟩, hentry, rfl⟩
    have hpressed := Execution.Pressed.of_keeps ScriptedHost.keeps_elapsed
      (fun w hw => by simp [ScriptedHost.host, ScriptedHost.deadlineElapsed,
        ScriptedHost.takeDeadline, ScriptedHost.takeNext, hw])
      (w := ⟨{ deadlines := [true] }, false⟩) rfl
      ⟨compiled.variants, {}⟩ (Execution.start compiled.entry)
    exact ⟨compiled, s', hcompile, hyielded, hmade,
      (responsive_of_compile hempty (.newThread 0 .refl) hcompile .start _ _).1 hmade hpressed⟩
  · have hrun : (((spinner.newThread 1).compile 0 0).bind fun r => r.1.toOption.map fun compiled =>
        compiled.routines.all fun l => !l.image.warp) = some true := by
      decide +kernel
    obtain ⟨⟨outcome, s'⟩, hcompile, hcompiled⟩ := Option.bind_eq_some_iff.mp hrun
    obtain ⟨compiled, houtcome, hwarp⟩ := Option.map_eq_some_iff.mp hcompiled
    cases eq_ok_of_toOption houtcome
    have hwarp : ∀ l ∈ compiled.routines, l.image.warp = false := by
      intro l hl
      have hnot := List.all_eq_true.mp hwarp l hl
      rwa [Bool.not_eq_true'] at hnot
    exact ⟨compiled, s', hcompile, hwarp,
      (responsive_of_compile hempty (.newThread 1 .refl) hcompile .start _ _).2 hwarp⟩

end Session

end BlockScript
