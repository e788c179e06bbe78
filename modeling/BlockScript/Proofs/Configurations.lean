import BlockScript.Proofs.Closure
import BlockScript.Proofs.Courses
import BlockScript.Proofs.Threads
import BlockScript.Proofs.Views

/-!
# Settings do not change what a thread does

The settings of a compiler say whether loops in warp look at the deadline, and how often. Compiled
with different settings a thread has different code: instructions and local slots for the deadline
come on top, so all else has other positions. On a host for which the time is never used up it does
the same.

The courses of both threads are compared place by place. At an instruction for the deadline one of
the threads moves alone, which cannot go on for ever, since each time fewer instructions of the
frame remain (`Place.remaining`). Otherwise both move together.

Main statement: looks at the deadline aside, what is seen of the one thread is what is seen of the
other (`Session.reports_alike_of_compile`).
-/

namespace BlockScript

variable {σ : Type} {R : σ → σ → Prop} {o : Outside σ} {s s' : Setting}

/-! ## Looks at the deadline aside -/

/-- The thread was seen to look at the deadline. -/
def Observation.isLook : Observation → Bool
  | .called (.deadline _) => true
  | _ => false

/-- What was seen, looks at the deadline aside. -/
def Observation.withoutLooks (seen : List Observation) : List Observation :=
  seen.filter fun e => !e.isLook

/-- The report, looks at the deadline aside. -/
def Report.withoutLooks (r : Report) : Report := { r with seen := Observation.withoutLooks r.seen }

theorem Report.Within.withoutLooks {a b : Report} (h : a.Within b) :
    a.withoutLooks.Within b.withoutLooks :=
  ⟨h.1.filter _, fun hsome => by rw [h.2 hsome]⟩

/-- The states are related, and the same was seen, looks at the deadline aside. -/
def SeenAlike (R : σ → σ → Prop) (x y : σ × List Observation) : Prop :=
  R x.1 y.1 ∧ Observation.withoutLooks x.2 = Observation.withoutLooks y.2

namespace SeenAlike

variable {x y : σ × List Observation}

theorem append (h : SeenAlike R x y) {a b : σ} (hab : R a b) (e : Observation) :
    SeenAlike R (a, x.2 ++ [e]) (b, y.2 ++ [e]) := by
  refine ⟨hab, ?_⟩
  have hseen := h.2
  unfold Observation.withoutLooks at hseen ⊢
  rw [List.filter_append, List.filter_append, hseen]

theorem noting (h : SeenAlike R x y) {α : Type} {a b : Reply σ α} (hab : a.Same R b)
    (e : HostEvent) : (a.noting x.2 e).Same (SeenAlike R) (b.noting y.2 e) :=
  ⟨⟨hab.1.1, h.append hab.1.2 _⟩, hab.2⟩

end SeenAlike

/-- Who does not care about looks at the deadline does not care about them if all is recorded
either. -/
theorem Outside.Overlooks.recorded (ho : o.Overlooks R) : o.recorded.Overlooks (SeenAlike R) where
  symm h := ⟨ho.symm h.1, h.2.symm⟩
  deadlineElapsed {x y} h := by
    obtain ⟨hanswer, hstop, hhost⟩ := ho.deadlineElapsed h.1
    refine ⟨hanswer, hstop, hhost, ?_⟩
    rw [← h.2]
    change Observation.withoutLooks (x.2 ++ [.called (.deadline _)]) = _
    simp [Observation.withoutLooks, Observation.isLook]
  evaluate h block opcode inputs := h.noting (ho.evaluate h.1 block opcode inputs) _
  callPrimitive h name args := h.noting (ho.callPrimitive h.1 name args) _
  poll h id := h.noting (ho.poll h.1 id) _
  getVariable h name := h.noting (ho.getVariable h.1 name) _
  setVariable h name v := h.noting (ho.setVariable h.1 name v) _
  now h := h.noting (ho.now h.1) _
  resume h kind := h.append (ho.resume h.1 kind) _

/-! ## Courses side by side -/

namespace Place

/-- At both places the threads are seen in the same way. -/
inductive Alike (R : σ → σ → Prop) : Place σ → Place σ → Prop
  | ready {fs gs : List Frame} {w u : World σ} (hframes : List.Forall₂ Frame.Alike fs gs)
    (hw : w.Alike R u) : Alike R (.ready fs w) (.ready gs u)
  | inside {fs gs : List Frame} {w u : World σ} (hframes : List.Forall₂ Frame.Alike fs gs)
    (hw : w.Alike R u) : Alike R (.inside fs w) (.inside gs u)
  | ended {w u : World σ} (outcome : Outcome) (hw : w.Alike R u) :
    Alike R (.ended outcome w) (.ended outcome u)

/-- The instructions from here on in the innermost frame. -/
def remaining : Place σ → Nat
  | .inside frames _ => Execution.remaining frames
  | .ready _ _ | .ended _ _ => 0

/-- Threads that have taken a tick together are at places alike, unless one has come to a limit. -/
theorem alike_settle (ho : o.Overlooks R) {a b : List Frame × World σ × Flow}
    (h : Execution.InStep R a b) (ha : ¬ (settle o a).Limited) (hb : ¬ (settle o b).Limited) :
    Alike R (settle o a) (settle o b) := by
  cases h with
  | going flow hframes hw =>
    cases flow with
    | next => exact .inside hframes hw
    | suspend kind => exact .ready hframes ⟨ho.resume hw.1 kind, hw.2⟩
    | finished | stopped => exact .ended _ hw
    | fail fault =>
      rw [settle, settle, Execution.names_of_alike hframes]
      exact .ended _ hw
  | failing fault hnames hw =>
    rw [settle, settle, hnames]
    exact .ended _ hw
  | limitLeft hlimit => exact absurd hlimit ha
  | limitRight hlimit => exact absurd hlimit hb

namespace Alike

variable {p q : Place σ}

/-- From places alike one thread moves alone and nothing is seen of it, or both move together. -/
theorem turn_cases (ho : o.Overlooks R)
    (hs : ∀ key, Option.Rel Linked.Alike (s.variants.find? key) (s'.variants.find? key))
    (h : p.Alike R q) (hp : ¬ (p.turn o s).Limited) (hq : ¬ (q.turn o s').Limited) :
    Alike R (p.turn o s) q ∨ (Alike R p (q.turn o s') ∧ (q.turn o s').remaining < q.remaining)
      ∨ Alike R (p.turn o s) (q.turn o s') := by
  cases h with
  | ended outcome hw => exact Or.inl (.ended outcome hw)
  | @ready fs gs w u hframes hw =>
    refine Or.inr (Or.inr ?_)
    have hempty : fs.isEmpty = gs.isEmpty := by cases hframes <;> rfl
    rw [turn, turn, hempty, hw.2]
    split_ifs
    · exact .ended _ hw
    · exact .ended _ hw
    · exact .inside hframes hw
  | @inside fs gs w u hframes hw =>
    rcases Execution.alike_cases ho hs hframes hw with
      ⟨fs', w', hdispatch, hframes', hw', -⟩ | ⟨gs', u', hdispatch, hframes', hu', hless⟩ | hstep
    · rw [turn, hdispatch]
      exact Or.inl (.inside hframes' hw')
    · rw [turn, turn, hdispatch]
      refine Or.inr (Or.inl ⟨.inside ?_ (hu'.symm ho), hless⟩)
      exact List.Forall₂.flip (hframes'.imp fun _ _ h => h.symm)
    · exact Or.inr (Or.inr (alike_settle ho hstep hp hq))

section Unlimited

variable (ho : o.Overlooks R)
  (hs : ∀ key, Option.Rel Linked.Alike (s.variants.find? key) (s'.variants.find? key))

include ho hs

/-- What one thread does in a turn, the other one does in some. -/
theorem exists_turns (h : p.Alike R q) (hp : ¬ (p.turn o s).Limited)
    (hq : ∀ j, ¬ ((turn o s')^[j] q).Limited) : ∃ j, Alike R (p.turn o s) ((turn o s')^[j] q) := by
  -- by induction on the instructions that remain, for turns of which nothing is seen
  induction hn : q.remaining using Nat.strongRecOn generalizing q with
  | ind n ih =>
    rcases h.turn_cases ho hs hp (hq 1) with halone | ⟨halone, hless⟩ | htogether
    · exact ⟨0, halone⟩
    · obtain ⟨j, hj⟩ := ih _ (hn ▸ hless) halone (fun j => hq (j + 1)) rfl
      exact ⟨j + 1, hj⟩
    · exact ⟨1, htogether⟩

theorem exists_iterate (h : p.Alike R q) (hp : ∀ i, ¬ ((turn o s)^[i] p).Limited)
    (hq : ∀ j, ¬ ((turn o s')^[j] q).Limited) (i : Nat) :
    ∃ j, Alike R ((turn o s)^[i] p) ((turn o s')^[j] q) := by
  induction i with
  | zero => exact ⟨0, h⟩
  | succ i ih =>
    obtain ⟨j, hj⟩ := ih
    have hturn := hp (i + 1)
    rw [Function.iterate_succ_apply'] at hturn ⊢
    have hq' : ∀ k, ¬ ((turn o s')^[k] ((turn o s')^[j] q)).Limited := by
      intro k
      rw [← Function.iterate_add_apply]
      exact hq (k + j)
    obtain ⟨k, hk⟩ := hj.exists_turns ho hs hturn hq'
    rw [← Function.iterate_add_apply] at hk
    exact ⟨k + j, hk⟩

end Unlimited

theorem report_eq {p q : Place (σ × List Observation)} (h : p.Alike (SeenAlike R) q) :
    p.report.withoutLooks = q.report.withoutLooks := by
  cases h with
  | ready _ hw | inside _ hw | ended _ hw => exact congrArg (Report.mk · _) hw.1.2

end Alike

end Place

/-- **Without the deadline the same routines do the same**: what is seen of one thread is a part of
what is seen of the other, looks at the deadline aside. -/
theorem Linked.Alike.exists_within {l l' : Linked} (hl : l.Alike l') (ho : o.Overlooks R)
    (hs : ∀ key, Option.Rel Linked.Alike (s.variants.find? key) (s'.variants.find? key)) {w : σ}
    (hw : R w w) (hfree : l.Unlimited o s w) (hfree' : l'.Unlimited o s' w) (bound steps : Nat) :
    ∃ bound' steps', (l.report o s w bound steps).withoutLooks.Within
      (l'.report o s' w bound' steps').withoutLooks := by
  have houtset : (l.outset (w, [])).Alike (SeenAlike R) (l'.outset (w, [])) :=
    .ready (.cons (hl.start []) .nil) ⟨⟨hw, rfl⟩, rfl⟩
  obtain ⟨i, hi, -⟩ := hfree.reachedIn_course bound steps
  obtain ⟨j, hj⟩ := houtset.exists_iterate ho.recorded hs hfree.not_limited hfree'.not_limited i
  have hlater := Report.within_of_reachedIn course_within_succ (hfree'.reachedIn_course j j)
  rw [Nat.min_self] at hlater
  refine ⟨j, j, ?_⟩
  rw [hi, course, hj.report_eq]
  exact hlater.withoutLooks

/-! ## Scripted hosts -/

/-- The time is never used up, and the hosts differ in what they have recorded only. -/
def ScriptedHost.Unhurried (x y : ScriptedHost) : Prop :=
  x.deadlines = [] ∧ ∃ events, y = { x with events := events }

namespace ScriptedHost

variable {x y : ScriptedHost}

theorem Unhurried.record (h : x.Unhurried y) (e : HostEvent) :
    (x.record e).Unhurried (y.record e) := by
  obtain ⟨hx, events, rfl⟩ := h
  exact ⟨hx, _, rfl⟩

theorem Unhurried.takeResult (h : x.Unhurried y) (name : String) :
    (x.takeResult name).1 = (y.takeResult name).1
      ∧ (x.takeResult name).2.Unhurried (y.takeResult name).2 := by
  obtain ⟨hx, events, rfl⟩ := h
  simp only [ScriptedHost.takeResult]
  split <;> exact ⟨rfl, hx, _, rfl⟩

end ScriptedHost

/-- Scripted hosts do not care how often one looks at the deadline. -/
theorem Outside.overlooks_scripted : Outside.scripted.Overlooks ScriptedHost.Unhurried where
  symm := by
    rintro x y ⟨hx, events, rfl⟩
    exact ⟨hx, x.events, rfl⟩
  deadlineElapsed := by
    rintro x y ⟨hx, events, rfl⟩
    have hlook : scripted.host.deadlineElapsed x = ⟨false, x.record (.deadline false), false⟩ := by
      change ScriptedHost.deadlineElapsed x = _
      rw [ScriptedHost.deadlineElapsed, ScriptedHost.takeDeadline, hx]
      rfl
    rw [hlook]
    exact ⟨rfl, rfl, hx, events, rfl⟩
  evaluate := by
    intro x y h block opcode inputs
    obtain ⟨hanswer, hhost⟩ := (h.record (.escape block opcode inputs)).takeResult opcode
    obtain ⟨-, events, rfl⟩ := h
    exact ⟨⟨hanswer, hhost⟩, rfl⟩
  callPrimitive := by
    intro x y h name args
    obtain ⟨hanswer, hx, events', hhost⟩ := (h.record (.primitive name args)).takeResult name
    obtain ⟨-, events, rfl⟩ := h
    change (ScriptedHost.callPrimitive x name args).Same _ (ScriptedHost.callPrimitive _ name args)
    simp only [ScriptedHost.callPrimitive, ← hanswer, hhost]
    split <;> exact ⟨⟨rfl, hx, events', rfl⟩, rfl⟩
  poll := by
    rintro x y ⟨hx, events, rfl⟩ id
    change (ScriptedHost.poll x id).Same _ (ScriptedHost.poll _ id)
    simp only [ScriptedHost.poll]
    split
    · split <;> exact ⟨⟨rfl, hx, _, rfl⟩, rfl⟩
    · exact ⟨⟨rfl, hx, _, rfl⟩, rfl⟩
  getVariable := by
    rintro x y ⟨hx, events, rfl⟩ name
    exact ⟨⟨rfl, hx, _, rfl⟩, rfl⟩
  setVariable := by
    rintro x y ⟨hx, events, rfl⟩ name v
    exact ⟨⟨rfl, hx, _, rfl⟩, rfl⟩
  now := by
    rintro x y ⟨hx, events, rfl⟩
    exact ⟨⟨rfl, hx, _, rfl⟩, rfl⟩
  resume := by
    rintro x y ⟨hx, events, rfl⟩ kind
    exact ⟨hx, events, rfl⟩

/-! ## Compiled threads -/

namespace Linked.MadeFor

variable {t : Target} {scripts : List Script} {ref : ScriptRef} {l l' : Linked}

/-- All that is made of one script or variant is the same without the deadline. -/
theorem alike (h : l.MadeFor t scripts ref) (h' : l'.MadeFor t scripts ref) : l.Alike l' := by
  obtain ⟨c, r, p, hr, hcompile⟩ := h
  obtain ⟨c', r', p', hr', hcompile'⟩ := h'
  obtain ⟨warp, hproper⟩ := hr.proper
  obtain ⟨warp', hproper'⟩ := hr'.proper
  have hplain : r.plain = r'.plain := by rw [Routine.plain, hr.untimed hr', Routine.plain]
  refine ⟨r.plain, r.marking c, r'.marking c', Routine.renders_of_compile hcompile hproper, ?_⟩
  rw [hplain]
  exact Routine.renders_of_compile hcompile' hproper'

/-- Outside warp it is the same. -/
theorem image_eq (h : l.MadeFor t scripts ref) (h' : l'.MadeFor t scripts ref)
    (hwarp : l.image.warp = false) : l.image = l'.image := by
  obtain ⟨c, r, p, hr, hcompile⟩ := h
  obtain ⟨c', r', p', hr', hcompile'⟩ := h'
  have himage := (Routine.compile_eq_ok hcompile).1
  have himage' := (Routine.compile_eq_ok hcompile').1
  have huntimed := hr.untimed hr'
  have hr : r.warp = false := by rwa [himage] at hwarp
  have hr' : r'.warp = false := (congrArg Routine.warp huntimed).symm.trans hr
  rw [himage, himage', Routine.image_of_not_warp hr, Routine.image_of_not_warp hr', Routine.plain,
    huntimed, Routine.plain]

end Linked.MadeFor

namespace CompiledThread

variable {t : Target} {scripts : List Script} {number : Nat} {p p' : Program}
  {thread thread' : CompiledThread}

/-- The images of the thread, those of variants under their keys. -/
def images (thread : CompiledThread) : Image × List (VariantKey × Image) :=
  (thread.entry.image, thread.variants.entries.map fun e => (e.1, e.2.image))

/-- Threads of programs with the same variants have the same variants. -/
theorem MadeOf.forall₂ (h : thread.MadeOf t scripts number p)
    (h' : thread'.MadeOf t scripts number p') (hp : p.Alike p') :
    List.Forall₂ (fun v v' => v.1 = v'.1 ∧ v.2.MadeFor t scripts (.variant v.1)
        ∧ v'.2.MadeFor t scripts (.variant v.1))
      thread.variants.entries thread'.variants.entries := by
  have hvariants := h.variants
  have hvariants' := h'.variants
  have hprocedures := hp.procedures
  rw [VariantTable.Alike] at hprocedures
  generalize p.procedures.entries = es at hprocedures hvariants
  generalize p'.procedures.entries = es' at hprocedures hvariants'
  generalize thread.variants.entries = vs at hvariants
  generalize thread'.variants.entries = vs' at hvariants'
  induction hprocedures generalizing vs vs' with
  | nil =>
    cases hvariants
    cases hvariants'
    exact .nil
  | cons he _ ih =>
    cases hvariants with
    | cons hv hrest =>
      cases hvariants' with
      | cons hv' hrest' =>
        obtain ⟨hkey, hv⟩ := hv
        obtain ⟨hkey', hv'⟩ := hv'
        rw [← he.1] at hkey' hv'
        rw [hkey] at hkey' hv hv'
        exact .cons ⟨hkey', hv, hv'⟩ (ih _ hrest _ hrest')

theorem MadeOf.find?_rel (h : thread.MadeOf t scripts number p)
    (h' : thread'.MadeOf t scripts number p') (hp : p.Alike p') (key : VariantKey) :
    Option.Rel Linked.Alike (thread.variants.find? key) (thread'.variants.find? key) :=
  VariantTable.find?_rel (R := fun _ => Linked.Alike)
    ((h.forall₂ h' hp).imp fun _ _ hv => ⟨hv.1, hv.2.1.alike hv.2.2⟩) key

theorem MadeOf.images_eq (h : thread.MadeOf t scripts number p)
    (h' : thread'.MadeOf t scripts number p') (hp : p.Alike p')
    (hwarp : ∀ l ∈ thread.routines, l.image.warp = false) : thread.images = thread'.images := by
  have hvariants := h.forall₂ h' hp
  have hwarp' : ∀ v ∈ thread.variants.entries, v.2.image.warp = false := fun v hv =>
    hwarp _ (List.mem_cons_of_mem _ (VariantTable.mem_values_iff.mpr ⟨v.1, hv⟩))
  rw [images, images, h.entry.image_eq h'.entry (hwarp _ List.mem_cons_self)]
  congr 1
  generalize thread.variants.entries = vs at hvariants hwarp'
  generalize thread'.variants.entries = vs' at hvariants
  induction hvariants with
  | nil => rfl
  | cons hv _ ih =>
    rw [List.forall_mem_cons] at hwarp'
    rw [List.map_cons, List.map_cons, hv.1, hv.2.1.image_eq hv.2.2 hwarp'.1, ih hwarp'.2]

end CompiledThread

namespace Session

variable {start s s' s'' : Session} {compiler compiler' thread : Nat}
  {first second : CompiledThread}

/--
**Settings do not change what a thread does.**

Take two compilers of a session, with whatever settings, and a thread that both of them can compile.
If no routine is in warp, both get the same images.

In any case, let what they get run on a host for which the time is never used up, and which does not
care how often one looks. If neither run comes to a limit, then what is seen of the one is what is
seen of the other, looks at the deadline aside: all calls to the host with their arguments, all the
times the thread gives way, and how it ends if it does.
-/
theorem reports_alike_of_compile (hstart : start.cache = {}) (hs : start.Later s)
    (hfirst : s.compile compiler thread = some (.ok first, s'))
    (hsecond : s.compile compiler' thread = some (.ok second, s'')) :
    ((∀ l ∈ first.routines, l.image.warp = false) → first.images = second.images)
      ∧ ∀ (σ : Type) (o : Outside σ) (R : σ → σ → Prop) (w : σ), o.Overlooks R → R w w →
        first.entry.Unlimited o first.setting w → second.entry.Unlimited o second.setting w →
        (∀ bound steps, ∃ bound' steps',
          (first.entry.report o first.setting w bound steps).withoutLooks.Within
            (second.entry.report o second.setting w bound' steps').withoutLooks)
        ∧ ∀ bound steps, ∃ bound' steps',
          (second.entry.report o second.setting w bound steps).withoutLooks.Within
            (first.entry.report o first.setting w bound' steps').withoutLooks := by
  have hfaithful := hs.faithful hstart
  obtain ⟨c, number, script, p, -, hscript, hp, hmade⟩ := hfaithful.exists_madeOf hfirst
  obtain ⟨c', number', script', p', -, hscript', hp', hmade'⟩ := hfaithful.exists_madeOf hsecond
  cases hscript.symm.trans hscript'
  have halike := Target.alike_of_generate hp hp'
  have halike' := Target.alike_of_generate hp' hp
  refine ⟨hmade.images_eq hmade' halike, fun σ o R w ho hw hfree hfree' => ⟨?_, ?_⟩⟩
  · exact (hmade.entry.alike hmade'.entry).exists_within ho (hmade.find?_rel hmade' halike) hw
      hfree hfree'
  · exact (hmade'.entry.alike hmade.entry).exists_within ho (hmade'.find?_rel hmade halike') hw
      hfree' hfree

/-- The beginning of a session with a script in warp that counts to three and speaks each time. One
compiler lets loops look at the deadline in every second round, the other one does not let them look
at all. -/
def metronome : Session where
  target := { blocks := blocks }
  scripts := [⟨"main", blocks, some 0, true⟩]
  compilers := [{ config := { deadlineCheckInterval := 2 } }, { config := { warpTimer := false } }]
  host := {}
where
  blocks : Arena := .ofList
    [{ opcode := "control_repeat",
       inputs := [("TIMES", .literal (.text "3")), ("SUBSTACK", .block 1)] },
     { opcode := "data_changevariableby", fields := [("VARIABLE", "beats")],
       inputs := [("VALUE", .literal (.text "1"))], next := some 2 },
     { opcode := "looks_say", inputs := [("MESSAGE", .literal (.text "tick"))] }]

/-- The first thread looks at the deadline, and the second one does not. -/
theorem reports_alike_of_compile_metronome :
    ∃ first second s' s'', (metronome.newThread 0).compile 0 0 = some (.ok first, s')
      ∧ (metronome.newThread 0).compile 1 0 = some (.ok second, s'')
      ∧ (first.entry.report .scripted first.setting {} 100 1).seen.any Observation.isLook = true
      ∧ first.images ≠ second.images
      ∧ (first.entry.report .scripted first.setting {} 100 1).outcome = some .finished
      ∧ ∃ bound steps, (first.entry.report .scripted first.setting {} 100 1).withoutLooks
        = (second.entry.report .scripted second.setting {} bound steps).withoutLooks := by
  have hrun : (((metronome.newThread 0).compile 0 0).bind fun r =>
      ((metronome.newThread 0).compile 1 0).bind fun r' => r.1.toOption.bind fun first =>
        r'.1.toOption.map fun second =>
          ((first.entry.report .scripted first.setting {} 100 1).seen.any Observation.isLook,
            decide (first.images = second.images),
            (first.entry.report .scripted first.setting {} 100 1).outcome,
            (second.entry.report .scripted second.setting {} 100 1).outcome))
      = some (true, false, some .finished, some .finished) := by
    decide +kernel
  obtain ⟨⟨outcome, s'⟩, hfirst, hrun⟩ := Option.bind_eq_some_iff.mp hrun
  obtain ⟨⟨outcome', s''⟩, hsecond, hrun⟩ := Option.bind_eq_some_iff.mp hrun
  obtain ⟨first, houtcome, hrun⟩ := Option.bind_eq_some_iff.mp hrun
  obtain ⟨second, houtcome', hseen⟩ := Option.map_eq_some_iff.mp hrun
  cases eq_ok_of_toOption houtcome
  cases eq_ok_of_toOption houtcome'
  simp only [Prod.mk.injEq, decide_eq_false_iff_not] at hseen
  obtain ⟨hlooks, himages, hends, hends'⟩ := hseen
  have hempty : metronome.cache = {} := rfl
  have hwithin :=
    ((reports_alike_of_compile hempty (.newThread 0 .refl) hfirst hsecond).2 ScriptedHost
      .scripted ScriptedHost.Unhurried {} Outside.overlooks_scripted ⟨rfl, [], rfl⟩
      (Linked.unlimited_of_report hends id) (Linked.unlimited_of_report hends' id)).1 100 1
  obtain ⟨bound, steps, hwithin⟩ := hwithin
  refine ⟨first, second, s', s'', hfirst, hsecond, hlooks, himages, hends, bound, steps,
    hwithin.2 ?_⟩
  exact Option.isSome_of_eq_some hends

end Session

end BlockScript
