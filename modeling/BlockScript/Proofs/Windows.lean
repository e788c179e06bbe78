import BlockScript.Proofs.Atomicity
import BlockScript.Proofs.Intervals

/-!
# Rounds between two looks at the deadline

Each loop in warp has a count of its own, which begins with zero whenever the loop is entered. So
between two looks at the deadline, whichever loops make them, the rounds of one activation of a loop
are bounded by the interval that the compiler was given (`Routine.rounds_lt_of_denotes`).

There is no count that loops share. Rounds of a loop and rounds of the loops in its body add up to
more than the interval before anyone looks at the deadline (`Session.rounds_add_up_cascade`).
-/

namespace BlockScript

/-- The call asks about the deadline. -/
def Observation.isDeadline : Observation → Bool
  | .called (.deadline _) => true
  | _ => false

namespace Moment

/-- The host is asked about the deadline. -/
def asks (m : Moment) : Bool := m.calls.any Observation.isDeadline

/-- The thread gives way. -/
def givesWay (m : Moment) : Bool :=
  match m.flow with
  | .suspend _ => true
  | _ => false

theorem Looks.asks {m : Moment} (h : m.Looks) : m.asks = true := by
  obtain ⟨elapsed, hcalls, -⟩ := h
  rw [Moment.asks, hcalls]
  rfl

end Moment

/-- **As many moments in a row as the interval has rounds include a look at the deadline.** -/
theorem Paced.length_lt {k : Nat} (hk : 0 < k) {before ms after : List Moment}
    (h : Paced k (before ++ ms ++ after)) (hms : ∀ m ∈ ms, m.asks = false) : ms.length < k := by
  by_contra hge
  have hlt := Nat.mod_lt before.length hk
  have hdiv := Nat.div_add_mod before.length k
  -- The next multiple of the interval after the moments before.
  have hat : k - 1 - before.length % k < ms.length := by omega
  have hnumber : before.length + (k - 1 - before.length % k) + 1
      = k * (before.length / k) + k := by omega
  obtain ⟨m, hm⟩ : ∃ m, ms[k - 1 - before.length % k]? = some m := ⟨_, List.getElem?_eq_getElem hat⟩
  have hlooks :
      if k ∣ before.length + (k - 1 - before.length % k) + 1 then m.Looks else m.Passes := by
    refine h.getElem? ?_
    rw [List.append_assoc, List.getElem?_append_right (Nat.le_add_right _ _),
      Nat.add_sub_cancel_left, List.getElem?_append_left hat, hm]
  rw [hnumber, if_pos (Nat.dvd_add (Nat.dvd_mul_right _ _) (Nat.dvd_refl k))] at hlooks
  cases hlooks.asks.symm.trans (hms m (List.mem_of_getElem? hm))

/-! ## Compiled routines -/

/-- The loops of a routine in warp look at the deadline in the interval that the compiler was
given. -/
theorem ScriptRef.Denotes.interval_of_loop {t : Target} {scripts : List Script} {ref : ScriptRef}
    {config : CompilerConfig} {r : Routine} (h : ref.Denotes t scripts config r)
    (hwarp : r.warp = true) {kind : LoopKind} {body : List Stmt} {interval : UInt32}
    (hloop : Stmt.loop kind body true interval ∈ Stmt.allNodes r.stack) :
    interval = max config.deadlineCheckInterval 1 := by
  obtain ⟨x, hx, hconfig, hmakes⟩ := h.makes
  obtain ⟨-, -, hsafe, hinterval⟩ := Stmt.loop.inj (hmakes _ hloop)
  rw [hsafe, hx, hwarp, hconfig] at hinterval
  exact hinterval.symm

theorem max_max_one (k : UInt32) : max (max k 1) 1 = max k 1 := by
  change (if (if k ≤ 1 then 1 else k) ≤ 1 then 1 else if k ≤ 1 then 1 else k)
    = if k ≤ 1 then 1 else k
  grind

/--
**Between two looks at the deadline an activation of a loop completes fewer rounds than the interval
has.**

Take a script or variant in warp of any target, generated and compiled with looks at the deadline,
and one of its loops that is safe in warp. The code of the loop stands somewhere in the code of the
routine, and ends with a look at the deadline, in the interval that the compiler was given, and the
jump back to the test. Take any activation of the loop, in any thread and on any hosts; all that the
thread does meanwhile is seen, also in loops of the body and in variants that are called. Then in
each stretch of it in which the host is not asked about the deadline, by this loop or another one,
the loop completes fewer rounds than the interval has.
-/
theorem Routine.rounds_lt_of_denotes {t : Target} {scripts : List Script} {ref : ScriptRef}
    {config : CompilerConfig} {r : Routine} {p : Program} {image : Image}
    (hr : ref.Denotes t scripts config r) (h : r.compile p config = .ok image)
    (hwarp : r.warp = true) (htimer : config.warpTimer = true) {kind : LoopKind}
    {body : List Stmt} {interval : UInt32}
    (hloop : Stmt.loop kind body true interval ∈ Stmt.allNodes r.stack) :
    (∃ a base, (Stmt.loop kind body true interval).PlacedAt (r.settings config) (r.imports config)
      image.ops a base)
    ∧ ∀ a base check,
      (Stmt.loop kind body true interval).PlacedAt (r.settings config) (r.imports config)
        image.ops a base →
      check + 2 = a + Stmt.size (r.settings config) (.loop kind body true interval) →
      image.ops[check]? = some (.checkDeadline (localSlot (base + kind.slots))
        (max config.deadlineCheckInterval 1))
      ∧ ∀ (s : Setting) (entry : Linked) (callers : List Frame) (e : Execution)
        (before window after : List Moment),
        Execution.Activation s entry image callers a (check + 2) e (before ++ window ++ after) →
        (∀ m ∈ window, m.asks = false) →
        (momentsAt callers.length check window).length
          < (max config.deadlineCheckInterval 1).toNat := by
  obtain rfl := hr.interval_of_loop hwarp hloop
  refine ⟨exists_placedAt h _ hloop, fun a base check hat hcheck => ?_⟩
  obtain ⟨_, first, hfirst, hwatch⟩ := exists_watchAt hwarp htimer hat hcheck
  have hop := hwatch.checkAt
  rw [max_max_one] at hop
  refine ⟨hop, fun s entry callers e before window after he hwindow => ?_⟩
  obtain ⟨f, reset, hf⟩ := watches_of_activation hwarp htimer hat hcheck hfirst he
  have hpaced := hf.paced
  rw [max_max_one, momentsAt_append, momentsAt_append] at hpaced
  have hpos : 0 < (max config.deadlineCheckInterval 1).toNat :=
    Nat.pos_of_ne_zero fun hzero => Stmt.max_one_ne_zero _ (UInt32.toNat_inj.mp hzero)
  refine hpaced.length_lt hpos fun m hm => hwindow m ?_
  exact List.mem_of_mem_filter hm

/-! ## Loops in loops -/

/-- The linked routine was made with looks at the deadline in an interval of so many rounds. -/
def Linked.MadeEvery (t : Target) (scripts : List Script) (interval : UInt32) (l : Linked) : Prop :=
  ∃ ref c r p, ScriptRef.Denotes t scripts c r ref ∧ r.compile p c = .ok l.image
    ∧ c.warpTimer = true
    ∧ c.deadlineCheckInterval = interval

/-- The statement is a loop that is safe in warp. -/
def Stmt.isSafeLoop : Stmt → Bool
  | .loop _ _ warpSafe _ => warpSafe
  | _ => false

/-- A script with a loop of two rounds, in each of which there is a loop of one round. -/
def Target.cascade : Target where
  blocks := .ofList
    [{ opcode := "control_repeat",
       inputs := [("TIMES", .literal (.text "2")), ("SUBSTACK", .block 1)] },
     { opcode := "control_repeat",
       inputs := [("TIMES", .literal (.text "1")), ("SUBSTACK", .block 2)] },
     { opcode := "data_changevariableby", fields := [("VARIABLE", "x")],
       inputs := [("VALUE", .literal (.text "1"))] }]

/-- The script of `Target.cascade`, in warp. -/
def Target.cascadeScript : Script := ⟨"main", cascade.blocks, some 0, true⟩

/-- The outer loop has completed one round, and the host has not been asked. -/
theorem Routine.rounds_lt_of_denotes_cascade :
    ∃ r image l e seen, (ScriptRef.script 0).Denotes Target.cascade [Target.cascadeScript]
        { deadlineCheckInterval := 2 } r
      ∧ r.compile ⟨r, {}⟩ { deadlineCheckInterval := 2 } = .ok image ∧ l.image = image
      ∧ Execution.Activation {} l image [] 0 20 e ([] ++ seen ++ []) ∧ (∀ m ∈ seen, m.asks = false)
      ∧ (momentsAt 0 18 seen).length = 1 ∧ (momentsAt 0 18 seen).length < 2 := by
  have hrun :
      (Target.cascade.entryRoutine { deadlineCheckInterval := 2 }
        Target.cascadeScript).toOption.bind
      (fun r => (r.compile ⟨r, {}⟩ { deadlineCheckInterval := 2 }).toOption.bind fun image =>
        (image.link {}).toOption.bind fun l =>
          ((Execution.start l).linger ScriptedHost.host {} 0 20 35
            ⟨{ deadlines := [true] }, false⟩).map fun x =>
              (r.warp, r.stack.map fun n =>
                (n.isSafeLoop, n.size (r.settings { deadlineCheckInterval := 2 })),
                x.2.all fun m => !m.asks, (momentsAt 0 18 x.2).length))
      = some (true, [(true, 20)], true, 1) := by
    decide +kernel
  obtain ⟨r, hr, hrun⟩ := Option.bind_eq_some_iff.mp hrun
  obtain ⟨image, himage, hrun⟩ := Option.bind_eq_some_iff.mp hrun
  obtain ⟨l, hl, hrun⟩ := Option.bind_eq_some_iff.mp hrun
  obtain ⟨⟨e, seen⟩, hlinger, hseen⟩ := Option.map_eq_some_iff.mp hrun
  obtain ⟨hwarp, hseen⟩ := Prod.mk.inj hseen
  obtain ⟨hstack, hseen⟩ := Prod.mk.inj hseen
  obtain ⟨hquiet, hone⟩ := Prod.mk.inj hseen
  have hr : (ScriptRef.script 0).Denotes Target.cascade [Target.cascadeScript]
      { deadlineCheckInterval := 2 } r := ⟨_, rfl, eq_ok_of_toOption hr⟩
  have himage := eq_ok_of_toOption himage
  have hl := Image.image_of_link (eq_ok_of_toOption hl)
  have hquiet : ∀ m ∈ seen, m.asks = false := by
    intro m hm
    have hnot := List.all_eq_true.mp hquiet m hm
    rwa [Bool.not_eq_true'] at hnot
  have hactive : Execution.Activation {} l image [] 0 20 e ([] ++ seen ++ []) := by
    rw [List.append_nil]
    exact .linger 35 (.enters .start rfl hl rfl rfl) hlinger
  obtain ⟨n, hn, hsize⟩ := List.map_eq_singleton_iff.mp hstack
  obtain ⟨hsafe, hsize⟩ := Prod.mk.inj hsize
  cases n with
  | loop kind body warpSafe interval =>
    obtain rfl : warpSafe = true := hsafe
    have hloop : Stmt.loop kind body true interval ∈ Stmt.allNodes r.stack := by
      rw [hn]
      exact List.mem_cons_self
    have hrounds :=
      ((rounds_lt_of_denotes hr himage hwarp rfl hloop).2 0 0 18 (placedAt_head himage hn)
      (by rw [hsize])).2 {} l [] e [] seen [] hactive hquiet
    exact ⟨r, image, l, e, seen, hr, himage, hl, hactive, hquiet, hone, hrounds⟩
  | branch | call | set | change | wait | host | done | escape => cases hsafe

namespace Session

/-- The beginning of a session with the script of `Target.cascade`, in which the deadline is looked
at in every other round of a loop. -/
def cascade : Session where
  target := Target.cascade
  scripts := [Target.cascadeScript]
  compilers := [{ config := { deadlineCheckInterval := 2 } }]
  host := {}

/-- Since it began the thread has completed three rounds, two of the inner loop and one of the outer
one. In all this time it has not given way and the host has not been asked about the deadline. -/
theorem rounds_add_up_cascade :
    ∃ compiled s', (cascade.newThread 0).compile 0 0 = some (.ok compiled, s')
      ∧ (∀ l ∈ compiled.routines, l.MadeEvery Target.cascade cascade.scripts 2)
      ∧ compiled.entry.image.ops[16]? = some (.checkDeadline 3 2)
      ∧ compiled.entry.image.ops[18]? = some (.checkDeadline 1 2)
      ∧ ∃ e seen, (Execution.start compiled.entry).linger ScriptedHost.host
        ⟨compiled.variants, {}⟩ 0 21 35 ⟨{ deadlines := [true] }, false⟩ = some (e, seen)
        ∧ (∀ m ∈ seen, m.asks = false ∧ m.givesWay = false)
        ∧ 2 < (momentsAt 0 16 seen).length + (momentsAt 0 18 seen).length := by
  have hrun : (((cascade.newThread 0).compile 0 0).bind fun r => r.1.toOption.bind fun compiled =>
      ((Execution.start compiled.entry).linger ScriptedHost.host ⟨compiled.variants, {}⟩ 0 21 35
        ⟨{ deadlines := [true] }, false⟩).map fun x =>
          (compiled.routines.length,
            decide (compiled.entry.image.ops[16]? = some (.checkDeadline 3 2)
              ∧ compiled.entry.image.ops[18]? = some (.checkDeadline 1 2)),
            x.2.all fun m => !m.asks && !m.givesWay,
            (momentsAt 0 16 x.2).length + (momentsAt 0 18 x.2).length))
      = some (1, true, true, 3) := by
    decide +kernel
  obtain ⟨⟨outcome, s'⟩, hcompile, hrun⟩ := Option.bind_eq_some_iff.mp hrun
  obtain ⟨compiled, houtcome, hrun⟩ := Option.bind_eq_some_iff.mp hrun
  obtain ⟨⟨e, seen⟩, hlinger, hseen⟩ := Option.map_eq_some_iff.mp hrun
  cases eq_ok_of_toOption houtcome
  obtain ⟨hone, hseen⟩ := Prod.mk.inj hseen
  obtain ⟨hops, hseen⟩ := Prod.mk.inj hseen
  obtain ⟨hquiet, hrounds⟩ := Prod.mk.inj hseen
  obtain ⟨hinner, houter⟩ := of_decide_eq_true hops
  obtain ⟨c, number, script, hc, hscript, -, -, hcases⟩ := compile_cases hcompile
  cases hc
  cases hscript
  rcases hcases with ⟨err, -, herr, -⟩ | ⟨p, hp, hthread, -⟩
  · cases herr
  have hentry := (Compiler.linkedIn_of_compileProgram hthread.symm).1
  refine ⟨compiled, s', hcompile, fun l hl => ?_, hinner, houter, e, seen, hlinger,
    fun m hm => ?_, ?_⟩
  · obtain ⟨x, hx⟩ := List.length_eq_one_iff.mp hone
    obtain ⟨rfl, -⟩ := List.cons.inj hx
    rw [hx] at hl
    rw [List.mem_singleton.mp hl]
    exact ⟨.script 0, _, _, p, ⟨_, rfl, (Target.generatedBy_of_generate hp).entry⟩, hentry,
      rfl, rfl⟩
  · have hnot := List.all_eq_true.mp hquiet m hm
    rwa [Bool.and_eq_true, Bool.not_eq_true', Bool.not_eq_true'] at hnot
  · rw [hrounds]
    decide

end Session

end BlockScript
