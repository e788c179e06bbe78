import BlockScript.Compiler.Basic
import BlockScript.Machine.ScriptedHost
import BlockScript.Proofs.Codec
import BlockScript.Proofs.Pieces
import BlockScript.Proofs.Ticks
import BlockScript.Proofs.Variants
import BlockScript.Proofs.Warp

/-!
# Variants that call themselves

Outside warp a thread gives way before a variant calls itself. What counts is the variant, with the
shapes of its arguments, and not the procedure: a procedure that calls itself with arguments of
other shapes calls another variant, and the thread does not give way (`Target.enters_spiral`).

Main statement: outside warp the thread gives way before a call exactly if it is a call of the
variant that makes it (`Target.givesWay_iff_of_generate`).
-/

namespace BlockScript

/-- At position `a` of the routine stands a call of the variant `key`: first the instruction by
which the thread gives way, if it does, then `size` instructions that compute the arguments, and
then the call. -/
structure Linked.CallsAt (l : Linked) (a : Nat) (givesWay : Bool) (key : VariantKey) (size : Nat) :
    Prop where
  first : givesWay = true → l.image.ops[a]? = some (.yield .soft)
  arguments : ∀ n < size, ∃ op : Instr, l.image.ops[a + givesWay.toNat + n]? = some op
    ∧ op.computes = true
  call : ∃ i argc, l.image.ops[a + givesWay.toNat + size]? = some (.callProcedure i argc)
    ∧ l.image.procedures[i.toNat]? = some key

/-- A thread that comes to a call before which it gives way does so, whatever the host is. -/
theorem Linked.CallsAt.suspends {l : Linked} {a size : Nat} {key : VariantKey}
    (h : l.CallsAt a true key size) {f : Frame} (hf : f.routine = l) (hpc : f.pc = a)
    (hnone : f.pending = none) {σ : Type} (host : Host σ) (s : Setting) (w : World σ)
    (callers : List Frame) :
    Execution.dispatch host s w (f :: callers) = (f.advance :: callers, w, .suspend .soft) := by
  have hop : f.routine.image.ops[f.pc]? = some (.yield .soft) := by rw [hf, hpc, h.first rfl]
  rw [Execution.dispatch_of_code hnone hop]
  rfl

/-- The code of a call of a compiled routine, wherever it stands. -/
theorem Routine.callsAt_of_placedAt {r : Routine} {c : CompilerConfig} {l : Linked}
    (himage : l.image = r.image c) {settings : CodeSettings} {key : VariantKey} {args : List Expr}
    {y : Bool} {a base : Nat}
    (hplaced : (Stmt.call key args y).PlacedAt settings (r.imports c) l.image.ops a base) :
    l.CallsAt a y key (Expr.allSize args) := by
  obtain ⟨hat, hmet⟩ := hplaced
  have hkey : l.image.procedures[(UInt16.ofNat ((r.imports c).procedures.idxOf key)).toNat]?
      = some key := by
    rw [himage]
    refine hmet (.procedure key) ?_
    simp [Stmt.demands]
  rw [Stmt.code, List.append_assoc] at hat
  have hlength : (if y then [Instr.yield .soft] else []).length = y.toNat := by cases y <;> rfl
  have hrest := hlength ▸ hat.right
  refine ⟨fun hy => ?_, fun n hn => ?_, _, UInt16.ofNat args.length, ?_, hkey⟩
  · subst hy
    exact hat.head
  · rw [← Expr.length_allCode (r.imports c)] at hn
    have hop := List.getElem?_eq_getElem hn
    exact ⟨_, (hrest.left.getElem?_add hn).trans hop,
      Expr.computes_allCode args _ (List.mem_of_getElem? hop)⟩
  · exact (Expr.length_allCode (r.imports c) args ▸ hrest.right).head

namespace Target

variable {t : Target} {config : CompilerConfig} {script : Script} {p : Program}

/-- A call of a variant was made in the surroundings of the variant. -/
theorem exists_makeCall_of_generate (hp : (t.generate config script).outcome = .ok p)
    {k : VariantKey} {r : Routine} (hr : (k, r) ∈ p.procedures.entries) {key : VariantKey}
    {args : List Expr} {y : Bool} (hcall : .call key args y ∈ Stmt.allNodes r.stack) :
    ∃ d d', (⟨t, config, k.warp, some (k, d)⟩ : Surroundings).makeCall d' args
      = .call key args y := by
  obtain ⟨d, -, hroutine⟩ := (generatedBy_of_generate hp).names k r hr
  obtain ⟨d', hmakes⟩ := (makes_of_routineOf hroutine).2 _ hcall
  exact ⟨d, d', hmakes⟩

/--
**Outside warp a thread gives way before a call exactly if a variant calls itself.**

Take a variant of a program, outside warp, and a call in it, at any depth. The thread gives way
before the call exactly if the variant that is called is the one that makes the call: the same
procedure, and the same shapes of arguments. So it is in the code of the variant, with whatever
settings it was compiled, wherever the code of the call stands: the instruction that gives way
stands right before those that compute the arguments, and these do nothing else, so that the thread
has given way before it enters the variant again.
-/
theorem givesWay_iff_of_generate (hp : (t.generate config script).outcome = .ok p) {k : VariantKey}
    {r : Routine} (hr : (k, r) ∈ p.procedures.entries) (hwarp : k.warp = false) {key : VariantKey}
    {args : List Expr} {y : Bool} (hcall : .call key args y ∈ Stmt.allNodes r.stack) :
    (y = true ↔ key = k)
      ∧ ∀ (c : CompilerConfig) (p' : Program) (l : Linked), r.compile p' c = .ok l.image →
        (∃ a base, (Stmt.call key args y).PlacedAt (r.settings c) (r.imports c) l.image.ops a base)
        ∧ ∀ a base,
          (Stmt.call key args y).PlacedAt (r.settings c) (r.imports c) l.image.ops a base →
          l.CallsAt a y key (Expr.allSize args)
          ∧ (key = k → ∀ (f : Frame), f.routine = l → f.pc = a → f.pending = none →
            ∀ (σ : Type) (host : Host σ) (s : Setting) (w : World σ) (callers : List Frame),
              Execution.dispatch host s w (f :: callers)
                = (f.advance :: callers, w, .suspend .soft)) := by
  obtain ⟨d, d', hmakes⟩ := exists_makeCall_of_generate hp hr hcall
  have hiff : y = true ↔ key = k := by
    simp only [Surroundings.makeCall, Stmt.call.injEq, hwarp, Bool.not_false, Bool.true_and,
      Option.map_some] at hmakes
    obtain ⟨rfl, -, rfl⟩ := hmakes
    rw [beq_iff_eq, Option.some.injEq, eq_comm]
  refine ⟨hiff, fun c p' l hcompile => ⟨Routine.exists_placedAt hcompile _ hcall, ?_⟩⟩
  intro a base hplaced
  have hat := Routine.callsAt_of_placedAt (Routine.compile_eq_ok hcompile).1 hplaced
  refine ⟨hat, fun hkey f hf hpc hnone σ host s w callers => ?_⟩
  rw [hiff.mpr hkey] at hat
  exact hat.suspends hf hpc hnone host s w callers

end Target

/-- The variant that a statement calls, if it is a call, and whether the thread gives way before
it. -/
def Stmt.callee? : Stmt → Option (VariantKey × Bool)
  | .call key _ givesWay => some (key, givesWay)
  | _ => none

theorem Stmt.exists_call_of_mem {ss : List Stmt} {key : VariantKey} {y : Bool}
    (h : (key, y) ∈ (allNodes ss).filterMap callee?) : ∃ args, .call key args y ∈ allNodes ss := by
  obtain ⟨n, hn, hcallee⟩ := List.mem_filterMap.mp h
  cases n with
  | call key' args y' =>
    cases hcallee
    exact ⟨args, hn⟩
  | branch | loop | set | change | wait | host | done | escape => cases hcallee

namespace Target

/-- A procedure that calls itself with the value of a variable, whose shape is unknown. -/
def spiral : Target where
  blocks := .ofList
    [{ opcode := "data_variable", fields := [("VARIABLE", "x")] },
     { opcode := "procedures_call", proccode := some "spin %s", inputs := [("a", .block 0)] },
     { opcode := "procedures_call", proccode := some "spin %s",
       inputs := [("a", .literal (.text "1"))] }]
  procedures :=
    [{ proccode := "spin %s", body := some 1, params := [⟨"a", "times", .textOrNumber⟩] }]

/-- A script that calls the procedure of `spiral` with a text. -/
def spiralScript : Script := ⟨"main", spiral.blocks, some 2, false⟩

/-- The variant of the procedure of `spiral` for an argument of a shape. -/
def spin (shape : Shape) : VariantKey := ⟨"spin %s", [shape], false⟩

/-- The variants of `spiral` and what they call. They all have an image that can be linked. -/
theorem calls_spiral : ∃ p, (spiral.generate {} spiralScript).outcome = .ok p
    ∧ p.procedures.entries.map (fun e => (e.1, (Stmt.allNodes e.2.stack).filterMap Stmt.callee?))
      = [(spin .numberOrText, [(spin .unknown, false)]), (spin .unknown, [(spin .unknown, true)])]
    ∧ ∀ e ∈ p.procedures.entries, ∃ l : Linked, e.2.compile p {} = .ok l.image := by
  have hcalls : (spiral.generate {} spiralScript).outcome.toOption.map (fun p =>
      (p.procedures.entries.map fun e => (e.1, (Stmt.allNodes e.2.stack).filterMap Stmt.callee?),
        p.procedures.entries.all fun e =>
          ((e.2.compile p {}).toOption.bind fun image => (image.link {}).toOption).isSome))
      = some ([(spin .numberOrText, [(spin .unknown, false)]),
          (spin .unknown, [(spin .unknown, true)])], true) := by
    decide +kernel
  obtain ⟨p, hp, hcalls⟩ := Option.map_eq_some_iff.mp hcalls
  obtain ⟨hcalls, hlinks⟩ := Prod.mk.inj hcalls
  refine ⟨p, eq_ok_of_toOption hp, hcalls, fun e he => ?_⟩
  obtain ⟨l, hl⟩ := Option.isSome_iff_exists.mp (List.all_eq_true.mp hlinks e he)
  obtain ⟨image, himage, hl⟩ := Option.bind_eq_some_iff.mp hl
  rw [← Image.image_of_link (eq_ok_of_toOption hl)] at himage
  exact ⟨l, eq_ok_of_toOption himage⟩

/-- The second variant of `spiral` calls itself, and a thread that comes to the call gives way. -/
theorem givesWay_iff_spiral :
    ∃ p r args l a, (spiral.generate {} spiralScript).outcome = .ok p
      ∧ (spin .unknown, r) ∈ p.procedures.entries
      ∧ .call (spin .unknown) args true ∈ Stmt.allNodes r.stack
      ∧ r.compile p {} = .ok l.image ∧ l.CallsAt a true (spin .unknown) (Expr.allSize args)
      ∧ ∀ (σ : Type) (host : Host σ) (s : Setting) (w : World σ) (callers : List Frame),
        Execution.dispatch host s w ({ Frame.start l [.empty] with pc := a } :: callers)
          = ({ Frame.start l [.empty] with pc := a + 1 } :: callers, w, .suspend .soft) := by
  obtain ⟨p, hp, hcalls, hlinks⟩ := calls_spiral
  have hmem : (spin .unknown, [(spin .unknown, true)]) ∈ p.procedures.entries.map
      (fun e => (e.1, (Stmt.allNodes e.2.stack).filterMap Stmt.callee?)) := by
    rw [hcalls]
    simp
  obtain ⟨⟨k, r⟩, hr, heq⟩ := List.mem_map.mp hmem
  obtain ⟨rfl, hcallees⟩ := Prod.mk.inj heq
  obtain ⟨args, hcall⟩ := Stmt.exists_call_of_mem (hcallees ▸ List.mem_singleton.mpr rfl)
  obtain ⟨l, hcompile⟩ := hlinks _ hr
  obtain ⟨⟨a, base, hplaced⟩, hall⟩ :=
    (givesWay_iff_of_generate hp hr rfl hcall).2 {} p l hcompile
  obtain ⟨hat, hsuspends⟩ := hall a base hplaced
  exact ⟨p, r, args, l, a, hp, hr, hcall, hcompile, hat, hsuspends rfl _ rfl rfl rfl⟩

/-- **A procedure that calls itself may be entered again before the thread has given way.** The
variant for a text calls the variant for a value of which nothing is known. When the thread gives
way for the first time, both are active. -/
theorem enters_spiral :
    ∃ p r args, (spiral.generate {} spiralScript).outcome = .ok p
      ∧ (spin .numberOrText, r) ∈ p.procedures.entries
      ∧ .call (spin .unknown) args false ∈ Stmt.allNodes r.stack
      ∧ (spin .unknown).proccode = (spin .numberOrText).proccode
      ∧ ∃ thread w e, (({} : Compiler).compileProgram {} 0 p).outcome = .ok thread
        ∧ (Execution.start thread.entry).step ScriptedHost.host thread.setting 100 ⟨{}, false⟩
          = some (.yielded .soft, w, e)
        ∧ e.callStack = [(spin .unknown).text, (spin .numberOrText).text, "main"] := by
  obtain ⟨p, hp, hcalls, -⟩ := calls_spiral
  have hrun : (spiral.generate {} spiralScript).outcome.toOption.bind (fun p =>
      (({} : Compiler).compileProgram {} 0 p).outcome.toOption.bind fun thread =>
        ((Execution.start thread.entry).step ScriptedHost.host thread.setting 100 ⟨{}, false⟩).map
          fun r => (r.1, r.2.2.callStack))
      = some (.yielded .soft, [(spin .unknown).text, (spin .numberOrText).text, "main"]) := by
    decide +kernel
  obtain ⟨p', hp', hrun⟩ := Option.bind_eq_some_iff.mp hrun
  cases hp.symm.trans (eq_ok_of_toOption hp')
  obtain ⟨thread, hthread, hrun⟩ := Option.bind_eq_some_iff.mp hrun
  obtain ⟨⟨outcome, w, e⟩, hstep, heq⟩ := Option.map_eq_some_iff.mp hrun
  obtain ⟨rfl, hstack⟩ := Prod.mk.inj heq
  have hmem : (spin .numberOrText, [(spin .unknown, false)]) ∈ p.procedures.entries.map
      (fun e => (e.1, (Stmt.allNodes e.2.stack).filterMap Stmt.callee?)) := by
    rw [hcalls]
    exact List.mem_cons_self
  obtain ⟨⟨k, r⟩, hr, heq⟩ := List.mem_map.mp hmem
  obtain ⟨rfl, hcallees⟩ := Prod.mk.inj heq
  obtain ⟨args, hcall⟩ := Stmt.exists_call_of_mem (hcallees ▸ List.mem_singleton.mpr rfl)
  exact ⟨p, r, args, hp, hr, hcall, rfl, thread, w, e, eq_ok_of_toOption hthread, hstep, hstack⟩

end Target

end BlockScript
