import BlockScript.Image.Link
import BlockScript.Proofs.Drafts
import BlockScript.Proofs.Shapes
import BlockScript.Proofs.Variants

/-!
# Images of generated programs pass every check

A routine of a generated program has an image unless one of its numbers is too large, and its image
is well formed and can be linked wherever the primitives that it names are allowed.

What is written for a routine is its image, unless a demand is not met (`Routine.compile_eq`), and a
compiler error is read back to that demand. Of these only a missing variant is not a matter of
numbers, and a program has all variants that it calls. The verifier looks for four things, which are
all said by `Instr.FineAt`; the heights that it counts are the lengths of the stacks of shapes.
-/

namespace BlockScript

/-! ## Compiler errors -/

/-- The variants that demands are about. -/
def Demand.keys (ds : List Demand) : List VariantKey :=
  ds.filterMap fun | .variant key | .procedure key => some key | _ => none

namespace Demand

theorem keys_append (ds es : List Demand) : keys (ds ++ es) = keys ds ++ keys es :=
  List.filterMap_append

theorem mem_keys_of_variant {ds : List Demand} {key : VariantKey} (h : .variant key ∈ ds) :
    key ∈ keys ds :=
  List.mem_filterMap.mpr ⟨_, h, rfl⟩

theorem mem_keys_of_procedure {ds : List Demand} {key : VariantKey} (h : .procedure key ∈ ds) :
    key ∈ keys ds :=
  List.mem_filterMap.mpr ⟨_, h, rfl⟩

end Demand

open Demand (keys keys_append)

namespace Expr

mutual

/-- An expression calls no variant. -/
theorem keys_demands : ∀ e : Expr, keys e.demands = []
  | .const _ | .arg _ _ | .var _ => rfl
  | .unary op e => by rw [demands, keys_append, keys_demands e]; rfl
  | .binary op e₁ e₂ => by
    rw [demands, keys_append, keys_append, keys_demands e₁, keys_demands e₂]
    rfl
  | .host opcode args shape => by rw [demands, keys_append, keys_allDemands args]; rfl
  | .escape block opcode inputs => by rw [demands, keys_inputDemands inputs]

theorem keys_allDemands : ∀ es : List Expr, keys (allDemands es) = []
  | [] => rfl
  | e :: es => by rw [allDemands, keys_append, keys_demands e, keys_allDemands es, List.append_nil]

theorem keys_inputDemands : ∀ inputs : List (String × Expr), keys (inputDemands inputs) = []
  | [] => rfl
  | (_, e) :: inputs => by
    rw [inputDemands, keys_append, keys_demands e, keys_inputDemands inputs, List.append_nil]

end

theorem keys_conditionDemands (e : Expr) : keys e.conditionDemands = [] := by
  unfold conditionDemands
  split
  · exact keys_demands e
  · rw [keys_append, keys_demands e]
    rfl

end Expr

/-- A loop itself calls no variant. -/
theorem LoopKind.keys_demands (kind : LoopKind) (base round : Nat) :
    keys (kind.countDemands base) = [] ∧ keys kind.testDemands = []
      ∧ keys (kind.exitDemands round) = [] := by
  cases kind with
  | times count =>
    refine ⟨?_, rfl, rfl⟩
    rw [countDemands, keys_append, count.keys_demands]
    rfl
  | forever => exact ⟨rfl, rfl, rfl⟩
  | «until» c | «while» c | waitUntil c => exact ⟨rfl, c.keys_conditionDemands, rfl⟩

namespace Stmt

mutual

/-- The variants that demands are about are those called. -/
theorem keys_demands_subset {s : CodeSettings} : ∀ (n : Stmt) (base : Nat),
    keys (n.demands s base) ⊆ n.calls
  | .branch c yes no, base => by
    rw [demands, keys_append, keys_append, c.keys_conditionDemands, List.nil_append, calls]
    refine List.append_subset.mpr
      ⟨List.subset_append_of_subset_left _ (keys_allDemands_subset yes base), ?_⟩
    split
    · exact List.nil_subset _
    · change keys (allDemands s _ no ++ _) ⊆ _
      rw [keys_append]
      exact List.append_subset.mpr ⟨List.subset_append_of_subset_right _
        (keys_allDemands_subset no _), List.nil_subset _⟩
  | .loop kind body warpSafe interval, base => by
    obtain ⟨hcount, htest, hexit⟩ :=
      kind.keys_demands base (allSize s body + s.roundEndSize warpSafe)
    have hslot : keys (if s.checksDeadline warpSafe then [.slot (base + kind.slots)] else [])
        = [] := by
      split <;> rfl
    rw [demands, keys_append, keys_append, keys_append, keys_append, hcount, hslot, htest]
    refine List.append_subset.mpr ⟨keys_allDemands_subset body _, ?_⟩
    change keys (kind.exitDemands _) ⊆ _
    rw [hexit]
    exact List.nil_subset _
  | .call key args y, base => by
    change key :: keys (Expr.allDemands args ++ _) ⊆ _
    rw [keys_append, Expr.keys_allDemands]
    simp [keys, calls]
  | .set name e, base => by rw [demands, e.keys_demands]; exact List.nil_subset _
  | .change name e, base | .wait e, base => by
    rw [demands, keys_append, e.keys_demands]
    exact List.nil_subset _
  | .host opcode args, base => by
    rw [demands, keys_append, Expr.keys_allDemands]
    exact List.nil_subset _
  | .done, base => List.nil_subset _
  | .escape block opcode inputs, base => by
    rw [demands, Expr.keys_inputDemands]
    exact List.nil_subset _

theorem keys_allDemands_subset {s : CodeSettings} : ∀ (ns : List Stmt) (base : Nat),
    keys (allDemands s base ns) ⊆ allCalls ns
  | [], _ => List.nil_subset _
  | n :: ns, base => by
    rw [allDemands, keys_append, allCalls]
    exact List.append_subset.mpr ⟨List.subset_append_of_subset_left _ (keys_demands_subset n base),
      List.subset_append_of_subset_right _ (keys_allDemands_subset ns _)⟩

end

end Stmt

/-- A demand fails for its number, or it asks for a variant that the program lacks. -/
theorem Demand.failure?_cases {d : Demand} {routine : String} {p : Program} {i : Imports}
    {e : CompileError} (h : d.failure? routine p i = some e) :
    (∃ what, e = .tooMany what routine)
      ∨ ∃ key, d = .variant key ∧ p.procedures.find? key = none := by
  cases d with
  | support f => cases h
  | «variant» key =>
    rw [failure?] at h
    split at h
    · cases h
    · next hfind => exact Or.inr ⟨key, rfl, by simpa using hfind⟩
  | host | procedure | arguments | slot | forward | backward =>
    rw [failure?] at h
    split at h
    · cases h
    · cases h
      exact Or.inl ⟨_, rfl⟩

/-- A routine whose variants are all there is refused for its numbers only. -/
theorem Routine.compile_eq_error {r : Routine} {p : Program} {config : CompilerConfig}
    {e : CompileError} (hcalls : ∀ k, r.Calls k → k ∈ p.procedures.keys)
    (h : r.compile p config = .error e) : ∃ what, e = .tooMany what r.label := by
  rw [compile_eq] at h
  split at h
  · next herror =>
    cases h
    unfold compileError? at herror
    split at herror
    · cases herror
      exact ⟨_, rfl⟩
    · obtain ⟨d, hd, hfail⟩ := List.exists_of_findSome?_eq_some herror
      rcases Demand.failure?_cases hfail with hmany | ⟨key, rfl, hfind⟩
      · exact hmany
      · have hkey := hcalls key (calls_iff.mpr
          (Stmt.keys_allDemands_subset r.stack 0 (Demand.mem_keys_of_variant hd)))
        rw [← VariantTable.isSome_find?_iff, hfind] at hkey
        cases hkey
  · cases h

/-! ## Verification -/

/-- The heights that the verifier counts are the lengths of the stacks of shapes. -/
theorem CodeScope.underflow?_eq_none (x : CodeScope) {code : List Instr}
    (hfine : ∀ pc (op : Instr), code[pc]? = some op → op.FineAt x code pc) :
    ∀ (rest before : List Instr), code = before ++ rest →
      Instr.underflow? id (x.shapesAt code before.length).length before.length rest = none := by
  intro rest
  induction rest with
  | nil => exact fun _ _ => rfl
  | cons op rest ih =>
    intro before hcode
    have hop : code[before.length]? = some op := by simp [hcode]
    have hheight := (hfine _ op hop).height
    have hnext : (x.shapesAt code (before.length + 1)).length
        = (x.shapesAt code before.length).length - op.effect.1 + op.effect.2 := by
      rw [x.shapesAt_succ hop, scan, List.length_append, x.length_result?, List.length_drop]
      exact Nat.add_comm _ _
    rw [Instr.underflow?, if_neg (Nat.not_lt.mpr hheight), id_eq, ← hnext]
    have h := ih (before ++ [op]) (by simp [hcode])
    rwa [List.length_append, List.length_singleton] at h

namespace Routine

variable {r : Routine} {config : CompilerConfig}

/-- The tables of an image are as large as the scope of the code says. -/
structure FitsImage (r : Routine) (config : CompilerConfig) : Prop where
  args : r.arguments.length < 65536
  slots : Stmt.allSlots (r.settings config) r.stack ≤ 65535
  fine : ∀ pc (op : Instr), (r.code config)[pc]? = some op →
    op.FineAt (r.scope config) (r.code config) pc

theorem fitsImage_of_compile {t : Target} {warp : Bool} {p : Program} {image : Image}
    (h : r.compile p config = .ok image)
    (hproper : ∀ n ∈ Stmt.allNodes r.stack, n.ProperIn t warp r.arguments) :
    image = r.image config ∧ r.FitsImage config := by
  obtain ⟨himage, hargs, hmeets⟩ := compile_eq_ok h
  refine ⟨himage, hargs, ?_, fun _ _ hop => fine_code hmeets hproper hop⟩
  have hslots := Stmt.allSlots_le r.stack hmeets (Nat.zero_le _)
  rwa [Nat.zero_add] at hslots

theorem toNat_arity (h : r.FitsImage config) :
    (r.image config).arity.toNat = r.arguments.length := by
  have hargs := h.args
  simp only [image, UInt16.toNat_ofNat']
  omega

theorem toNat_locals (h : r.FitsImage config) :
    (r.image config).locals.toNat = Stmt.allSlots (r.settings config) r.stack := by
  have hslots := h.slots
  simp only [image, UInt16.toNat_ofNat']
  omega

theorem jumpFlaw?_eq_none (h : r.FitsImage config) {pc : Nat} {op : Instr}
    (hop : (r.code config)[pc]? = some op) : (r.image config).jumpFlaw? op pc = none := by
  unfold Image.jumpFlaw?
  cases hoffset : op.jumpOffset? with
  | none => rfl
  | some offset =>
    obtain ⟨target, heq, hlt, -⟩ := (h.fine pc op hop).jump offset hoffset
    rw [Option.bind_some, if_pos]
    rw [heq, Bool.and_eq_true, decide_eq_true_eq, decide_eq_true_eq]
    exact ⟨Int.natCast_nonneg target, Int.ofNat_lt.mpr hlt⟩

theorem operandFlaw?_eq_none (h : r.FitsImage config) {pc : Nat} {op : Instr}
    (hop : (r.code config)[pc]? = some op) : (r.image config).operandFlaw? op pc = none := by
  have hoperands := (h.fine pc op hop).operands
  have hlocals := toNat_locals h
  have hindex : ∀ (what : String) {index limit : Nat}, index < limit →
      Image.indexFlaw? what index limit pc = none := fun what _ _ hlt => if_pos hlt
  cases op with
  | loadArg n => exact hindex _ (by rw [toNat_arity h]; exact hoperands)
  | loadLocal n => exact hindex _ (by rw [hlocals]; exact hoperands)
  | countdown n exit => exact hindex _ (by rw [hlocals]; exact hoperands)
  | storeLocal n => exact hindex _ (by rw [hlocals]; exact hoperands.1)
  | checkDeadline n interval =>
    rw [Image.operandFlaw?, hindex _ (by rw [hlocals]; exact hoperands.1), if_neg hoperands.2]
    rfl
  | callSupport n argc =>
    obtain ⟨f, hf, -⟩ := hoperands
    refine hindex _ ?_
    rw [image, List.length_map]
    exact (List.getElem?_eq_some_iff.mp hf).1
  | callHost n argc => exact hindex _ hoperands
  | callProcedure n argc =>
    obtain ⟨key, hkey, -⟩ := hoperands
    exact hindex _ (List.getElem?_eq_some_iff.mp hkey).1
  | push | drop | escape | getVariable | setVariable | jump | jumpIfFalse | jumpIfTrue | yield
  | startTimer | waitTimer | ret => rfl

/-- **The image of a routine whose code is fine has no flaw.** -/
theorem flaw?_image (h : r.FitsImage config) : (r.image config).flaw? = none := by
  have hlast : (r.code config).getLast? = some .ret := by simp [code]
  unfold Image.flaw?
  rw [if_neg (by simp [image, hlast]), Option.or_eq_none_iff, List.findSome?_eq_none_iff]
  constructor
  · rintro ⟨op, pc⟩ hmem
    have hop : (r.code config)[pc]? = some op := List.mk_mem_zipIdx_iff_getElem?.mp hmem
    exact Option.or_eq_none_iff.mpr ⟨jumpFlaw?_eq_none h hop, operandFlaw?_eq_none h hop⟩
  · have hstack := (r.scope config).underflow?_eq_none h.fine (r.code config) [] rfl
    rw [List.length_nil, CodeScope.shapesAt_zero] at hstack
    exact hstack

/-- Each support function is called with as many values as it takes. -/
theorem arityError?_eq_none (h : r.FitsImage config) {op : Instr} (hmem : op ∈ r.code config) :
    Image.arityError? (r.imports config).support op = none := by
  obtain ⟨pc, hop⟩ := List.mem_iff_getElem?.mp hmem
  have hoperands := (h.fine pc op hop).operands
  unfold Image.arityError?
  split
  · next n argc =>
    obtain ⟨f, hf, harity⟩ := hoperands
    have hfind : (r.imports config).support[n.toNat]? = some f := hf
    rw [hfind]
    exact if_pos harity
  · rfl

end Routine

/-! ## Linking -/

/-- The names of support functions lead back to them. -/
theorem Image.resolveSupport_map_name (fs : List Support) :
    resolveSupport (fs.map Support.name) = .ok fs := by
  induction fs with
  | nil => rfl
  | cons f fs ih => rw [List.map_cons, resolveSupport, Support.ofName?_name, ih]

/-- An image that passes the checks of its code is linked as its primitives are allowed. -/
theorem Image.link_of_checked {i : Image} {support : List Support} (hflaw : i.flaw? = none)
    (hsupport : resolveSupport i.support = .ok support)
    (harity : ∀ op ∈ i.ops, arityError? support op = none) (c : Capabilities) :
    (∃ l, i.link c = .ok l ∧ l.image = i ∧ l.support = support
      ∧ ∀ name ∈ i.host, c.allows name = true)
      ∨ ∃ name ∈ i.host, c.allows name = false ∧ i.link c = .error (.capabilityDenied name) := by
  unfold link
  split
  · next h => simp [hflaw] at h
  · split
    · next h => simp [hsupport] at h
    · next fs h =>
      cases hsupport.symm.trans h
      split
      · next e ha =>
        obtain ⟨op, hop, he⟩ := List.exists_of_findSome?_eq_some ha
        rw [harity op hop] at he
        cases he
      · split
        · next name hname =>
          refine Or.inr ⟨name, List.mem_of_find?_eq_some hname, ?_, rfl⟩
          simpa using List.find?_some hname
        · next hname =>
          refine Or.inl ⟨_, rfl, rfl, rfl, fun name hmem => ?_⟩
          simpa using List.find?_eq_none.mp hname name hmem

/-- The image of a routine whose code is fine is linked as its primitives are allowed. -/
theorem Routine.link_image {r : Routine} {config : CompilerConfig} (h : r.FitsImage config)
    (c : Capabilities) :
    (∃ l, (r.image config).link c = .ok l ∧ l.image = r.image config
        ∧ l.support = (r.imports config).support
        ∧ ∀ name ∈ (r.image config).host, c.allows name = true)
      ∨ ∃ name ∈ (r.image config).host, c.allows name = false
        ∧ (r.image config).link c = .error (.capabilityDenied name) :=
  Image.link_of_checked (flaw?_image h) (Image.resolveSupport_map_name _)
    (fun _ hmem => arityError?_eq_none h hmem) c

namespace Target

variable {t : Target} {config : CompilerConfig} {script : Script} {p : Program}

/--
**The back end accepts what the front end makes.**

Whatever settings it is compiled with, a routine of a generated program is refused only for a number
that is too large: every variant that it calls is there, and the writing of its image goes through,
with all jumps mended. The image is well formed. It is linked exactly if every primitive that it
names is allowed; otherwise one of those that are not allowed is the error. So each function that it
names is known, and is called with as many values as it takes.
-/
theorem accepted_of_generate (h : (t.generate config script).outcome = .ok p) {r : Routine}
    (hr : r ∈ p.routines) (config' : CompilerConfig) :
    (∀ e, r.compile p config' = .error e → ∃ what, e = .tooMany what r.label)
      ∧ ∀ image, r.compile p config' = .ok image →
          image.verify = .ok ()
          ∧ ∀ c : Capabilities,
            ((∃ l, image.link c = .ok l) ↔ ∀ name ∈ image.host, c.allows name = true)
            ∧ ∀ e, image.link c = .error e →
                ∃ name ∈ image.host, c.allows name = false ∧ e = .capabilityDenied name := by
  have hp := generatedBy_of_generate h
  refine ⟨fun e he => Routine.compile_eq_error (hp.called r hr) he, fun image himage => ?_⟩
  obtain ⟨rfl, hfits⟩ := Routine.fitsImage_of_compile himage (proper_of_generatedBy hp hr)
  refine ⟨by rw [Image.verify, Routine.flaw?_image hfits], fun c => ?_⟩
  rcases Routine.link_image hfits c with ⟨l, hl, -, -, hallowed⟩ | ⟨name, hname, hdenied, hlink⟩
  · exact ⟨⟨fun _ => hallowed, fun _ => ⟨l, hl⟩⟩, fun e he => by rw [hl] at he; cases he⟩
  · refine ⟨⟨fun ⟨l, hl⟩ => ?_, fun hallowed => ?_⟩, fun e he => ?_⟩
    · rw [hlink] at hl
      cases hl
    · rw [hallowed name hname] at hdenied
      cases hdenied
    · rw [hlink] at he
      cases he
      exact ⟨name, hname, hdenied, rfl⟩

/-- A procedure in warp that repeats a choice between speaking and counting. -/
def chorus : Target where
  blocks := .ofList
    [{ opcode := "control_repeat", inputs := [("TIMES", .block 1), ("SUBSTACK", .block 2)] },
     { opcode := "argument_reporter_string_number", fields := [("VALUE", "verses")] },
     { opcode := "control_if_else",
       inputs := [("CONDITION", .block 3), ("SUBSTACK", .block 5), ("SUBSTACK2", .block 6)] },
     { opcode := "operator_gt",
       inputs := [("OPERAND1", .block 4), ("OPERAND2", .literal (.text "1"))] },
     { opcode := "argument_reporter_string_number", fields := [("VALUE", "verses")] },
     { opcode := "looks_say", inputs := [("MESSAGE", .literal (.text "la"))] },
     { opcode := "data_changevariableby", fields := [("VARIABLE", "rests")],
       inputs := [("VALUE", .literal (.text "1"))] },
     { opcode := "procedures_call", proccode := some "sing %s",
       inputs := [("a", .literal (.text "3"))] }]
  procedures :=
    [{ proccode := "sing %s", warp := true, body := some 0,
       params := [⟨"a", "verses", .textOrNumber⟩] }]

/-- A script that calls the procedure of `chorus`. -/
def chorusScript : Script := ⟨"main", chorus.blocks, some 7, false⟩

theorem accepted_chorus :
    ∃ p r image, (chorus.generate ⟨0, true⟩ chorusScript).outcome = .ok p ∧ r ∈ p.routines
      ∧ r.compile p ⟨0, true⟩ = .ok image ∧ image.host = ["looks_say"] ∧ image.locals = 2
      ∧ image.verify = .ok ()
      ∧ (∃ l, image.link .standard = .ok l) ∧ ¬ ∃ l, image.link .none = .ok l := by
  have hcompile : (chorus.generate ⟨0, true⟩ chorusScript).outcome.toOption.bind (fun p =>
      p.routines[1]?.bind fun r => (r.compile p ⟨0, true⟩).toOption.map fun image =>
        (image.host, image.locals)) = some (["looks_say"], 2) := by decide +kernel
  obtain ⟨p, hp, hcompile⟩ := Option.bind_eq_some_iff.mp hcompile
  obtain ⟨r, hr, hcompile⟩ := Option.bind_eq_some_iff.mp hcompile
  obtain ⟨image, himage, hhost⟩ := Option.map_eq_some_iff.mp hcompile
  have himage := eq_ok_of_toOption himage
  obtain ⟨hhost, hlocals⟩ := Prod.mk.inj hhost
  have hmem := List.mem_of_getElem? hr
  obtain ⟨hverify, hlink⟩ :=
    (accepted_of_generate (eq_ok_of_toOption hp) hmem ⟨0, true⟩).2 image himage
  refine ⟨p, r, image, eq_ok_of_toOption hp, hmem, himage, hhost, hlocals, hverify,
    (hlink _).1.mpr ?_, fun hnone => ?_⟩
  · rw [hhost]
    decide
  · have h := (hlink .none).1.mp hnone "looks_say" (by rw [hhost]; exact List.mem_singleton_self _)
    cases h

end Target

end BlockScript
