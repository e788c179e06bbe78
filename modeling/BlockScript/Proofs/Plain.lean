import BlockScript.Proofs.Marks
import BlockScript.Proofs.Untimed
import BlockScript.Proofs.Verification

/-!
# Routines without the deadline

Whatever the settings of the compiler are, what is left of the image of a routine without the
instructions and slots for the deadline is the same (`Routine.plain`). Outside warp it is the whole
image (`Routine.image_of_not_warp`).

Main statement: programs that are made of the same script with different settings have the same
variants, and their routines are the same apart from the intervals of loops
(`Target.alike_of_generate`).
-/

namespace BlockScript

/-! ## Code that does not look at the deadline -/

namespace CodeSettings

variable {s : CodeSettings} {warpSafe : Bool}

/-- No loop looks at the deadline. -/
def Quiet (s : CodeSettings) : Prop := (s.warp && s.timer) = false

theorem quiet_plain (s : CodeSettings) : s.plain.Quiet := by
  rw [Quiet, plain, Bool.and_false]

theorem Quiet.checksDeadline (h : s.Quiet) (warpSafe : Bool) :
    s.checksDeadline warpSafe = false := by
  rw [Quiet] at h
  cases hwarp : s.warp <;> simp_all [CodeSettings.checksDeadline, runsWarp]

theorem Quiet.deadlineSlots (h : s.Quiet) (warpSafe : Bool) : s.deadlineSlots warpSafe = 0 := by
  rw [CodeSettings.deadlineSlots, h.checksDeadline, if_neg Bool.false_ne_true]

end CodeSettings

namespace Stmt

variable {s : CodeSettings} {i : Imports}

theorem deadlineStart_of_quiet (h : s.Quiet) (warpSafe : Bool) (slot : Nat) :
    deadlineStart s warpSafe slot = [] := by
  rw [deadlineStart, h.checksDeadline, if_neg Bool.false_ne_true]

theorem roundEnd_of_quiet (h : s.Quiet) (warpSafe : Bool) (slot : Nat) (interval : UInt32) :
    roundEnd s warpSafe slot interval = roundEnd s.plain warpSafe slot 0 := by
  rw [roundEnd, roundEnd, s.runsWarp_plain]
  cases hwarp : s.runsWarp warpSafe with
  | false => rfl
  | true =>
    have htimer : s.timer = false := by
      have hchecks := h.checksDeadline warpSafe
      rwa [CodeSettings.checksDeadline, hwarp, Bool.true_and] at hchecks
    rw [htimer]
    rfl

theorem isEmpty_allUntimed (ts : List Stmt) : (allUntimed ts).isEmpty = ts.isEmpty := by
  cases ts <;> rfl

mutual

theorem slots_of_quiet (h : s.Quiet) : ∀ t : Stmt, slots s t = slots s.plain t.untimed
  | .branch c yes no => by
    rw [untimed, slots, slots, allSlots_of_quiet h yes, allSlots_of_quiet h no]
  | .loop kind body warpSafe interval => by
    rw [untimed, slots, slots, allSlots_of_quiet h body, h.deadlineSlots, s.deadlineSlots_plain]
  | .call _ _ _ | .set _ _ | .change _ _ | .wait _ | .host _ _ | .done | .escape _ _ _ => rfl

theorem allSlots_of_quiet (h : s.Quiet) :
    ∀ ts : List Stmt, allSlots s ts = allSlots s.plain (allUntimed ts)
  | [] => rfl
  | t :: ts => by rw [allUntimed, allSlots, allSlots, slots_of_quiet h t, allSlots_of_quiet h ts]

end

mutual

theorem code_of_quiet (h : s.Quiet) : ∀ (t : Stmt) (base : Nat),
    t.code s i base = t.untimed.code s.plain i base
  | .branch c yes no, base => by
    rw [untimed, code, code, allCode_of_quiet h yes, allCode_of_quiet h no, allSlots_of_quiet h yes,
      isEmpty_allUntimed]
  | .loop kind body warpSafe interval, base => by
    simp only [untimed, code, h.deadlineSlots, s.deadlineSlots_plain, deadlineStart_of_quiet h,
      deadlineStart_of_quiet s.quiet_plain, roundEnd_of_quiet h warpSafe _ interval,
      allCode_of_quiet h body]
  | .call _ _ _, _ | .set _ _, _ | .change _ _, _ | .wait _, _ | .host _ _, _ | .done, _
  | .escape _ _ _, _ => code_of_isFlat rfl s s.plain _ _

/-- Code that does not look at the deadline does not depend on intervals either. -/
theorem allCode_of_quiet (h : s.Quiet) : ∀ (ts : List Stmt) (base : Nat),
    allCode s i base ts = allCode s.plain i base (allUntimed ts)
  | [], _ => rfl
  | t :: ts, base => by
    rw [allUntimed, allCode, allCode, code_of_quiet h t, allCode_of_quiet h ts, slots_of_quiet h t]

end

end Stmt

/-! ## Imports -/

/-- The demand asks for something by its name. -/
def Demand.isName : Demand → Bool
  | .support _ | .host _ | .procedure _ => true
  | _ => false

theorem Imports.ofDemands_filter (ds : List Demand) :
    ofDemands (ds.filter Demand.isName) = ofDemands ds := by
  simp only [ofDemands, List.filterMap_filter]
  congr 2 <;>
  · refine List.filterMap_congr fun d _ => ?_
    cases d <;> rfl

namespace Stmt

mutual

theorem names_untimed (s s' : CodeSettings) : ∀ (t : Stmt) (base base' : Nat),
    (t.demands s base).filter Demand.isName = (t.untimed.demands s' base').filter Demand.isName
  | .branch c yes no, base, base' => by
    rw [untimed, demands, demands, isEmpty_allUntimed]
    simp only [List.filter_append, allNames_untimed s s' yes base base']
    cases no.isEmpty with
    | true => rfl
    | false =>
      simp [Demand.isName, allNames_untimed s s' no _ (base' + allSlots s' (allUntimed yes))]
  | .loop kind body warpSafe interval, base, base' => by
    have hcount : (kind.countDemands base).filter Demand.isName
        = (kind.countDemands base').filter Demand.isName := by
      cases kind <;> simp [LoopKind.countDemands, List.filter_cons, Demand.isName]
    have hslot : ∀ (b : Bool) (n : Nat),
        (if b = true then [Demand.slot n] else []).filter Demand.isName = [] := by
      intro b n
      cases b <;> rfl
    have hexit : ∀ round, (kind.exitDemands round).filter Demand.isName = [] := by
      intro round
      cases kind <;> rfl
    rw [untimed, demands, demands]
    simp [List.filter_append, Demand.isName, hcount, hslot, hexit,
      allNames_untimed s s' body _ (base' + kind.slots + s'.deadlineSlots warpSafe)]
  | .call _ _ _, _, _ | .set _ _, _, _ | .change _ _, _, _ | .wait _, _, _ | .host _ _, _, _
  | .done, _, _ | .escape _ _ _, _, _ => by
    rw [untimed, demands, demands]
    all_goals simp

/-- What code asks for by name does not depend on settings or intervals. -/
theorem allNames_untimed (s s' : CodeSettings) : ∀ (ts : List Stmt) (base base' : Nat),
    (allDemands s base ts).filter Demand.isName
      = (allDemands s' base' (allUntimed ts)).filter Demand.isName
  | [], _, _ => rfl
  | t :: ts, base, base' => by
    rw [allUntimed, allDemands, allDemands, List.filter_append, List.filter_append,
      names_untimed s s' t base base', allNames_untimed s s' ts]

end

end Stmt

/-! ## Images without the deadline -/

/-- The marks of code and of its local slots, and what the code refers to. -/
structure Marking where
  code : List Mark
  slots : List Mark
  scope : CodeScope

namespace Routine

variable {r r' : Routine} {c c' : CompilerConfig}

/-- The image of the routine without the deadline. -/
def plain (r : Routine) : Image := r.untimed.image { warpTimer := false }

theorem imports_untimed (r : Routine) (c c' : CompilerConfig) :
    r.untimed.imports c' = r.imports c := by
  have hnames := Stmt.allNames_untimed (r.settings c) (r.untimed.settings c') r.stack 0 0
  rw [imports, imports, ← Imports.ofDemands_filter, ← Imports.ofDemands_filter (r.demands c)]
  exact congrArg Imports.ofDemands hnames.symm

theorem settings_untimed (r : Routine) (c : CompilerConfig) :
    r.untimed.settings { warpTimer := false } = (r.settings c).plain := rfl

theorem ops_plain (r : Routine) (c : CompilerConfig) :
    r.plain.ops = Stmt.allCode (r.settings c).plain (r.imports c) 0 r.stack ++ [.ret] := by
  have hcode := Stmt.allCode_of_quiet (i := r.imports c) (r.settings c).quiet_plain r.stack 0
  rw [plain, image, code, settings_untimed r c, imports_untimed r c, hcode]
  rfl

theorem locals_plain (r : Routine) (c : CompilerConfig) :
    r.plain.locals = UInt16.ofNat (Stmt.allSlots (r.settings c).plain r.stack) := by
  have hslots := Stmt.allSlots_of_quiet (r.settings c).quiet_plain r.stack
  rw [plain, image, settings_untimed r c, hslots]
  rfl

/-- **Outside warp images do not depend on the settings.** -/
theorem image_of_not_warp (h : r.warp = false) (c : CompilerConfig) : r.image c = r.plain := by
  have hquiet : (r.settings c).Quiet := by
    rw [CodeSettings.Quiet, settings, h, Bool.false_and]
  rw [plain, image, image, code, code, imports_untimed r c, settings_untimed r c,
    Stmt.allCode_of_quiet hquiet, Stmt.allSlots_of_quiet hquiet]
  rfl

/-- The marks of the routine; the return at its end is there with all settings. -/
def marking (r : Routine) (c : CompilerConfig) : Marking where
  code := Stmt.allMarks (r.settings c) r.stack ++ [.common]
  slots := Stmt.allSlotMarks (r.settings c) r.stack
  scope := r.scope c

/-- **The code of a routine is what its marks say.** -/
theorem conforms_of_compile {p : Program} {image : Image} (h : r.compile p c = .ok image) {pc : Nat}
    {op : Instr} (hop : image.ops[pc]? = some op) :
    op.Conforms r.plain.ops (r.marking c).code (r.marking c).slots pc := by
  obtain ⟨rfl, -, hmet⟩ := compile_eq_ok h
  have habreast : Stmt.AbreastAt (r.code c) r.plain.ops (r.marking c).code (r.marking c).slots
      (r.settings c) (r.imports c) r.stack 0 0 := by
    refine ⟨CodeAt.whole _ _, ?_, List.prefix_append _ _, List.prefix_refl _, hmet⟩
    rw [ops_plain r c]
    exact CodeAt.whole _ _
  have hop : (Stmt.allCode (r.settings c) (r.imports c) 0 r.stack ++ [.ret])[pc]? = some op := hop
  have hlength := Stmt.length_allCode (r.settings c) (r.imports c) 0 r.stack
  rcases Nat.lt_or_ge pc (Stmt.allSize (r.settings c) r.stack) with hlt | hge
  · exact Stmt.aligned_allCode r.stack habreast pc op (Nat.zero_le _) (by omega) hop
  · have hlast : pc = Stmt.allSize (r.settings c) r.stack := by
      have hpc := (List.getElem?_eq_some_iff.mp hop).1
      rw [List.length_append, List.length_singleton, hlength] at hpc
      omega
    have hret : op = .ret := by
      rw [hlast, ← hlength, List.getElem?_concat_length] at hop
      exact (Option.some.inj hop).symm
    subst hret hlast
    have hrank := habreast.rank
    rw [Nat.zero_add] at hrank
    refine .common ?_ ?_ (.same rfl)
    · rw [marking, ← Stmt.length_allMarks, List.getElem?_concat_length]
    · rw [hrank, ops_plain r c, ← Stmt.length_allCode _ (r.imports c) 0]
      simp [Mark.rank]

end Routine

/-- The routine is an image with instructions and slots for the deadline on top of it, as the marks
say. -/
structure Linked.Renders (i : Image) (k : Marking) (l : Linked) : Prop where
  name : l.image.name = i.name
  support : l.image.support = i.support
  host : l.image.host = i.host
  procedures : l.image.procedures = i.procedures
  slots : l.image.locals.toNat = k.slots.length
  counters : i.locals.toNat = k.slots.count .common
  conforms : ∀ {pc : Nat} {op : Instr}, l.image.ops[pc]? = some op →
    op.Conforms i.ops k.code k.slots pc
  orderly : Mark.Orderly k.code
  fine : ∀ {pc : Nat} {op : Instr}, l.image.ops[pc]? = some op → op.FineAt k.scope l.image.ops pc

theorem Routine.renders_of_compile {r : Routine} {c : CompilerConfig} {p : Program} {l : Linked}
    {t : Target} {warp : Bool} (h : r.compile p c = .ok l.image)
    (hproper : ∀ n ∈ Stmt.allNodes r.stack, n.ProperIn t warp r.arguments) :
    l.Renders r.plain (r.marking c) := by
  obtain ⟨himage, hfits⟩ := fitsImage_of_compile h hproper
  have hlocals := toNat_locals hfits
  have hcount := Stmt.count_allSlotMarks (r.settings c) r.stack
  have hlength := Stmt.length_allSlotMarks (r.settings c) r.stack
  have hle : Stmt.allSlots (r.settings c).plain r.stack ≤ Stmt.allSlots (r.settings c) r.stack := by
    rw [← hcount, ← hlength]
    exact List.count_le_length
  refine ⟨?_, ?_, ?_, ?_, ?_, ?_, conforms_of_compile h, ?_, ?_⟩
  · rw [himage]
    rfl
  · rw [himage, plain, image, image, imports_untimed r c]
  · rw [himage, plain, image, image, imports_untimed r c]
  · rw [himage, plain, image, image, imports_untimed r c]
  · rw [himage, hlocals, marking, hlength]
  · have hslots := hfits.slots
    rw [locals_plain r c, marking, hcount, UInt16.toNat_ofNat']
    omega
  · exact (Stmt.orderly_allMarks _ _).append (Stmt.orderly_replicate 1)
  · rw [himage]
    exact fun hop => hfits.fine _ _ hop

/-! ## Programs -/

/-- Routines that are the same apart from the intervals of loops, under the same keys. -/
def VariantTable.Alike (t t' : VariantTable Routine) : Prop :=
  List.Forall₂ (fun e e' => e.1 = e'.1 ∧ e.2.untimed = e'.2.untimed) t.entries t'.entries

/-- The programs are the same apart from the intervals of loops. -/
structure Program.Alike (p p' : Program) : Prop where
  entry : p.entry.untimed = p'.entry.untimed
  procedures : p.procedures.Alike p'.procedures

theorem VariantTable.Alike.insert {t t' : VariantTable Routine} (h : t.Alike t') (k : VariantKey)
    {r r' : Routine} (hr : r.untimed = r'.untimed) : (t.insert k r).Alike (t'.insert k r') := by
  rw [Alike] at h
  rw [Alike, VariantTable.insert, VariantTable.insert]
  generalize t.entries = es at h
  generalize t'.entries = es' at h
  induction h with
  | nil => exact .cons ⟨rfl, hr⟩ .nil
  | @cons e e' es es' he hes ih =>
    obtain ⟨l, a⟩ := e
    obtain ⟨l', a'⟩ := e'
    obtain ⟨rfl, ha⟩ := he
    rw [insertEntry, insertEntry]
    cases k.compare l with
    | lt => exact .cons ⟨rfl, hr⟩ (.cons ⟨rfl, ha⟩ hes)
    | eq => exact .cons ⟨rfl, hr⟩ hes
    | gt => exact .cons ⟨rfl, ha⟩ ih

namespace Stmt

mutual

theorem calls_untimed : ∀ t : Stmt, t.untimed.calls = t.calls
  | .branch c yes no => by
    rw [untimed, calls, calls, allCalls_untimed yes, allCalls_untimed no]
  | .loop kind body warpSafe interval => by rw [untimed, calls, calls, allCalls_untimed body]
  | .call _ _ _ | .set _ _ | .change _ _ | .wait _ | .host _ _ | .done | .escape _ _ _ => rfl

theorem allCalls_untimed : ∀ ts : List Stmt, allCalls (allUntimed ts) = allCalls ts
  | [] => rfl
  | t :: ts => by rw [allUntimed, allCalls, allCalls, calls_untimed t, allCalls_untimed ts]

end

end Stmt

namespace Target

variable {t : Target} {c c' : CompilerConfig}

theorem requestCalls_of_untimed {r r' : Routine} (h : r.untimed = r'.untimed) (q : VariantQueue) :
    t.requestCalls q r = t.requestCalls q r' := by
  have hstack : Stmt.allUntimed r.stack = Stmt.allUntimed r'.stack := congrArg Routine.stack h
  rw [requestCalls, requestCalls, ← Stmt.allCalls_untimed, hstack, Stmt.allCalls_untimed]

/-- What is made of the same queue with different settings. -/
theorem alike_of_makeVariants {entry entry' : Routine} (hentry : entry.untimed = entry'.untimed)
    {p p' : Program} : ∀ (steps : Nat) {q : VariantQueue} {made made' : VariantTable Routine}
    {begun begun' : List VariantKey}, made.Alike made' →
    (t.makeVariants c entry steps q made begun).outcome = .ok p →
    (t.makeVariants c' entry' steps q made' begun').outcome = .ok p' → p.Alike p'
  | 0, q, made, made', begun, begun', hmade, hp, hp' => by
    cases hp
    cases hp'
    exact ⟨hentry, hmade⟩
  | steps + 1, q, made, made', begun, begun', hmade, hp, hp' => by
    rw [makeVariants] at hp hp'
    cases hnext : q.next? with
    | none =>
      rw [hnext] at hp hp'
      cases hp
      cases hp'
      exact ⟨hentry, hmade⟩
    | some next =>
      obtain ⟨request, q'⟩ := next
      rw [hnext] at hp hp'
      cases hr : t.variantRoutine c request with
      | error e =>
        simp only [hr] at hp
        cases hp
      | ok r =>
        cases hr' : t.variantRoutine c' request with
        | error e =>
          simp only [hr'] at hp'
          cases hp'
        | ok r' =>
          simp only [hr] at hp
          simp only [hr'] at hp'
          have huntimed := untimed_variantRoutine hr' hr
          rw [← requestCalls_of_untimed huntimed] at hp'
          exact alike_of_makeVariants hentry steps (hmade.insert request.key huntimed) hp hp'

/-- **Programs that are made of one script with different settings are the same**, apart from the
intervals of loops. -/
theorem alike_of_generate {script : Script} {p p' : Program}
    (hp : (t.generate c script).outcome = .ok p) (hp' : (t.generate c' script).outcome = .ok p') :
    p.Alike p' := by
  unfold generate at hp hp'
  cases hr : t.entryRoutine c script with
  | error e =>
    rw [hr] at hp
    cases hp
  | ok r =>
    cases hr' : t.entryRoutine c' script with
    | error e =>
      rw [hr'] at hp'
      cases hp'
    | ok r' =>
      rw [hr] at hp
      rw [hr'] at hp'
      have huntimed := untimed_entryRoutine hr' hr
      dsimp only at hp hp'
      rw [← requestCalls_of_untimed huntimed] at hp'
      exact alike_of_makeVariants huntimed _ .nil hp hp'

end Target

end BlockScript
