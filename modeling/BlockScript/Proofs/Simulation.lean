import BlockScript.Proofs.Turns
import BlockScript.Proofs.Verification

/-!
# The machine does what the trees mean

The machine runs the code of a routine just as its trees are evaluated: for each kind of code there
is a statement `Standing.Follows`, relative to the place of the code in the routine.

An expression leaves its value on the stack. A statement leaves the stack empty, as it found it, and
of the local slots it changes its own at most. A routine ends at a return instruction, wherever it
is left, and a call is the run of another routine with one unit of fuel less.
-/

namespace BlockScript

open Standing

/-- What the code of a routine is run with: its tables are those of the linked image, and the
arguments are truth values where they must be. -/
structure Staged {σ : Type} (x : Context σ) (i : Imports) (sig : List Shape) (l : Linked) :
    Prop where
  support : l.support = i.support
  host : l.image.host = i.host
  procedures : l.image.procedures = i.procedures
  args : List.Forall₂ (fun shape v => v.Honours shape) sig x.args

/-- An escape has so few inputs that the machine can count them. -/
def Expr.EscapesFit : Expr → Prop
  | .escape _ _ inputs => inputs.length < 65536
  | _ => True

instance : DecidablePred Expr.EscapesFit
  | .escape _ _ inputs => inferInstanceAs (Decidable (inputs.length < 65536))
  | .const _ | .arg _ _ | .var _ | .unary _ _ | .binary _ _ _ | .host _ _ _ => isTrue trivial

variable {σ : Type} {x : Context σ} {s : Setting} {i : Imports} {sig : List Shape} {l : Linked}
  {callers : List Frame} {L : σ → Standing σ → Prop}

/-! ## Calls to the host -/

/-- The machine looks for a result until it has come. -/
theorem Outside.follows_await {id : PendingId} {args : List Value} {pc : Nat}
    {st locals : List Value} (n : Nat) {w : σ} :
    Follows x.outside s n
      (.on ({ l.frame args pc st locals with pending := some id } :: callers) w)
      (x.outside.await id n w)
      (fun v w' t => t = .on (l.frame args (pc + 1) (st ++ [v]) locals :: callers) w') L := by
  induction n generalizing w with
  | zero => exact ⟨0, Or.inr ⟨Nat.le_refl 0, _, rfl⟩⟩
  | succ n ih =>
    rw [await]
    refine Follows.ask_succ turn_poll fun answer w' => ?_
    cases answer with
    | some v => exact Follows.pure rfl
    | none => exact ih

/-- The machine calls a primitive and leaves its result on the stack. -/
theorem Outside.follows_callPrimitive (hx : Staged x i sig l) {opcode : String} {n pc : Nat}
    {st locals vs : List Value} {w : σ} (hmeets : i.Meets (.host opcode))
    (hn : i.Meets (.arguments vs.length))
    (hat : CodeAt l.image.ops pc [i.callHost opcode vs.length]) :
    Follows x.outside s n (.on (l.frame x.args pc (st ++ vs) locals :: callers) w)
      (x.outside.callPrimitive n opcode vs w)
      (fun v w' t => t = .on (l.frame x.args (pc + 1) (st ++ [v]) locals :: callers) w') L := by
  have htoNat : vs.length = (UInt16.ofNat vs.length).toNat := by
    have : vs.length < 65536 := hn
    simp
    omega
  have hname : l.image.host[(UInt16.ofNat (i.host.idxOf opcode)).toNat]? = some opcode := by
    rw [hx.host]
    exact hmeets
  refine Follows.ask (turn_callHost hat.head hname htoNat rfl) fun answer w' => ?_
  cases answer with
  | ready v => exact Follows.pure rfl
  | pending id => exact follows_await n

/-- The machine lets the host run a block and leaves its answer on the stack. -/
theorem Outside.follows_escape {block : BlockId} {opcode : String} {inputs : List (String × Expr)}
    {vs : List (String × Value)} {n pc : Nat} {st locals : List Value} {w : σ}
    (hvs : vs.map Prod.fst = inputs.map Prod.fst) (hlt : inputs.length < 65536)
    (hat : CodeAt l.image.ops pc [.escape block opcode (inputs.map Prod.fst)]) :
    Follows x.outside s n (.on (l.frame x.args pc (st ++ vs.map Prod.snd) locals :: callers) w)
      (ask (x.outside.host.evaluate · block opcode vs) w)
      (fun v w' t => t = .on (l.frame x.args (pc + 1) (st ++ [v]) locals :: callers) w') L := by
  have hzip : (inputs.map Prod.fst).zip (vs.map Prod.snd) = vs := (List.zip_of_prod hvs rfl).symm
  have hlen : (vs.map Prod.snd).length = (inputs.map Prod.fst).length := by
    rw [← hvs, List.length_map, List.length_map]
  exact Follows.ask_end (u := fun v w' => .on (l.frame x.args _ (st ++ [v]) locals :: callers) w')
    (turn_escape hat.head hlen (by rwa [List.length_map]) (by rw [hzip])) fun v w' => rfl

/-! ## Expressions -/

/-- The machine applies a support function to the values on top of the stack. -/
theorem Staged.turn_support (hx : Staged x i sig l) {f : Support} {n pc : Nat}
    {st locals vs : List Value} {w : σ} (hmeets : i.Meets (.support f)) (hn : n < 65536)
    (hvs : vs.length = n) (hat : CodeAt l.image.ops pc [i.callSupport f n]) :
    (Standing.on (l.frame x.args pc (st ++ vs) locals :: callers) w).turn x.outside s
      = .on (l.frame x.args (pc + 1) (st ++ [f.apply vs]) locals :: callers) w := by
  have htoNat : vs.length = (UInt16.ofNat n).toNat := by
    simp
    omega
  have hf : l.support[(UInt16.ofNat (i.support.idxOf f)).toNat]? = some f := by
    rw [hx.support]
    exact hmeets
  exact turn_callSupport hat.head hf htoNat

namespace Support

theorem honours_apply (f : Support) (args : List Value) : (f.apply args).Honours f.shape := by
  intro hshape
  have h := f.hasShape_apply args
  rw [hshape] at h
  exact h

end Support

namespace Expr

mutual

/-- **The machine evaluates an expression** and leaves its value on the stack. -/
theorem follows_eval (hx : Staged x i sig l) :
    ∀ (e : Expr) {a : Nat} {st locals : List Value} {w : σ},
    CodeAt l.image.ops a (e.code i) → (∀ d ∈ e.demands, i.Meets d) →
    (∀ n ∈ e.nodes, n.ScopedIn sig ∧ n.EscapesFit) →
    Follows x.outside s x.fuel (.on (l.frame x.args a st locals :: callers) w) (e.eval x w)
      (fun v w' t => v.Honours e.shape
        ∧ t = .on (l.frame x.args (a + e.size) (st ++ [v]) locals :: callers) w') L
  | .const v, a, st, locals, w, hat, _, _ => by
    rw [eval]
    refine Follows.step (turn_push hat.head) (Follows.pure ⟨fun hshape => ?_, rfl⟩)
    have h := v.hasShape_shape
    rw [show v.shape = .boolean from hshape] at h
    exact h
  | .arg index shape, a, st, locals, w, hat, _, hscope => by
    have hshape : sig[index.toNat]? = some shape := (hscope _ (self_mem_nodes _)).1
    obtain ⟨v, hv, hhonours⟩ := exists_getElem?_of_forall₂ hx.args hshape
    rw [eval, hv]
    exact Follows.step (turn_loadArg hat.head hv) (Follows.pure ⟨hhonours, rfl⟩)
  | .var name, a, st, locals, w, hat, _, _ => by
    rw [eval]
    exact Follows.ask_end
      (u := fun v w' => .on (l.frame x.args (a + 1) (st ++ [v]) locals :: callers) w')
      (turn_getVariable hat.head) fun v w' => ⟨fun h => (by cases h), rfl⟩
  | .unary op e, a, st, locals, w, hat, hmeets, hscope => by
    rw [Expr.code] at hat
    simp only [demands, List.mem_append, List.mem_singleton] at hmeets
    rw [nodes, List.forall_mem_cons] at hscope
    rw [eval]
    refine Follows.bind (follows_eval hx e hat.left (fun d hd => hmeets d (Or.inl hd)) hscope.2) ?_
    rintro v w' t ⟨-, rfl⟩
    refine Follows.step (hx.turn_support (hmeets _ (Or.inr rfl)) (n := 1) (by omega) rfl
      (length_code i e ▸ hat.right)) (Follows.pure ⟨?_, rfl⟩)
    rw [shape, ← op.shape_support]
    exact Support.honours_apply _ _
  | .binary op e₁ e₂, a, st, locals, w, hat, hmeets, hscope => by
    rw [Expr.code, List.append_assoc] at hat
    simp only [demands, List.mem_append, List.mem_singleton] at hmeets
    rw [nodes, List.forall_mem_cons, List.forall_mem_append] at hscope
    have hat₂ := length_code i e₁ ▸ hat.right
    rw [eval]
    refine Follows.bind (follows_eval hx e₁ hat.left (fun d hd => hmeets d (Or.inl (Or.inl hd)))
      hscope.2.1) ?_
    rintro v₁ w₁ t₁ ⟨-, rfl⟩
    refine Follows.bind (follows_eval hx e₂ hat₂.left (fun d hd => hmeets d (Or.inl (Or.inr hd)))
      hscope.2.2) ?_
    rintro v₂ w₂ t₂ ⟨-, rfl⟩
    rw [List.append_assoc]
    refine Follows.step (hx.turn_support (hmeets _ (Or.inr rfl)) (n := 2) (by omega) rfl
      (length_code i e₂ ▸ hat₂.right)) (Follows.pure ⟨?_, ?_⟩)
    · rw [shape, ← op.shape_support]
      exact Support.honours_apply _ _
    · rw [size, ← Nat.add_assoc, ← Nat.add_assoc]
      rfl
  | .host opcode args shape, a, st, locals, w, hat, hmeets, hscope => by
    rw [Expr.code] at hat
    simp only [demands, List.mem_append, List.mem_cons, List.not_mem_nil, or_false] at hmeets
    rw [nodes, List.forall_mem_cons] at hscope
    rw [eval]
    refine Follows.bind (follows_evalAll hx args hat.left (fun d hd => hmeets d (Or.inl hd))
      hscope.2) ?_
    rintro vs w' t ⟨hvs, rfl⟩
    have hlen := hvs.length_eq
    have hcall := length_allCode i args ▸ hat.right
    rw [hlen] at hcall
    refine (Outside.follows_callPrimitive hx (hmeets _ (Or.inr (Or.inr rfl)))
      (hlen ▸ hmeets _ (Or.inr (Or.inl rfl))) hcall).imp ?_
    rintro v w'' t rfl
    exact ⟨fun hshape => absurd hshape hscope.1.1, rfl⟩
  | .escape block opcode inputs, a, st, locals, w, hat, hmeets, hscope => by
    rw [Expr.code] at hat
    rw [nodes, List.forall_mem_cons] at hscope
    rw [eval]
    refine Follows.bind (follows_evalInputs hx inputs hat.left hmeets hscope.2) ?_
    rintro vs w' t ⟨hvs, rfl⟩
    refine (Outside.follows_escape hvs hscope.1.2 (length_inputCode i inputs ▸ hat.right)).imp ?_
    rintro v w'' t rfl
    exact ⟨fun h => (by cases h), rfl⟩

/-- The machine evaluates expressions and leaves their values on the stack. -/
theorem follows_evalAll (hx : Staged x i sig l) : ∀ (es : List Expr) {a : Nat}
    {st locals : List Value} {w : σ}, CodeAt l.image.ops a (allCode i es) →
    (∀ d ∈ allDemands es, i.Meets d) → (∀ n ∈ allNodes es, n.ScopedIn sig ∧ n.EscapesFit) →
    Follows x.outside s x.fuel (.on (l.frame x.args a st locals :: callers) w) (evalAll x es w)
      (fun vs w' t => List.Forall₂ (fun e v => v.Honours e.shape) es vs
        ∧ t = .on (l.frame x.args (a + allSize es) (st ++ vs) locals :: callers) w') L
  | [], a, st, locals, w, _, _, _ => by
    rw [evalAll]
    exact Follows.pure ⟨.nil, by rw [List.append_nil]; rfl⟩
  | e :: es, a, st, locals, w, hat, hmeets, hscope => by
    rw [allCode] at hat
    rw [allDemands, List.forall_mem_append] at hmeets
    rw [allNodes, List.forall_mem_append] at hscope
    rw [evalAll]
    refine Follows.bind (follows_eval hx e hat.left hmeets.1 hscope.1) ?_
    rintro v w' t ⟨hv, rfl⟩
    refine Follows.bind (follows_evalAll hx es (length_code i e ▸ hat.right) hmeets.2 hscope.2) ?_
    rintro vs w'' t ⟨hvs, rfl⟩
    refine Follows.pure ⟨.cons hv hvs, ?_⟩
    rw [allSize, ← Nat.add_assoc, List.append_assoc, List.singleton_append]

/-- The machine evaluates named expressions and leaves their values on the stack. -/
theorem follows_evalInputs (hx : Staged x i sig l) : ∀ (inputs : List (String × Expr)) {a : Nat}
    {st locals : List Value} {w : σ}, CodeAt l.image.ops a (inputCode i inputs) →
    (∀ d ∈ inputDemands inputs, i.Meets d) →
    (∀ n ∈ inputNodes inputs, n.ScopedIn sig ∧ n.EscapesFit) →
    Follows x.outside s x.fuel (.on (l.frame x.args a st locals :: callers) w)
      (evalInputs x inputs w)
      (fun vs w' t => vs.map Prod.fst = inputs.map Prod.fst
        ∧ t = .on (l.frame x.args (a + inputSize inputs) (st ++ vs.map Prod.snd) locals :: callers)
          w') L
  | [], a, st, locals, w, _, _, _ => by
    rw [evalInputs]
    exact Follows.pure ⟨rfl, by rw [List.map_nil, List.append_nil]; rfl⟩
  | (name, e) :: inputs, a, st, locals, w, hat, hmeets, hscope => by
    rw [inputCode] at hat
    rw [inputDemands, List.forall_mem_append] at hmeets
    rw [inputNodes, List.forall_mem_append] at hscope
    rw [evalInputs]
    refine Follows.bind (follows_eval hx e hat.left hmeets.1 hscope.1) ?_
    rintro v w' t ⟨-, rfl⟩
    refine Follows.bind (follows_evalInputs hx inputs (length_code i e ▸ hat.right) hmeets.2
      hscope.2) ?_
    rintro vs w'' t ⟨hvs, rfl⟩
    refine Follows.pure ⟨by rw [List.map_cons, List.map_cons, hvs], ?_⟩
    rw [inputSize, ← Nat.add_assoc, List.append_assoc, List.map_cons, List.singleton_append]

end

end Expr

namespace Expr

/-- The machine evaluates a condition and leaves its truth value on the stack. -/
theorem follows_holds (hx : Staged x i sig l) (e : Expr) {a : Nat} {st locals : List Value} {w : σ}
    (hat : CodeAt l.image.ops a (e.conditionCode i)) (hmeets : ∀ d ∈ e.conditionDemands, i.Meets d)
    (hscope : ∀ n ∈ e.nodes, n.ScopedIn sig ∧ n.EscapesFit) :
    Follows x.outside s x.fuel (.on (l.frame x.args a st locals :: callers) w) (e.holds x w)
      (fun b w' t =>
        t = .on (l.frame x.args (a + e.conditionSize) (st ++ [.bool b]) locals :: callers) w')
      L := by
  unfold conditionCode at hat
  unfold conditionDemands at hmeets
  unfold conditionSize
  rw [holds]
  split at hat
  · next hbool =>
    rw [if_pos hbool] at hmeets ⊢
    refine Follows.bind (follows_eval hx e hat hmeets hscope) ?_
    rintro v w' t ⟨hv, rfl⟩
    obtain ⟨b, rfl⟩ := hv (by simpa [Shape.isBoolean] using hbool)
    exact Follows.pure rfl
  · next hbool =>
    rw [if_neg hbool] at hmeets ⊢
    simp only [List.mem_append, List.mem_singleton] at hmeets
    refine Follows.bind (follows_eval hx e hat.left (fun d hd => hmeets d (Or.inl hd)) hscope) ?_
    rintro v w' t ⟨-, rfl⟩
    exact Follows.step (hx.turn_support (hmeets _ (Or.inr rfl)) (n := 1) (by omega) rfl
      (length_code i e ▸ hat.right)) (Follows.pure rfl)

/-- The machine evaluates a condition and jumps if it is as `taken` says. -/
theorem follows_jump (hx : Staged x i sig l) (c : Expr) (taken : Bool) {a n : Nat}
    {locals : List Value} {w : σ} (hat : CodeAt l.image.ops a (c.conditionCode i
      ++ [if taken then .jumpIfTrue (forward n) else .jumpIfFalse (forward n)]))
    (hn : n < 2147483648) (hmeets : ∀ d ∈ c.conditionDemands, i.Meets d)
    (hscope : ∀ n ∈ c.nodes, n.ScopedIn sig ∧ n.EscapesFit)
    (hlen : a + c.conditionSize + n < l.image.ops.length) :
    Follows x.outside s x.fuel (.on (l.frame x.args a [] locals :: callers) w) (c.holds x w)
      (fun b w' t => t = .on (l.frame x.args (if b = taken then a + c.conditionSize + n
        else a + c.conditionSize + 1) [] locals :: callers) w') L := by
  have hjump := length_conditionCode i c ▸ hat.right
  have htarget : ((a + c.conditionSize : Nat) : Int) + (forward n).toInt
      = (a + c.conditionSize + n : Nat) := by
    rw [toInt_forward hn]
    rfl
  refine (c.follows_holds hx hat.left hmeets hscope).extend ?_
  rintro b w' t rfl
  exact turn_jumpIf hjump.head rfl htarget hlen

end Expr

/-! ## Loops -/

/-- Apart from the slots from `lo` up to `hi` the locals are the same. -/
structure AgreeOutside (lo hi : Nat) (as bs : List Value) : Prop where
  length : bs.length = as.length
  same : ∀ n, n < lo ∨ hi ≤ n → bs[n]? = as[n]?

namespace AgreeOutside

variable {lo hi lo' hi' : Nat} {as bs cs : List Value}

theorem refl : AgreeOutside lo hi as as := ⟨rfl, fun _ _ => rfl⟩

theorem trans (h : AgreeOutside lo hi as bs) (h' : AgreeOutside lo hi bs cs) :
    AgreeOutside lo hi as cs :=
  ⟨h'.length.trans h.length, fun n hn => (h'.same n hn).trans (h.same n hn)⟩

theorem mono (h : AgreeOutside lo hi as bs) (hlo : lo' ≤ lo) (hhi : hi ≤ hi') :
    AgreeOutside lo' hi' as bs :=
  ⟨h.length, fun n hn => h.same n (by omega)⟩

theorem set {n : Nat} (hlo : lo ≤ n) (hhi : n < hi) (v : Value) :
    AgreeOutside lo hi as (as.set n v) :=
  ⟨List.length_set, fun m hm => List.getElem?_set_ne (by omega)⟩

end AgreeOutside

theorem Number.magnitude_ofPattern (signed : Bool) {p : Nat} (hp : p < 2 ^ 63) :
    (ofPattern signed p).magnitude = p := by
  have hsign : signBit.toNat = 2 ^ 63 := by decide
  cases signed with
  | false =>
    simp only [ofPattern, magnitude, Bool.false_eq_true, if_false, UInt64.toNat_mod, hsign,
      UInt64.toNat_ofNat']
    omega
  | true =>
    simp only [ofPattern, magnitude, if_true, UInt64.toNat_mod, UInt64.toNat_add, hsign,
      UInt64.toNat_ofNat']
    omega

theorem Number.isNaN_ofPattern (signed : Bool) {p : Nat} (hp : p ≤ infinityPattern) :
    (ofPattern signed p).isNaN = false := by
  have hlt : p < 2 ^ 63 := Nat.lt_of_le_of_lt hp (by decide)
  rw [isNaN, magnitude_ofPattern signed hlt]
  simpa using hp

theorem Number.isNaN_add {x y : Number} (hx : x.isNaN = false) (hy : y.isNaN = false)
    (hfinite : y.isInfinite = false) : (x.add y).isNaN = false := by
  unfold add
  simp only [hx, hy, hfinite, Bool.or_self, Bool.false_and, Bool.false_eq_true, if_false]
  split
  · exact hx
  · split
    · exact isNaN_ofPattern _ (Nat.zero_le _)
    · exact isNaN_ofPattern _ (Nat.min_le_right _ _)

/-- One more than a number is a number, so a count read back is the count. -/
theorem Number.isNaN_add_one {n : Number} (hn : n.isNaN = false) : (n.add 1).isNaN = false :=
  isNaN_add hn (by decide +kernel) (by decide +kernel)

namespace LoopKind

/-- The slot `base` holds the number of rounds that are left, if the loop is counted. -/
def Counts (base : Nat) (left : Number) (locals : List Value) : LoopKind → Prop
  | .times _ => locals[base]? = some (.number left)
  | _ => True

/-- What other slots hold does not matter. -/
theorem Counts.congr {kind : LoopKind} {base lo hi : Nat} {left : Number} {as bs : List Value}
    (h : kind.Counts base left as) (hab : AgreeOutside lo hi as bs)
    (hslots : base + kind.slots ≤ lo) : kind.Counts base left bs := by
  cases kind with
  | times e =>
    have hbase := hab.same base (Or.inl (by simp only [slots] at hslots; omega))
    exact hbase.trans h
  | forever | «until» c | «while» c | waitUntil c => trivial

/-- The machine stores the number of rounds of a counted loop. -/
theorem follows_count (hx : Staged x i sig l) (kind : LoopKind) {base a : Nat} {locals : List Value}
    {w : σ} (hat : CodeAt l.image.ops a (kind.countCode i base))
    (hmeets : ∀ d ∈ kind.countDemands base, i.Meets d)
    (hscope : ∀ n ∈ Expr.allNodes kind.exprs, n.ScopedIn sig ∧ n.EscapesFit)
    (hslots : base + kind.slots ≤ locals.length) :
    Follows x.outside s x.fuel (.on (l.frame x.args a [] locals :: callers) w) (kind.count x w)
      (fun left w' t => ∃ locals', AgreeOutside base (base + kind.slots) locals locals'
        ∧ kind.Counts base left locals'
        ∧ t = .on (l.frame x.args (a + kind.countSize) [] locals' :: callers) w') L := by
  cases kind with
  | times count =>
    rw [countCode] at hat
    simp only [countDemands, List.mem_append, List.mem_cons, List.not_mem_nil, or_false] at hmeets
    rw [exprs, Expr.allNodes, List.forall_mem_append] at hscope
    simp only [slots] at hslots ⊢
    have hslot : (localSlot base).toNat = base := toNat_localSlot (hmeets _ (Or.inr (Or.inr rfl)))
    have hat' : CodeAt l.image.ops (a + count.size)
        ([i.callSupport .repeatCount 1] ++ [.storeLocal (localSlot base)]) :=
      Expr.length_code i count ▸ hat.right
    rw [LoopKind.count]
    refine Follows.bind (count.follows_eval hx hat.left (fun d hd => hmeets d (Or.inl hd))
      hscope.1) ?_
    rintro v w' t ⟨-, rfl⟩
    refine Follows.step (hx.turn_support (hmeets _ (Or.inr (Or.inl rfl))) (n := 1) (by omega) rfl
      hat'.left) (Follows.step (turn_storeLocal hat'.tail.head (by omega)) (Follows.pure ?_))
    rw [hslot]
    refine ⟨_, AgreeOutside.set (Nat.le_refl base) (Nat.lt_succ_self base) _, ?_, rfl⟩
    exact List.getElem?_set_self (by omega)
  | forever | «until» c | «while» c | waitUntil c =>
    exact Follows.pure ⟨locals, .refl, trivial, rfl⟩

/-- The machine makes the test before a round. -/
theorem follows_test (hx : Staged x i sig l) (kind : LoopKind) {base a round : Nat} {left : Number}
    {locals : List Value} {w : σ} (hat : CodeAt l.image.ops a (kind.testCode i base (round + 1)))
    (hcount : ∀ d ∈ kind.countDemands base, i.Meets d) (hmeets : ∀ d ∈ kind.testDemands, i.Meets d)
    (hexit : ∀ d ∈ kind.exitDemands round, i.Meets d)
    (hscope : ∀ n ∈ Expr.allNodes kind.exprs, n.ScopedIn sig ∧ n.EscapesFit)
    (hlen : a + kind.testSize + round + 1 < l.image.ops.length)
    (hleft : kind.Counts base left locals) :
    Follows x.outside s x.fuel (.on (l.frame x.args a [] locals :: callers) w) (kind.test x left w)
      (fun next w' t => match next with
        | none => t = .on (l.frame x.args (a + kind.testSize + round + 1) [] locals :: callers) w'
        | some left' => ∃ locals', AgreeOutside base (base + kind.slots) locals locals'
          ∧ kind.Counts base left' locals'
          ∧ t = .on (l.frame x.args (a + kind.testSize) [] locals' :: callers) w') L := by
  cases kind with
  | times count =>
    have hslot : (localSlot base).toNat = base :=
      toNat_localSlot (hcount (.slot base) (by simp [countDemands]))
    have htarget : (a : Int) + (forward (round + 2)).toInt = (a + 1 + round + 1 : Nat) := by
      rw [toInt_forward (hexit _ (List.mem_singleton.mpr rfl))]
      omega
    have hvalue : locals[(localSlot base).toNat]? = some (.number left) := hslot.symm ▸ hleft
    rw [LoopKind.test]
    refine Follows.step (turn_countdown hat.head hvalue htarget hlen) ?_
    by_cases hhalf : Number.half.le left
    · rw [if_pos hhalf, if_pos hhalf]
      refine Follows.pure ?_
      rw [hslot]
      refine ⟨_, AgreeOutside.set (Nat.le_refl base) (Nat.lt_succ_self base) _, ?_, rfl⟩
      exact List.getElem?_set_self (List.getElem?_eq_some_iff.mp hleft).1
    · rw [if_neg hhalf, if_neg hhalf]
      exact Follows.pure rfl
  | forever => exact Follows.pure ⟨locals, .refl, trivial, rfl⟩
  | «until» c | waitUntil c =>
    rw [exprs, Expr.allNodes, List.forall_mem_append] at hscope
    refine Follows.bind (c.follows_jump hx true hat (hexit _ (List.mem_singleton.mpr rfl)) hmeets
      hscope.1 (by simp only [testSize] at hlen; omega)) ?_
    rintro b w' t rfl
    cases b with
    | false => exact Follows.pure ⟨locals, .refl, trivial, rfl⟩
    | true => exact Follows.pure (by simp only [testSize, if_true]; congr 3; omega)
  | «while» c =>
    rw [exprs, Expr.allNodes, List.forall_mem_append] at hscope
    refine Follows.bind (c.follows_jump hx false hat (hexit _ (List.mem_singleton.mpr rfl)) hmeets
      hscope.1 (by simp only [testSize] at hlen; omega)) ?_
    rintro b w' t rfl
    cases b with
    | false => exact Follows.pure (by simp only [testSize, if_true]; congr 3; omega)
    | true => exact Follows.pure ⟨locals, .refl, trivial, rfl⟩

end LoopKind

/-- The slot `slot` holds the count of rounds since the deadline was last looked at, if the loop
looks at it. -/
structure CodeSettings.Watches (s : CodeSettings) (warpSafe : Bool) (slot : Nat) (count : Number)
    (locals : List Value) : Prop where
  number : count.isNaN = false
  held : s.checksDeadline warpSafe = true → locals[slot]? = some (.number count)

/-- What other slots hold does not matter. -/
theorem CodeSettings.Watches.congr {s : CodeSettings} {warpSafe : Bool} {slot lo hi : Nat}
    {count : Number} {as bs : List Value} (h : s.Watches warpSafe slot count as)
    (hab : AgreeOutside lo hi as bs) (hslot : slot + s.deadlineSlots warpSafe ≤ lo ∨ hi ≤ slot) :
    s.Watches warpSafe slot count bs := by
  refine ⟨h.number, fun hchecks => ?_⟩
  rw [deadlineSlots, if_pos hchecks] at hslot
  rw [hab.same slot (by omega)]
  exact h.held hchecks

namespace Stmt

/-- The machine begins to count towards the deadline. -/
theorem turns_deadlineStart {warpSafe : Bool} {slot a : Nat} (locals : List Value)
    (callers : List Frame) (w : σ)
    (hat : CodeAt l.image.ops a (deadlineStart x.settings warpSafe slot))
    (hmeets : ∀ d ∈ if x.settings.checksDeadline warpSafe then [Demand.slot slot] else [],
      i.Meets d)
    (hslots : slot + x.settings.deadlineSlots warpSafe ≤ locals.length) :
    ∃ k locals', AgreeOutside slot (slot + x.settings.deadlineSlots warpSafe) locals locals'
      ∧ x.settings.Watches warpSafe slot Number.zero locals'
      ∧ (Standing.on (l.frame x.args a [] locals :: callers) w).turns x.outside s k
        = .on
          (l.frame x.args (a + 2 * x.settings.deadlineSlots warpSafe) [] locals' :: callers) w := by
  have hzero : Number.isNaN Number.zero = false := by decide
  unfold deadlineStart at hat
  unfold CodeSettings.deadlineSlots at hslots ⊢
  split at hat
  · next hchecks =>
    rw [if_pos hchecks] at hmeets hslots ⊢
    have hslot : (localSlot slot).toNat = slot :=
      toNat_localSlot (hmeets _ (List.mem_singleton.mpr rfl))
    refine ⟨2, locals.set slot (.number Number.zero),
      AgreeOutside.set (Nat.le_refl slot) (Nat.lt_succ_self slot) _,
      ⟨hzero, fun _ => List.getElem?_set_self (by omega)⟩, ?_⟩
    rw [turns, turn_push hat.head, turns, turn_storeLocal hat.tail.head (by omega), hslot, turns]
  · next hchecks =>
    rw [if_neg hchecks]
    exact ⟨0, locals, .refl, ⟨hzero, fun h => absurd h hchecks⟩, rfl⟩

/-- The machine ends a round. -/
theorem follows_endRound {warpSafe : Bool} {interval : UInt32} {slot a n : Nat} {count : Number}
    {locals : List Value} {w : σ}
    (hat : CodeAt l.image.ops a (roundEnd x.settings warpSafe slot interval))
    (hmeets : ∀ d ∈ if x.settings.checksDeadline warpSafe then [Demand.slot slot] else [],
      i.Meets d)
    (hcount : x.settings.Watches warpSafe slot count locals) :
    Follows x.outside s n (.on (l.frame x.args a [] locals :: callers) w)
      (x.endRound warpSafe interval count w)
      (fun count' w' t => ∃ locals',
        AgreeOutside slot (slot + x.settings.deadlineSlots warpSafe) locals locals'
        ∧ x.settings.Watches warpSafe slot count' locals'
        ∧ t = .on (l.frame x.args (a + x.settings.roundEndSize warpSafe) [] locals' :: callers) w')
      L := by
  have hzero : Number.isNaN Number.zero = false := by decide
  unfold roundEnd at hat
  unfold Context.endRound CodeSettings.roundEndSize
  split at hat
  · next hwarp =>
    rw [if_pos hwarp, if_pos hwarp]
    split at hat
    · next htimer =>
      rw [if_pos htimer, if_pos htimer]
      have hchecks : x.settings.checksDeadline warpSafe = true := by
        simp [CodeSettings.checksDeadline, hwarp, htimer]
      rw [if_pos hchecks] at hmeets
      have hslot : (localSlot slot).toNat = slot :=
        toNat_localSlot (hmeets _ (List.mem_singleton.mpr rfl))
      have hheld := hcount.held hchecks
      have hvalue : locals[(localSlot slot).toNat]? = some (.number count) := hslot.symm ▸ hheld
      have hagree : ∀ v, AgreeOutside slot (slot + x.settings.deadlineSlots warpSafe) locals
          (locals.set slot v) := fun v =>
        AgreeOutside.set (Nat.le_refl slot) (by simp [CodeSettings.deadlineSlots, hchecks]) v
      have hset : ∀ v, (locals.set slot v)[slot]? = some v := fun v =>
        List.getElem?_set_self (List.getElem?_eq_some_iff.mp hheld).1
      by_cases hle : (Number.ofNat (max interval 1).toNat).le (count.add 1) = true
      · rw [if_pos hle]
        refine Follows.ask (u := fun b w' => .on (l.frame x.args (a + 1) []
          (locals.set slot (.number Number.zero)) :: callers)
          (if b then x.outside.resume .soft w' else w'))
          (by rw [turn_checkDeadline hat.head hvalue hcount.number hle, hslot]) fun elapsed w' => ?_
        cases elapsed with
        | false => exact Follows.pure ⟨_, hagree _, ⟨hzero, fun _ => hset _⟩, rfl⟩
        | true => exact Follows.pure ⟨_, hagree _, ⟨hzero, fun _ => hset _⟩, rfl⟩
      · rw [if_neg hle]
        refine Follows.step (turn_checkDeadline_early hat.head hvalue hcount.number hle)
          (Follows.pure ?_)
        rw [hslot]
        exact ⟨_, hagree _, ⟨Number.isNaN_add_one hcount.number, fun _ => hset _⟩, rfl⟩
    · next htimer =>
      rw [if_neg htimer, if_neg htimer]
      exact Follows.pure ⟨locals, .refl, hcount, rfl⟩
  · next hwarp =>
    rw [if_neg hwarp, if_neg hwarp]
    exact Follows.step (turn_yield hat.head) (Follows.pure ⟨locals, .refl, hcount, rfl⟩)

/-- What the machine does with a statement up to position `pc`, if the statement changes the slots
from `lo` up to `hi` at most. -/
def Done (x : Context σ) (l : Linked) (callers : List Frame) (lo hi pc : Nat) (locals : List Value)
    (w : σ) (t : Standing σ) : Prop :=
  ∃ locals', AgreeOutside lo hi locals locals' ∧ t = .on (l.frame x.args pc [] locals' :: callers) w

/-- The demands of a loop apart from those of its body. -/
structure LoopMeets (s : CodeSettings) (i : Imports) (base : Nat) (kind : LoopKind)
    (warpSafe : Bool) (round : Nat) : Prop where
  count : ∀ d ∈ kind.countDemands base, i.Meets d
  deadline : ∀ d ∈ if s.checksDeadline warpSafe then [Demand.slot (base + kind.slots)] else [],
    i.Meets d
  test : ∀ d ∈ kind.testDemands, i.Meets d
  exit : ∀ d ∈ kind.exitDemands round, i.Meets d
  back : i.Meets (.backward (kind.testSize + round))

/-- **The machine goes round a loop**, and each round takes one turn at least. -/
theorem follows_rounds (hx : Staged x i sig l) {kind : LoopKind} {body : List Stmt}
    {warpSafe : Bool} {interval : UInt32} {a base test : Nat}
    (hat : LoopAt l.image.ops a x.settings i base kind body warpSafe interval test
      (allSize x.settings body + x.settings.roundEndSize warpSafe))
    (hmeets : LoopMeets x.settings i base kind warpSafe
      (allSize x.settings body + x.settings.roundEndSize warpSafe))
    (hscope : ∀ n ∈ Expr.allNodes kind.exprs, n.ScopedIn sig ∧ n.EscapesFit)
    (hlen : test + kind.testSize + (allSize x.settings body + x.settings.roundEndSize warpSafe) + 1
      < l.image.ops.length)
    {top : Nat} (htop : base + kind.slots + x.settings.deadlineSlots warpSafe ≤ top)
    (hbody : ∀ {locals : List Value} {w : σ}, top ≤ locals.length →
      Follows x.outside s x.fuel
        (.on (l.frame x.args (test + kind.testSize) [] locals :: callers) w)
        (evalAll x body w) (fun _ => Done x l callers
          (base + kind.slots + x.settings.deadlineSlots warpSafe) top
          (test + kind.testSize + allSize x.settings body) locals) L) :
    ∀ m ≤ x.fuel, ∀ {left count : Number} {locals : List Value} {w : σ}, top ≤ locals.length →
      kind.Counts base left locals → x.settings.Watches warpSafe (base + kind.slots) count locals →
      Follows x.outside s m (.on (l.frame x.args test [] locals :: callers) w)
        (Evaluation.rounds (fun left => kind.test x left) (evalAll x body)
          (x.endRound warpSafe interval) m left count w)
        (fun _ => Done x l callers base top (test + kind.testSize
          + (allSize x.settings body + x.settings.roundEndSize warpSafe) + 1) locals) L := by
  intro m
  induction m with
  | zero => exact fun _ _ _ _ w _ _ _ => ⟨0, Or.inr ⟨Nat.le_refl 0, _, rfl⟩⟩
  | succ m ih =>
    intro hm left count locals w hlocals hleft hcount
    rw [Evaluation.rounds]
    refine Follows.bind ((kind.follows_test hx hat.testAt hmeets.count hmeets.test hmeets.exit
      hscope hlen hleft).mono hm) fun next w₁ t₁ h₁ => ?_
    cases next with
    | none =>
      subst h₁
      exact Follows.pure ⟨locals, .refl, rfl⟩
    | some left₁ =>
      obtain ⟨locals₁, hagree₁, hleft₁, rfl⟩ := h₁
      have hcount₁ := hcount.congr hagree₁ (Or.inr (Nat.le_refl _))
      refine Follows.bind ((hbody (by rw [hagree₁.length]; exact hlocals)).mono hm) ?_
      rintro - w₂ t₂ ⟨locals₂, hagree₂, rfl⟩
      have hcount₂ := hcount₁.congr hagree₂ (Or.inl (Nat.le_refl _))
      have hleft₂ := hleft₁.congr hagree₂ (by omega)
      refine Follows.bind (follows_endRound hat.roundEndAt hmeets.deadline hcount₂) ?_
      rintro count₃ w₃ t₃ ⟨locals₃, hagree₃, hcount₃, rfl⟩
      have hleft₃ := hleft₂.congr hagree₃ (Nat.le_refl _)
      have hagree : AgreeOutside base top locals locals₃ :=
        ((hagree₁.mono (Nat.le_refl _) (by omega)).trans
          (hagree₂.mono (by omega) (Nat.le_refl _))).trans (hagree₃.mono (by omega) (by omega))
      have hback : ((test + kind.testSize + allSize x.settings body
          + x.settings.roundEndSize warpSafe : Nat) : Int)
          + (backward (kind.testSize
            + (allSize x.settings body + x.settings.roundEndSize warpSafe))).toInt
          = test := by
        rw [toInt_backward hmeets.back]
        omega
      have hop := hat.backAt
      rw [← Nat.add_assoc (test + kind.testSize)] at hop
      refine (Follows.step_succ (turn_jump hop hback (by omega))
        (ih (by omega) (by rw [hagree.length]; exact hlocals) hleft₃ hcount₃)).imp ?_
      rintro - w₄ t₄ ⟨locals₄, hagree₄, rfl⟩
      exact ⟨locals₄, hagree.trans hagree₄, rfl⟩

end Stmt

/-! ## Statements -/

/-- The number of inputs, if the statement is an escape. -/
def Stmt.inputCount : Stmt → Nat
  | .escape _ _ inputs => inputs.length
  | _ => 0

/-- A statement whose escapes, with those in its expressions, have few inputs. -/
structure Stmt.EscapesFit (n : Stmt) : Prop where
  exprs : ∀ e ∈ Expr.allNodes n.exprs, e.EscapesFit
  inputs : n.inputCount < 65536

instance : DecidablePred Stmt.EscapesFit := fun n =>
  decidable_of_iff ((∀ e ∈ Expr.allNodes n.exprs, e.EscapesFit) ∧ n.inputCount < 65536)
    ⟨fun h => ⟨h.1, h.2⟩, fun h => ⟨h.exprs, h.inputs⟩⟩

/-- The thread is about to leave the routine. -/
def AtReturn (x : Context σ) (l : Linked) (callers : List Frame) (w : σ) (t : Standing σ) : Prop :=
  ∃ pc st locals, l.image.ops[pc]? = some .ret ∧ t = .on (l.frame x.args pc st locals :: callers) w

/-- The variant of a key can be entered, and the machine then does what a call of it means. -/
def Context.Performs (x : Context σ) (s : Setting) (n : Nat) (key : VariantKey) : Prop :=
  ∃ callee, s.variants.find? key = some callee
    ∧ ∀ (vs : List Value) (f : Frame) (callers : List Frame) (w : σ) (L : σ → Standing σ → Prop),
      List.Forall₂ (fun shape v => v.Honours shape) key.signature vs →
      Follows x.outside s n (.on (Frame.start callee vs :: f :: callers) w) (x.call key vs w)
        (fun _ w' t => t = .on (f :: callers) w') L

/-- The machine waits until a duration has passed. -/
theorem Outside.follows_waitFor {start duration : Number} {a : Nat} {locals : List Value}
    (hop : l.image.ops[a]? = some .waitTimer) (n : Nat) {w : σ} :
    Follows x.outside s n
      (.on ({ l.frame x.args a [] locals with timer := some ⟨start, duration⟩ } :: callers) w)
      (x.outside.waitFor start duration n w)
      (fun _ w' t => t = .on (l.frame x.args (a + 1) [] locals :: callers) w') L := by
  induction n generalizing w with
  | zero => exact ⟨0, Or.inr ⟨Nat.le_refl 0, _, rfl⟩⟩
  | succ n ih =>
    rw [waitFor]
    refine Follows.ask_succ
      (u := fun time w' => if (time.sub start).lt duration then
          .on ({ l.frame x.args a [] locals with timer := some ⟨start, duration⟩ } :: callers)
            (x.outside.resume .blocking w')
        else .on (l.frame x.args (a + 1) [] locals :: callers) w')
      (turn_waitTimer hop) fun time w' => ?_
    by_cases hlt : (time.sub start).lt duration
    · rw [if_pos hlt, if_pos hlt]
      exact ih
    · rw [if_neg hlt, if_neg hlt]
      exact Follows.pure rfl

namespace Stmt

variable {tgt : Target} {warp : Bool} {m : Nat}

/-- The machine calls a variant. -/
theorem follows_call (hx : Staged x i sig l) (hfuel : x.fuel = m + 1) {key : VariantKey}
    {args : List Expr} {y : Bool} {base a : Nat} {locals : List Value} {w : σ}
    (hat : CodeAt l.image.ops a (Stmt.code x.settings i base (.call key args y)))
    (hmeets : ∀ d ∈ demands x.settings base (.call key args y), i.Meets d)
    (hproper : (Stmt.call key args y).ProperIn tgt warp sig)
    (hfit : (Stmt.call key args y).EscapesFit) (hcall : x.Performs s m key) :
    Follows x.outside s x.fuel (.on (l.frame x.args a [] locals :: callers) w)
      (Stmt.eval x (.call key args y) w)
      (fun _ => Done x l callers base base (a + size x.settings (.call key args y)) locals) L := by
  simp only [demands, List.forall_mem_append, List.forall_mem_cons] at hmeets
  obtain ⟨-, hargs, hkey, hcount, -⟩ := hmeets
  obtain ⟨callee, hcallee, hperform⟩ := hcall
  have hscope := fun n hn => And.intro (hproper.inScope n hn) (hfit.exprs n hn)
  have hsig : args.map (fun e => e.shape.widen) = key.signature := hproper.calls.2.1
  have hname : l.image.procedures[(UInt16.ofNat (i.procedures.idxOf key)).toNat]? = some key := by
    rw [hx.procedures]
    exact hkey
  -- From the first argument on it does not matter whether the thread has given way before.
  have hrest : ∀ {b : Nat} {w : σ},
      b + Expr.allSize args + 1 = a + size x.settings (.call key args y) →
      CodeAt l.image.ops b (Expr.allCode i args ++ [i.callProcedure key args.length]) →
      Follows x.outside s x.fuel (.on (l.frame x.args b [] locals :: callers) w)
        ((Expr.evalAll x args >>= x.call key) w)
        (fun _ => Done x l callers base base (a + size x.settings (.call key args y))
          locals) L := by
    intro b w hsize hat
    refine Follows.bind (Expr.follows_evalAll hx args hat.left hargs hscope) ?_
    rintro vs w' t ⟨hvs, rfl⟩
    have hlen := hvs.length_eq
    have htoNat : vs.length = (UInt16.ofNat args.length).toNat := by
      have : args.length < 65536 := hcount
      simp
      omega
    have hhonours : List.Forall₂ (fun shape v => v.Honours shape) key.signature vs := by
      rw [← hsig, List.forall₂_map_left_iff]
      exact hvs.imp fun e v hv hbool => hv (Shape.suits_of_widen (a := e.shape) rfl hbool)
    rw [hfuel]
    refine Follows.step_succ (turn_callProcedure (Expr.length_allCode i args ▸ hat.right).head hname
      hcallee htoNat) ?_
    by_cases hdepth : s.limits.maxCallDepth ≤ callers.length + 1
    · rw [if_pos hdepth]
      exact ⟨0, Or.inl trivial⟩
    · rw [if_neg hdepth]
      refine (hperform vs _ callers w' L hhonours).imp ?_
      rintro - w'' t rfl
      exact ⟨locals, .refl, by rw [hsize]⟩
  cases y with
  | true =>
    simp only [Stmt.code, if_true, List.append_assoc] at hat
    rw [Stmt.eval]
    refine Follows.step (turn_yield hat.head) (hrest ?_ hat.tail)
    simp only [size, if_true]
    omega
  | false =>
    rw [Stmt.eval]
    exact hrest (by simp [size, Nat.add_assoc]) (by simpa [Stmt.code] using hat)

/-- The machine goes through a loop, if it does what the body means. -/
theorem follows_loop (hx : Staged x i sig l) {kind : LoopKind} {body : List Stmt} {warpSafe : Bool}
    {interval : UInt32} {base a : Nat} {locals : List Value} {w : σ}
    (hat : CodeAt l.image.ops a (Stmt.code x.settings i base (.loop kind body warpSafe interval)))
    (hlen : a + size x.settings (.loop kind body warpSafe interval) < l.image.ops.length)
    (hmeets : ∀ d ∈ demands x.settings base (.loop kind body warpSafe interval), i.Meets d)
    (hscope : ∀ n ∈ Expr.allNodes kind.exprs, n.ScopedIn sig ∧ n.EscapesFit)
    (hslots : base + slots x.settings (.loop kind body warpSafe interval) ≤ locals.length)
    (hbody : ∀ {b : Nat} {locals : List Value} {w : σ},
      CodeAt l.image.ops b (allCode x.settings i
        (base + kind.slots + x.settings.deadlineSlots warpSafe) body) →
      b + allSize x.settings body < l.image.ops.length →
      base + slots x.settings (.loop kind body warpSafe interval) ≤ locals.length →
      Follows x.outside s x.fuel (.on (l.frame x.args b [] locals :: callers) w) (evalAll x body w)
        (fun _ => Done x l callers (base + kind.slots + x.settings.deadlineSlots warpSafe)
          (base + slots x.settings (.loop kind body warpSafe interval))
          (b + allSize x.settings body) locals) L) :
    Follows x.outside s x.fuel (.on (l.frame x.args a [] locals :: callers) w)
      (Stmt.eval x (.loop kind body warpSafe interval) w)
      (fun _ => Done x l callers base (base + slots x.settings (.loop kind body warpSafe interval))
        (a + size x.settings (.loop kind body warpSafe interval)) locals) L := by
  have hloop := loopAt hat
  simp only [demands, List.forall_mem_append, List.forall_mem_cons] at hmeets
  obtain ⟨⟨⟨⟨hcount, hdeadline⟩, htest⟩, -⟩, hback, hexit⟩ := hmeets
  have htop : base + kind.slots + x.settings.deadlineSlots warpSafe
      ≤ base + slots x.settings (.loop kind body warpSafe interval) := by
    rw [slots]
    omega
  have hend : a + size x.settings (.loop kind body warpSafe interval) = a + kind.countSize
      + 2 * x.settings.deadlineSlots warpSafe + kind.testSize
      + (allSize x.settings body + x.settings.roundEndSize warpSafe) + 1 := by
    rw [size]
    omega
  rw [hend] at hlen ⊢
  rw [Stmt.eval]
  refine Follows.bind (kind.follows_count hx hloop.countAt hcount hscope (by omega)) ?_
  rintro left w₁ t₁ ⟨locals₁, hagree₁, hleft₁, rfl⟩
  obtain ⟨k, locals₂, hagree₂, hcount₂, hturns⟩ := turns_deadlineStart (x := x) (s := s)
    locals₁ callers w₁ hloop.deadlineAt hdeadline (by rw [hagree₁.length]; omega)
  have hlocals₂ : locals₂.length = locals.length := hagree₂.length.trans hagree₁.length
  refine ((Follows.after hturns
      (follows_rounds hx hloop ⟨hcount, hdeadline, htest, hexit, hback⟩ hscope hlen htop
        (fun hlocals => hbody hloop.bodyAt (by omega) hlocals) x.fuel (Nat.le_refl _) (by omega)
        (hleft₁.congr hagree₂ (Nat.le_refl _)) hcount₂)).mono (Nat.le_add_right _ _)).imp ?_
  rintro - w₃ t₃ ⟨locals₃, hagree₃, rfl⟩
  exact ⟨locals₃, ((hagree₁.mono (Nat.le_refl _) (by omega)).trans
    (hagree₂.mono (by omega) htop)).trans hagree₃, rfl⟩

/-- The machine chooses between two stacks of statements. -/
theorem follows_branch (hx : Staged x i sig l) {c : Expr} {yes no : List Stmt} {base a : Nat}
    {locals : List Value} {w : σ}
    (hat : CodeAt l.image.ops a (Stmt.code x.settings i base (.branch c yes no)))
    (hlen : a + size x.settings (.branch c yes no) < l.image.ops.length)
    (hmeets : ∀ d ∈ demands x.settings base (.branch c yes no), i.Meets d)
    (hscope : ∀ n ∈ c.nodes, n.ScopedIn sig ∧ n.EscapesFit)
    (hyes : ∀ {b : Nat} {w : σ}, CodeAt l.image.ops b (allCode x.settings i base yes) →
      b + allSize x.settings yes < l.image.ops.length →
      Follows x.outside s x.fuel (.on (l.frame x.args b [] locals :: callers) w) (evalAll x yes w)
        (fun _ => Done x l callers base (base + slots x.settings (.branch c yes no))
          (b + allSize x.settings yes) locals) L)
    (hno : no.isEmpty = false → ∀ {b : Nat} {w : σ},
      CodeAt l.image.ops b (allCode x.settings i (base + allSlots x.settings yes) no) →
      b + allSize x.settings no < l.image.ops.length →
      Follows x.outside s x.fuel (.on (l.frame x.args b [] locals :: callers) w) (evalAll x no w)
        (fun _ => Done x l callers base (base + slots x.settings (.branch c yes no))
          (b + allSize x.settings no) locals) L) :
    Follows x.outside s x.fuel (.on (l.frame x.args a [] locals :: callers) w)
      (Stmt.eval x (.branch c yes no) w)
      (fun _ => Done x l callers base (base + slots x.settings (.branch c yes no))
        (a + size x.settings (.branch c yes no)) locals) L := by
  simp only [demands, List.forall_mem_append] at hmeets
  rw [Stmt.eval]
  cases hempty : no.isEmpty with
  | true =>
    obtain ⟨hcond, hyesAt⟩ := branchAt_of_isEmpty hempty hat
    have hend : a + size x.settings (.branch c yes no)
        = a + c.conditionSize + 1 + allSize x.settings yes := by
      simp only [size, hempty, if_true]
      omega
    rw [hend] at hlen ⊢
    simp only [hempty, if_true] at hmeets
    refine Follows.bind (c.follows_jump hx false hcond (hmeets.2 _ (List.mem_singleton.mpr rfl))
      hmeets.1.1 hscope (by omega)) ?_
    rintro b w' t rfl
    cases b with
    | true => exact hyes hyesAt hlen
    | false =>
      rw [List.isEmpty_iff.mp hempty]
      refine Follows.pure ⟨locals, .refl, ?_⟩
      simp only [if_true]
      congr 3
      omega
  | false =>
    obtain ⟨hcond, hyesAt, hoverAt, hnoAt⟩ := branchAt_of_not_isEmpty hempty hat
    have hend : a + size x.settings (.branch c yes no) = a + c.conditionSize + 1
        + allSize x.settings yes + 1 + allSize x.settings no := by
      simp only [size, hempty, Bool.false_eq_true, if_false]
      omega
    rw [hend] at hlen ⊢
    simp only [hempty, Bool.false_eq_true, if_false, List.forall_mem_cons, List.forall_mem_append]
      at hmeets
    obtain ⟨⟨hmeetsCond, -⟩, hmeetsJump, -, hmeetsOver, -⟩ := hmeets
    refine Follows.bind (c.follows_jump hx false hcond hmeetsJump hmeetsCond hscope (by omega)) ?_
    rintro b w' t rfl
    cases b with
    | true =>
      have htarget : ((a + c.conditionSize + 1 + allSize x.settings yes : Nat) : Int)
          + (forward (allSize x.settings no + 1)).toInt
          = (a + c.conditionSize + 1 + allSize x.settings yes + 1
            + allSize x.settings no : Nat) := by
        rw [toInt_forward hmeetsOver]
        omega
      refine (hyes hyesAt (by omega)).extend ?_
      rintro - w'' t ⟨locals', hagree, rfl⟩
      exact ⟨locals', hagree, turn_jump hoverAt htarget hlen⟩
    | false =>
      have hpos : a + c.conditionSize + (allSize x.settings yes + 2)
          = a + c.conditionSize + 1 + allSize x.settings yes + 1 := by omega
      simp only [if_true, hpos]
      exact hno hempty hnoAt hlen

/-- A change of slots is one among more slots. -/
theorem Done.mono {lo hi lo' hi' pc : Nat} {locals : List Value} {w : σ} {t : Standing σ}
    (h : Done x l callers lo hi pc locals w t) (hlo : lo' ≤ lo) (hhi : hi ≤ hi') :
    Done x l callers lo' hi' pc locals w t := by
  obtain ⟨locals', hagree, ht⟩ := h
  exact ⟨locals', hagree.mono hlo hhi, ht⟩

mutual

/-- **The machine does what a statement means.** -/
theorem follows_eval (hx : Staged x i sig l) (hfuel : x.fuel = m + 1) : ∀ (n : Stmt) {base a : Nat}
    {locals : List Value} {w : σ}, CodeAt l.image.ops a (n.code x.settings i base) →
    a + n.size x.settings < l.image.ops.length → (∀ d ∈ n.demands x.settings base, i.Meets d) →
    (∀ k ∈ n.nodes, k.ProperIn tgt warp sig ∧ k.EscapesFit) → (∀ k ∈ n.calls, x.Performs s m k) →
    base + n.slots x.settings ≤ locals.length →
    Follows x.outside s x.fuel (.on (l.frame x.args a [] locals :: callers) w) (n.eval x w)
      (fun _ => Done x l callers base (base + n.slots x.settings) (a + n.size x.settings) locals)
      (AtReturn x l callers)
  | .branch c yes no, base, a, locals, w, hat, hlen, hmeets, hproper, hcalls, hslots => by
    rw [nodes, List.forall_mem_cons, List.forall_mem_append] at hproper
    rw [calls, List.forall_mem_append] at hcalls
    have hscope := fun n hn => And.intro (hproper.1.1.inScope n hn) (hproper.1.2.exprs n hn)
    rw [exprs, Expr.allNodes, List.forall_mem_append] at hscope
    have hdemands := hmeets
    simp only [demands, List.forall_mem_append] at hdemands
    rw [slots] at hslots
    refine follows_branch hx hat hlen hmeets hscope.1 (fun hat' hlen' => ?_)
      fun hempty _ _ hat' hlen' => ?_
    · refine (follows_evalAll hx hfuel yes hat' hlen' hdemands.1.2 hproper.2.1 hcalls.1
        (by omega)).imp fun _ _ _ h => h.mono (Nat.le_refl _) ?_
      rw [slots]
      omega
    · rw [hempty] at hdemands
      simp only [Bool.false_eq_true, if_false, List.forall_mem_cons, List.forall_mem_append]
        at hdemands
      refine (follows_evalAll hx hfuel no hat' hlen' hdemands.2.2.1 hproper.2.2 hcalls.2
        (by omega)).imp fun _ _ _ h => h.mono (by omega) ?_
      rw [slots]
      omega
  | .loop kind body warpSafe interval, base, a, locals, w, hat, hlen, hmeets, hproper, hcalls,
      hslots => by
    rw [nodes, List.forall_mem_cons] at hproper
    rw [calls] at hcalls
    have hscope := fun n hn => And.intro (hproper.1.1.inScope n hn) (hproper.1.2.exprs n hn)
    have hdemands := hmeets
    simp only [demands, List.forall_mem_append] at hdemands
    refine follows_loop hx hat hlen hmeets hscope hslots fun hat' hlen' hslots' => ?_
    have htop : base + slots x.settings (.loop kind body warpSafe interval)
        = base + kind.slots + x.settings.deadlineSlots warpSafe + allSlots x.settings body := by
      rw [slots]
      omega
    rw [htop] at hslots' ⊢
    exact follows_evalAll hx hfuel body hat' hlen' hdemands.1.2 hproper.2 hcalls hslots'
  | .call key args y, base, a, locals, w, hat, _, hmeets, hproper, hcalls, _ => by
    obtain ⟨hproper, hfit⟩ := hproper _ (self_mem_nodes _)
    exact follows_call hx hfuel hat hmeets hproper hfit (hcalls key (List.mem_singleton_self key))
  | .set name e, base, a, locals, w, hat, _, hmeets, hproper, _, _ => by
    obtain ⟨hproper, hfit⟩ := hproper _ (self_mem_nodes _)
    have hscope := fun n hn => And.intro (hproper.inScope n hn) (hfit.exprs n hn)
    rw [exprs, Expr.allNodes, List.forall_mem_append] at hscope
    rw [Stmt.code] at hat
    rw [Stmt.eval]
    refine Follows.bind (e.follows_eval hx hat.left hmeets hscope.1) ?_
    rintro v w' t ⟨-, rfl⟩
    exact Follows.ask_end (u := fun _ w' => .on (l.frame x.args _ [] locals :: callers) w')
      (turn_setVariable (e.length_code i ▸ hat.right).head) fun _ w'' => ⟨locals, .refl, rfl⟩
  | .change name e, base, a, locals, w, hat, _, hmeets, hproper, _, _ => by
    obtain ⟨hproper, hfit⟩ := hproper _ (self_mem_nodes _)
    have hscope := fun n hn => And.intro (hproper.inScope n hn) (hfit.exprs n hn)
    rw [exprs, Expr.allNodes, List.forall_mem_append] at hscope
    rw [Stmt.code] at hat
    simp only [demands, List.forall_mem_append, List.forall_mem_cons] at hmeets
    have hat' : CodeAt l.image.ops (a + 1 + e.size)
        ([i.callSupport .add 2] ++ [.setVariable name]) := e.length_code i ▸ hat.tail.right
    rw [Stmt.eval]
    refine Follows.ask
      (u := fun old w' => .on (l.frame x.args _ ([] ++ [old]) locals :: callers) w')
      (turn_getVariable hat.head) fun old w₁ => ?_
    refine Follows.bind (e.follows_eval hx hat.tail.left hmeets.1 hscope.1) ?_
    rintro delta w₂ t ⟨-, rfl⟩
    rw [List.append_assoc]
    refine Follows.step (hx.turn_support hmeets.2.1 (n := 2) (by omega) rfl hat'.left) ?_
    refine Follows.ask_end (u := fun _ w' => .on (l.frame x.args _ [] locals :: callers) w')
      (turn_setVariable hat'.tail.head) fun _ w₃ => ⟨locals, .refl, ?_⟩
    rw [size]
    congr 3
    omega
  | .wait e, base, a, locals, w, hat, _, hmeets, hproper, _, _ => by
    obtain ⟨hproper, hfit⟩ := hproper _ (self_mem_nodes _)
    have hscope := fun n hn => And.intro (hproper.inScope n hn) (hfit.exprs n hn)
    rw [exprs, Expr.allNodes, List.forall_mem_append] at hscope
    rw [Stmt.code] at hat
    simp only [demands, List.forall_mem_append, List.forall_mem_cons] at hmeets
    have hat' : CodeAt l.image.ops (a + e.size)
        ([i.callSupport .waitDuration 1] ++ [.startTimer, .yield .frame, .waitTimer]) :=
      e.length_code i ▸ hat.right
    rw [Stmt.eval]
    refine Follows.bind (e.follows_eval hx hat.left hmeets.1 hscope.1) ?_
    rintro v w₁ t ⟨-, rfl⟩
    refine Follows.step (hx.turn_support hmeets.2.1 (n := 1) (by omega) rfl hat'.left) ?_
    refine Follows.ask (u := fun start w' => .on ({ l.frame x.args _ [] locals with
      timer := some ⟨start, (Support.waitDuration.apply [v]).toNumber⟩ } :: callers) w')
      (turn_startTimer hat'.tail.head) fun start w₂ => ?_
    refine Follows.step (turn_yield_timer hat'.tail.tail.head) ?_
    refine (Outside.follows_waitFor hat'.tail.tail.tail.head x.fuel).imp ?_
    rintro - w₃ t rfl
    exact ⟨locals, .refl, rfl⟩
  | .host opcode args, base, a, locals, w, hat, _, hmeets, hproper, _, _ => by
    obtain ⟨hproper, hfit⟩ := hproper _ (self_mem_nodes _)
    have hscope := fun n hn => And.intro (hproper.inScope n hn) (hfit.exprs n hn)
    rw [Stmt.code] at hat
    simp only [demands, List.forall_mem_append, List.forall_mem_cons] at hmeets
    rw [Stmt.eval]
    refine Follows.bind (Expr.follows_evalAll hx args hat.left hmeets.1 hscope) ?_
    rintro vs w₁ t ⟨hvs, rfl⟩
    have hlen := hvs.length_eq
    have hat' : CodeAt l.image.ops (a + Expr.allSize args)
        ([i.callHost opcode vs.length] ++ [.drop]) :=
      hlen ▸ Expr.length_allCode i args ▸ hat.right
    refine Follows.bind (Outside.follows_callPrimitive hx hmeets.2.2.1 (hlen ▸ hmeets.2.1)
      hat'.left) ?_
    rintro v w₂ t rfl
    exact Follows.step (turn_drop hat'.tail.head) (Follows.pure ⟨locals, .refl, rfl⟩)
  | .done, base, a, locals, w, hat, _, _, _, _, _ => by
    rw [Stmt.code] at hat
    rw [Stmt.eval]
    exact ⟨0, Or.inr ⟨a, [], locals, hat.head, rfl⟩⟩
  | .escape block opcode inputs, base, a, locals, w, hat, _, hmeets, hproper, _, _ => by
    obtain ⟨hproper, hfit⟩ := hproper _ (self_mem_nodes _)
    have hscope := fun n hn => And.intro (hproper.inScope n hn) (hfit.exprs n hn)
    rw [exprs, ← Expr.inputNodes_eq] at hscope
    rw [Stmt.code] at hat
    have hat' : CodeAt l.image.ops (a + Expr.inputSize inputs)
        ([.escape block opcode (inputs.map Prod.fst)] ++ [.drop]) :=
      Expr.length_inputCode i inputs ▸ hat.right
    rw [Stmt.eval]
    refine Follows.bind (Expr.follows_evalInputs hx inputs hat.left hmeets hscope) ?_
    rintro vs w₁ t ⟨hvs, rfl⟩
    refine Follows.bind (Outside.follows_escape hvs hfit.inputs hat'.left) ?_
    rintro v w₂ t rfl
    exact Follows.step (turn_drop hat'.tail.head) (Follows.pure ⟨locals, .refl, rfl⟩)

/-- The machine does what statements mean, one after the other. -/
theorem follows_evalAll (hx : Staged x i sig l) (hfuel : x.fuel = m + 1) :
    ∀ (ns : List Stmt) {base a : Nat} {locals : List Value} {w : σ},
    CodeAt l.image.ops a (allCode x.settings i base ns) →
    a + allSize x.settings ns < l.image.ops.length →
    (∀ d ∈ allDemands x.settings base ns, i.Meets d) →
    (∀ k ∈ allNodes ns, k.ProperIn tgt warp sig ∧ k.EscapesFit) →
    (∀ k ∈ allCalls ns, x.Performs s m k) → base + allSlots x.settings ns ≤ locals.length →
    Follows x.outside s x.fuel (.on (l.frame x.args a [] locals :: callers) w) (evalAll x ns w)
      (fun _ => Done x l callers base (base + allSlots x.settings ns) (a + allSize x.settings ns)
        locals) (AtReturn x l callers)
  | [], base, a, locals, w, _, _, _, _, _, _ => by
    rw [evalAll]
    exact Follows.pure ⟨locals, .refl, rfl⟩
  | n :: ns, base, a, locals, w, hat, hlen, hmeets, hproper, hcalls, hslots => by
    rw [allCode] at hat
    rw [allSize] at hlen
    rw [allDemands, List.forall_mem_append] at hmeets
    rw [allNodes, List.forall_mem_append] at hproper
    rw [allCalls, List.forall_mem_append] at hcalls
    rw [allSlots] at hslots
    rw [evalAll]
    refine Follows.bind (follows_eval hx hfuel n hat.left (by omega) hmeets.1 hproper.1 hcalls.1
      (by omega)) ?_
    rintro - w₁ t ⟨locals₁, hagree₁, rfl⟩
    refine (follows_evalAll hx hfuel ns (length_code x.settings i base n ▸ hat.right) (by omega)
      hmeets.2 hproper.2 hcalls.2 (by rw [hagree₁.length]; omega)).imp ?_
    rintro - w₂ t ⟨locals₂, hagree₂, rfl⟩
    refine ⟨locals₂, (hagree₁.mono (Nat.le_refl _) ?_).trans (hagree₂.mono ?_ ?_), ?_⟩
    · rw [allSlots]
      omega
    · omega
    · rw [allSlots]
      omega
    · rw [allSize, Nat.add_assoc]

end

end Stmt

/-! ## Routines -/

theorem Linked.support_of_image {l : Linked} {r : Routine} {config : CompilerConfig}
    (hl : l.image = r.image config) : l.support = (r.imports config).support := by
  have himported := l.imported
  rw [hl] at himported
  exact List.map_injective_iff.mpr Support.name_injective himported

namespace Program

/-- Every escape in the program has fewer inputs than the machine can count. -/
def EscapesFit (p : Program) : Prop := ∀ r ∈ p.routines, ∀ n ∈ Stmt.allNodes r.stack, n.EscapesFit

instance : DecidablePred EscapesFit := fun p =>
  inferInstanceAs (Decidable (∀ r ∈ p.routines, ∀ n ∈ Stmt.allNodes r.stack, n.EscapesFit))

/-- The linked variants of a thread are those that the routines of the program compile to. -/
def LinkedIn (p : Program) (config : CompilerConfig) (s : Setting) : Prop :=
  ∀ k r, p.procedures.find? k = some r →
    ∃ l, s.variants.find? k = some l ∧ r.compile p config = .ok l.image

variable {p : Program} {tgt : Target} {config config' : CompilerConfig} {script : Script}
  {o : Outside σ} {s : Setting}

/-- A routine of a program is entered with its own tables. -/
theorem staged_of_compile {r : Routine} {l : Linked} (hl : l.image = r.image config)
    {x : Context σ} (hargs : List.Forall₂ (fun shape v => v.Honours shape) r.arguments x.args) :
    Staged x (r.imports config) r.arguments l :=
  ⟨Linked.support_of_image hl, by rw [hl]; rfl, by rw [hl]; rfl, hargs⟩

/-- The machine does what the stack of a routine means, and leaves the routine. -/
theorem follows_stack {x : Context σ} {m : Nat} (hfuel : x.fuel = m + 1) {r : Routine} {l : Linked}
    {warp : Bool} (hsettings : x.settings = r.settings config')
    (hcompile : r.compile p config' = .ok l.image)
    (hproper : ∀ n ∈ Stmt.allNodes r.stack, n.ProperIn tgt warp r.arguments)
    (hfit : ∀ n ∈ Stmt.allNodes r.stack, n.EscapesFit)
    (hargs : List.Forall₂ (fun shape v => v.Honours shape) r.arguments x.args)
    (hcalls : ∀ k ∈ Stmt.allCalls r.stack, x.Performs s m k) {callers : List Frame} {w : σ}
    {L : σ → Standing σ → Prop} :
    Follows x.outside s x.fuel (.on (Frame.start l x.args :: callers) w)
      ((Stmt.evalAll x r.stack).leaving w) (fun _ w' t => t = back callers w') L := by
  obtain ⟨himage, hfits⟩ := Routine.fitsImage_of_compile hcompile hproper
  obtain ⟨-, -, hmeets⟩ := Routine.compile_eq_ok hcompile
  rw [Routine.demands, ← hsettings] at hmeets
  have hops : l.image.ops
      = Stmt.allCode x.settings (r.imports config') 0 r.stack ++ [.ret] := by
    rw [himage, hsettings]
    rfl
  have hret : l.image.ops[Stmt.allSize x.settings r.stack]? = some .ret := by
    rw [himage, hsettings]
    exact Routine.code_getElem?_allSize
  have hstart : Frame.start l x.args = l.frame x.args 0 []
      (List.replicate (Stmt.allSlots x.settings r.stack) (.number Number.zero)) := by
    have hlocals : l.image.locals.toNat = Stmt.allSlots x.settings r.stack := by
      rw [himage, hsettings]
      exact Routine.toNat_locals hfits
    rw [Frame.start, hlocals]
    rfl
  rw [hstart]
  refine Follows.leaving (Stmt.follows_evalAll (staged_of_compile himage hargs) hfuel r.stack
    (hops ▸ CodeAt.whole _ _) ?_ hmeets (fun k hk => ⟨hproper k hk, hfit k hk⟩) hcalls ?_)
    (fun w' t h => ?_) (fun w' t h => ?_)
  · rw [hops, List.length_append, Stmt.length_allCode, List.length_singleton]
    omega
  · simp
  · obtain ⟨locals', -, rfl⟩ := h
    rw [Nat.zero_add]
    exact turn_ret hret
  · obtain ⟨pc, st, locals', hop, rfl⟩ := h
    exact turn_ret hop

/-- **The machine does what a routine means.** Each call uses up one unit of fuel and takes one
turn. -/
theorem follows_perform (hp : p.GeneratedBy tgt config script) (hfit : p.EscapesFit)
    (hlinked : p.LinkedIn config' s) : ∀ (n : Nat) {r : Routine} {l : Linked} {args : List Value}
    {callers : List Frame} {w : σ} {L : σ → Standing σ → Prop}, r ∈ p.routines →
    r.compile p config' = .ok l.image →
    List.Forall₂ (fun shape v => v.Honours shape) r.arguments args →
    Follows o s n (.on (Frame.start l args :: callers) w) (p.perform o config' n r args w)
      (fun _ w' t => t = back callers w') L := by
  intro n
  induction n with
  | zero => exact fun _ _ _ => ⟨0, Or.inr ⟨Nat.le_refl 0, _, rfl⟩⟩
  | succ n ih =>
    intro r l args callers w L hr hcompile hargs
    refine follows_stack (x := ⟨o, n + 1, r.settings config', args, _⟩) rfl rfl hcompile
      (Target.proper_of_generatedBy hp hr) (hfit r hr) hargs fun k hk => ?_
    have hkey := hp.called r hr k (Routine.calls_iff.mpr hk)
    obtain ⟨r', hr'⟩ := Option.isSome_iff_exists.mp (VariantTable.isSome_find?_iff.mpr hkey)
    obtain ⟨l', hl', hcompile'⟩ := hlinked k r' hr'
    have hmem := VariantTable.mem_of_find? hr'
    obtain ⟨d, hd, hroutine⟩ := hp.names k r' hmem
    obtain ⟨-, hsig, -⟩ := Target.variantRoutine_eq_ok hd hroutine
    refine ⟨l', hl', fun vs f callers w L hvs => ?_⟩
    simp only [hr']
    exact ih (List.mem_cons_of_mem _ (VariantTable.mem_values_iff.mpr ⟨k, hmem⟩)) hcompile'
      (hsig ▸ hvs)

end Program

end BlockScript
