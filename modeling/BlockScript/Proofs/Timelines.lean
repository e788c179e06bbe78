import BlockScript.Proofs.Activations

/-!
# Ticks without an end

An activation of a piece of code is what has happened up to now. Whether the code is ever left is a
question about all ticks that are to come, and a `Timeline` has them all, each on a host and in a
world of its own. The frame above some callers may stay in a piece of code for any number of ticks
(`Timeline.Stays`), and as long as it does, these ticks go on with an activation
(`Timeline.Stays.activation`).

Unless a limit is reached, a tick executes the instruction of the innermost frame
(`Timeline.exists_exec`).
-/

namespace BlockScript

variable {σ : Type}

/-- Ticks of a thread, one after the other and without an end, and what is seen of them. -/
structure Timeline (s : Setting) where
  state : Nat → Execution
  moment : Nat → Moment
  ticks : ∀ n, ∃ (σ : Type) (h : Host σ) (w : World σ),
    state (n + 1) = ((state n).tick h s w).1 ∧ moment n = (state n).moment h s w

namespace Timeline

variable {s : Setting}

/-- What is seen of the first `n` ticks. -/
def seen (T : Timeline s) (n : Nat) : List Moment := (List.range n).map T.moment

/-- Up to the state `n` the frame above `callers` is in the code from `a` up to `b`. -/
def Stays (T : Timeline s) (callers : List Frame) (a b n : Nat) : Prop :=
  ∀ m ≤ n, ∃ inner f, (T.state m).frames = inner ++ f :: callers ∧ a ≤ f.pc ∧ f.pc < b

/-- In the state `n` the frame above `callers` is the innermost one and is at `pc`. -/
def At (T : Timeline s) (image : Image) (callers : List Frame) (pc n : Nat) : Prop :=
  ∃ f, (T.state n).frames = f :: callers ∧ f.routine.image = image ∧ f.pc = pc

/-- As long as the frame above `callers` stays in the code, the thread is not asked to stop and
comes to no limit. -/
def Thrives (T : Timeline s) (callers : List Frame) (a b : Nat) : Prop :=
  ∀ n, T.Stays callers a b n →
    (T.moment n).flow ≠ .stopped ∧ ∀ fault, fault.IsLimit → (T.moment n).flow ≠ .fail fault

variable {T : Timeline s} {entry : Linked} {image : Image} {callers : List Frame} {a b n : Nat}
  {before : List Moment} {f : Frame} {op : Instr}

theorem seen_succ (T : Timeline s) (n : Nat) : T.seen (n + 1) = T.seen n ++ [T.moment n] := by
  simp [seen, List.range_succ]

theorem Stays.mono (h : T.Stays callers a b n) {m : Nat} (hm : m ≤ n) : T.Stays callers a b m :=
  fun k hk => h k (Nat.le_trans hk hm)

theorem Stays.lt_of_left (h : T.Stays callers a b n) {m : Nat} (hleft : ¬ T.Stays callers a b m) :
    n < m :=
  Nat.lt_of_not_le fun hm => hleft (h.mono hm)

theorem Stays.succ (h : T.Stays callers a b n) (inner : List Frame)
    (hframes : (T.state (n + 1)).frames = inner ++ f :: callers) (hlo : a ≤ f.pc) (hhi : f.pc < b) :
    T.Stays callers a b (n + 1) := by
  intro m hm
  rcases Nat.eq_or_lt_of_le hm with rfl | hlt
  · exact ⟨inner, f, hframes, hlo, hhi⟩
  · exact h m (Nat.le_of_lt_succ hlt)

/-- How often the frame above `callers` has executed the instruction at `pc`, before the ticks and
in the first `n` of them. -/
def passes (T : Timeline s) (callers : List Frame) (before : List Moment) (pc n : Nat) : Nat :=
  (momentsAt callers.length pc (before ++ T.seen n)).length

theorem passes_succ (T : Timeline s) (callers : List Frame) (before : List Moment) (pc n : Nat) :
    T.passes callers before pc (n + 1)
      = T.passes callers before pc n
        + if (T.moment n).place = some (callers.length, pc) then 1 else 0 := by
  rw [passes, passes, seen_succ, ← List.append_assoc]
  split
  · next hplace => rw [momentsAt_concat hplace, List.length_append, List.length_singleton]
  · next hplace => rw [momentsAt_concat_of_ne hplace]; rfl

theorem passes_mono (T : Timeline s) (callers : List Frame) (before : List Moment) (pc : Nat)
    {m : Nat} (hm : m ≤ n) : T.passes callers before pc m ≤ T.passes callers before pc n := by
  induction hm with
  | refl => exact Nat.le_refl _
  | step _ ih =>
    rw [passes_succ]
    exact Nat.le_add_right_of_le ih

theorem visits (hstart : (Execution.start entry).Visits s (T.state 0)) :
    ∀ n, (Execution.start entry).Visits s (T.state n)
  | 0 => hstart
  | n + 1 => by
    obtain ⟨σ, h, w, hstate, -⟩ := T.ticks n
    rw [hstate]
    exact .tick h w (visits hstart n)

theorem confined (hstart : (Execution.start entry).Visits s (T.state 0)) (n : Nat) :
    ∀ f ∈ (T.state n).frames, f.Confined := by
  refine (Frame.confinement s).visits ?_ (T.visits hstart n)
  intro f hf
  rw [List.mem_singleton.mp hf]
  exact .start entry []

/-! ## Activations go on -/

/-- **While the frame stays in the code, its activation goes on.** -/
theorem Stays.activation
    (hbefore : Execution.Activation s entry image callers a b (T.state 0) before) :
    ∀ {n : Nat}, T.Stays callers a b n →
      Execution.Activation s entry image callers a b (T.state n) (before ++ T.seen n)
  | 0, _ => by
    rw [seen, List.range_zero, List.map_nil, List.append_nil]
    exact hbefore
  | n + 1, h => by
    obtain ⟨σ, host, w, hstate, hmoment⟩ := T.ticks n
    obtain ⟨inner, f, hframes, hlo, hhi⟩ := h (n + 1) (Nat.le_refl _)
    rw [hstate] at hframes ⊢
    rw [seen_succ, hmoment, ← List.append_assoc]
    exact .tick host w (activation hbefore (h.mono (Nat.le_succ n))) hframes hlo hhi

/-- If no limit is reached, the innermost frame executes its instruction. -/
theorem exists_exec (hframes : (T.state n).frames = f :: callers) (hconfined : f.Confined)
    (hop : f.routine.image.ops[f.pc]? = some op) (hcall : ∀ i argc, op ≠ .callHost i argc)
    (hflow : ∀ fault, fault.IsLimit → (T.moment n).flow ≠ .fail fault) :
    ∃ (σ : Type) (h : Host σ) (w : World σ), T.moment n = f.act h s callers w op
      ∧ (T.state (n + 1)).frames = (Execution.applyEffect (f.exec h s callers w op).2.1
        (f.exec h s callers w op).1 callers (f.exec h s callers w op).2.2).1 := by
  obtain ⟨σ, h, w, hstate, hmoment⟩ := T.ticks n
  have hlimit : Execution.limitFault? s.limits { T.state n with ticks := (T.state n).ticks + 1 }
      = none := by
    cases hlimit : Execution.limitFault? s.limits
        { T.state n with ticks := (T.state n).ticks + 1 } with
    | none => rfl
    | some fault =>
      refine absurd ?_ (hflow fault (Execution.isLimit_of_limitFault? hlimit))
      rw [hmoment, Execution.moment]
      simp only [Execution.tick, hlimit]
  have hpending : f.pending = none := by
    cases hpending : f.pending with
    | none => rfl
    | some id =>
      obtain ⟨i, argc, hcallHost⟩ := hconfined.waiting (by rw [hpending]; rfl)
      rw [hop] at hcallHost
      exact absurd (Option.some.inj hcallHost) (hcall i argc)
  have hcode : f.routine.code[f.pc]? = some op := by
    rw [f.routine.code_eq, List.getElem?_toArray, hop]
  refine ⟨σ, h, w, hmoment.trans (Execution.moment_eq_act hlimit hframes hpending hcode), ?_⟩
  rw [hstate, Execution.tick_of_limitFault? w hlimit, hframes]
  simp only [Execution.dispatch, hpending, hcode]

/-! ## Timelines can be computed -/

end Timeline

/-- The tick goes on, or the thread gives way. -/
def Flow.isCalm : Flow → Bool
  | .next | .suspend _ => true
  | _ => false

namespace Timeline

variable {s : Setting} {T : Timeline s} {callers : List Frame} {a b n : Nat}

/-- The state and the world after so many ticks on one host. -/
def after (h : Host σ) (s : Setting) (w : World σ) (e : Execution) : Nat → Execution × World σ
  | 0 => (e, w)
  | n + 1 =>
    let r := after h s w e n
    ((r.1.tick h s r.2).1, (r.1.tick h s r.2).2.1)

/-- All ticks on one host. -/
def ofHost (h : Host σ) (s : Setting) (w : World σ) (e : Execution) : Timeline s where
  state n := (after h s w e n).1
  moment n := (after h s w e n).1.moment h s (after h s w e n).2
  ticks n := ⟨σ, h, (after h s w e n).2, rfl, rfl⟩

/-- The positions of all frames in each of the first `n` states. -/
def positions (T : Timeline s) (n : Nat) : List (List Nat) :=
  (List.range n).map fun m => (T.state m).frames.map Frame.pc

theorem positions_getElem? (T : Timeline s) {m : Nat} (hm : m < n) :
    (T.positions n)[m]? = some ((T.state m).frames.map Frame.pc) := by
  simp [positions, hm]

/-- A lone frame whose position is in the code stays in it. -/
theorem stays_of_positions
    (h : ∀ l ∈ T.positions (n + 1), l.length = 1 ∧ ∀ pc ∈ l, a ≤ pc ∧ pc < b) :
    T.Stays [] a b n := by
  intro m hm
  obtain ⟨hone, hinside⟩ := h _ (List.mem_of_getElem? (T.positions_getElem? (Nat.lt_succ_of_le hm)))
  rw [List.length_map] at hone
  obtain ⟨f, hframes⟩ := List.length_eq_one_iff.mp hone
  refine ⟨[], f, hframes, hinside f.pc ?_⟩
  rw [hframes]
  exact List.mem_singleton_self _

/-- A lone frame outside the code has left it. -/
theorem not_stays_of_pc {pc : Nat} (h : (T.state n).frames.map Frame.pc = [pc])
    (hout : ¬ (a ≤ pc ∧ pc < b)) : ¬ T.Stays [] a b n := by
  intro hstays
  obtain ⟨inner, f, hframes, hinside⟩ := hstays n (Nat.le_refl n)
  rw [hframes, List.map_append, List.map_singleton] at h
  obtain ⟨-, hpc⟩ := List.append_inj' (show _ = [] ++ [pc] from h) rfl
  rw [List.cons.inj hpc |>.1] at hinside
  exact hout hinside

/-- Up to the tick with which the code is left nothing stops the thread. -/
theorem thrives_of_left (hleft : ¬ T.Stays callers a b n)
    (hcalm : ∀ m < n, (T.moment m).flow.isCalm = true) : T.Thrives callers a b := by
  intro m hstays
  have hcalm := hcalm m (hstays.lt_of_left hleft)
  constructor
  · intro hflow
    rw [hflow] at hcalm
    cases hcalm
  · intro fault _ hflow
    rw [hflow] at hcalm
    cases hcalm

end Timeline

end BlockScript
