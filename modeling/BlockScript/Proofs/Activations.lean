import BlockScript.Proofs.Responsiveness

/-!
# One activation of a piece of code

A frame comes to the beginning of a piece of code, goes through it and leaves it again. In between,
the frame may call variants, whose frames come and go above it, and the thread may give way any
number of times. All this is one *activation* of the code, and an `Execution.Activation` has it
along with what is seen of its ticks: where an instruction is executed, which calls are made to the
host, and how the tick ends.

A tick works on the innermost frame only. So a property of the frame and of what has been seen holds
during every activation, if it holds at the beginning and is kept where the frame itself is at work
(`ActivationInvariant.activation`).
-/

namespace BlockScript

variable {σ : Type}

/-- What is seen of a tick. -/
structure Moment where
  /-- The number of frames below the one that executes an instruction, and its position. -/
  place : Option (Nat × Nat)
  calls : List Observation
  flow : Flow

/-- The moments at which the frame above `depth` others executes the instruction at `pc`. -/
def momentsAt (depth pc : Nat) (seen : List Moment) : List Moment :=
  seen.filter fun m => m.place = some (depth, pc)

section

variable {depth pc : Nat} {seen : List Moment} {m : Moment}

theorem momentsAt_append (before seen : List Moment) :
    momentsAt depth pc (before ++ seen) = momentsAt depth pc before ++ momentsAt depth pc seen :=
  List.filter_append ..

theorem momentsAt_concat (h : m.place = some (depth, pc)) :
    momentsAt depth pc (seen ++ [m]) = momentsAt depth pc seen ++ [m] := by
  simp [momentsAt, h]

theorem momentsAt_concat_of_ne (h : m.place ≠ some (depth, pc)) :
    momentsAt depth pc (seen ++ [m]) = momentsAt depth pc seen := by
  simp [momentsAt, h]

end

namespace Execution

/-- Where the next tick executes an instruction. It does so nowhere if a limit is reached or a
result is looked for. -/
def place? (s : Setting) (e : Execution) : Option (Nat × Nat) :=
  if (limitFault? s.limits { e with ticks := e.ticks + 1 }).isSome then none
  else
    match e.frames with
    | [] => none
    | f :: callers => if f.pending.isSome then none else some (callers.length, f.pc)

/-- What is seen of the next tick. -/
def moment (h : Host σ) (s : Setting) (w : World σ) (e : Execution) : Moment :=
  ⟨e.place? s, e.callsIn h s w, (e.tick h s w).2.2⟩

/-- The states of one activation of the code from `a` up to `b`, by a frame above `callers` that
runs the image, and what has been seen of the ticks since the frame was at `a`. Each tick may have a
host of its own. -/
inductive Activation (s : Setting) (entry : Linked) (image : Image) (callers : List Frame)
    (a b : Nat) : Execution → List Moment → Prop
  | enters {e : Execution} {f : Frame} (before : (Execution.start entry).Visits s e)
    (frames : e.frames = f :: callers) (runs : f.routine.image = image) (first : f.pc = a)
    (ready : f.pending = none) : Activation s entry image callers a b e []
  | tick {σ : Type} {e : Execution} {seen : List Moment} {inner : List Frame} {f : Frame}
    (h : Host σ) (w : World σ) (before : Activation s entry image callers a b e seen)
    (frames : (e.tick h s w).1.frames = inner ++ f :: callers) (first : a ≤ f.pc)
    (last : f.pc < b) :
    Activation s entry image callers a b (e.tick h s w).1 (seen ++ [e.moment h s w])

variable {h : Host σ} {s : Setting} {w : World σ} {entry : Linked} {image : Image}
  {callers : List Frame} {a b : Nat} {e : Execution} {seen : List Moment}

theorem Activation.visits (h : Activation s entry image callers a b e seen) :
    (Execution.start entry).Visits s e := by
  induction h with
  | enters before => exact before
  | tick h w _ _ _ _ ih => exact .tick h w ih

theorem Activation.confined (h : Activation s entry image callers a b e seen) :
    ∀ f ∈ e.frames, f.Confined := by
  refine (Frame.confinement s).visits ?_ h.visits
  intro f hf
  rw [List.mem_singleton.mp hf]
  exact .start entry []

/-! ## A tick of an activation -/

theorem applyEffect_frames (w : World σ) (f : Frame) (callers : List Frame) (effect : Effect) :
    ∃ front, (applyEffect w f callers effect).1 = front ++ callers := by
  cases effect with
  | next | nextUnlessStopped | suspend | fail => exact ⟨[f], rfl⟩
  | enter callee args => exact ⟨[Frame.start callee args, f], rfl⟩
  | leave => exact ⟨[], rfl⟩

/-- A tick leaves the callers of the innermost frame alone. -/
theorem dispatch_frames (h : Host σ) (s : Setting) (w : World σ) (f : Frame)
    (callers : List Frame) : ∃ front, (dispatch h s w (f :: callers)).1 = front ++ callers := by
  rw [dispatch]
  split
  · unfold pollFrame
    dsimp only
    split
    · exact ⟨[_], rfl⟩
    · exact ⟨[f], rfl⟩
  · split
    · exact ⟨[f], rfl⟩
    · exact applyEffect_frames _ _ _ _

/-- The frame above the callers is the same one in both lists. -/
theorem frame_inj (inner : List Frame) {inner' : List Frame} {f f' : Frame}
    (h : inner ++ f :: callers = inner' ++ f' :: callers) : f = f' :=
  (List.cons.inj (List.append_inj' h rfl).2).1

end Execution

namespace Frame

/-- What is seen when the frame executes an instruction above its callers. -/
def act (h : Host σ) (s : Setting) (callers : List Frame) (w : World σ) (f : Frame) (op : Instr) :
    Moment where
  place := some (callers.length, f.pc)
  calls := (f.exec h.recorded s callers ⟨(w.host, []), w.stop⟩ op).2.1.host.2
  flow :=
    let r := f.exec h s callers w op
    (Execution.applyEffect r.2.1 r.1 callers r.2.2).2.2

end Frame

/-- A property of what has been seen and of the frame above `callers`, which is kept on the way
through the code from `a` up to `b`. -/
structure ActivationInvariant (s : Setting) (image : Image) (callers : List Frame) (a b : Nat) where
  Holds : List Moment → Frame → Prop
  enter : ∀ {f : Frame}, f.Confined → f.routine.image = image → f.pc = a → Holds [] f
  /-- The tick belongs to another frame, or nothing is executed. -/
  idle : ∀ {seen : List Moment} {m : Moment} {f : Frame}, Holds seen f →
    (∀ pc, m.place ≠ some (callers.length, pc)) → Holds (seen ++ [m]) f
  resume : ∀ {seen : List Moment} {f : Frame} {id : PendingId} (v : Value),
    Holds seen f → f.Confined → f.routine.image = image → a ≤ f.pc → f.pc < b →
    f.pending = some id →
    Holds seen ({ f with pending := none }.push v).advance
  exec : ∀ {σ : Type} (h : Host σ) (w : World σ) {seen : List Moment} {f : Frame} {op : Instr},
    Holds seen f → f.Confined → f.routine.image = image → a ≤ f.pc → f.pc < b → f.pending = none →
    image.ops[f.pc]? = some op →
    Holds (seen ++ [f.act h s callers w op]) (f.exec h s callers w op).1

namespace Execution

variable {h : Host σ} {s : Setting} {w : World σ} {callers : List Frame} {e : Execution}

theorem place?_of_limit {fault : Fault}
    (hlimit : limitFault? s.limits { e with ticks := e.ticks + 1 } = some fault) :
    e.place? s = none := by
  rw [place?, hlimit]
  rfl

theorem place?_of_frames {f : Frame}
    (hlimit : limitFault? s.limits { e with ticks := e.ticks + 1 } = none)
    (hframes : e.frames = f :: callers) :
    e.place? s = if f.pending.isSome then none else some (callers.length, f.pc) := by
  rw [place?, hlimit, hframes]
  rfl

/-- The tick executes an instruction of the innermost frame. -/
theorem moment_eq_act {f : Frame} {op : Instr}
    (hlimit : limitFault? s.limits { e with ticks := e.ticks + 1 } = none)
    (hframes : e.frames = f :: callers) (hpending : f.pending = none)
    (hop : f.routine.code[f.pc]? = some op) : e.moment h s w = f.act h s callers w op := by
  rw [moment, callsIn, tick_of_limitFault? _ hlimit, tick_of_limitFault? _ hlimit,
    place?_of_frames hlimit hframes, hpending, hframes]
  simp only [dispatch, hpending, hop, applyEffect_world]
  rfl

end Execution

/-- What a tick does to the frame above `callers`. -/
inductive Execution.TickOf (h : Host σ) (s : Setting) (w : World σ) (callers : List Frame)
    (e : Execution) (f : Frame) : Prop
  /-- The tick belongs to another frame, or nothing is executed. -/
  | idles {inner : List Frame} (frames : (e.tick h s w).1.frames = inner ++ f :: callers)
    (place : ∀ pc, (e.moment h s w).place ≠ some (callers.length, pc))
  /-- The result that the frame waits for has come. -/
  | resumes {id : PendingId} (v : Value) (pending : f.pending = some id)
    (frames : (e.tick h s w).1.frames = ({ f with pending := none }.push v).advance :: callers)
    (place : ∀ pc, (e.moment h s w).place ≠ some (callers.length, pc))
  | acts {op : Instr} {inner : List Frame} (pending : f.pending = none)
    (here : f.routine.image.ops[f.pc]? = some op) (moment : e.moment h s w = f.act h s callers w op)
    (frames : (e.tick h s w).1.frames = inner ++ (f.exec h s callers w op).1 :: callers)
    (above : inner = [] ∨ ∃ i argc, op = .callProcedure i argc)
  | leaves (pending : f.pending = none) (here : f.routine.image.ops[f.pc]? = some .ret)
    (moment : e.moment h s w = f.act h s callers w .ret)
    (frames : (e.tick h s w).1.frames = callers)

namespace Execution

variable {h : Host σ} {s : Setting} {w : World σ} {callers inner : List Frame} {e : Execution}
  {f : Frame}

/-- The frame is the innermost one. -/
theorem tickOf_innermost (hlimit : limitFault? s.limits { e with ticks := e.ticks + 1 } = none)
    (hframes : e.frames = f :: callers) (hconfined : f.Confined) : e.TickOf h s w callers f := by
  have htick : (e.tick h s w).1.frames = (dispatch h s w (f :: callers)).1 := by
    rw [tick_of_limitFault? w hlimit, hframes]
  cases hpending : f.pending with
  | some id =>
    have hplace : ∀ pc, (e.moment h s w).place ≠ some (callers.length, pc) := by
      rw [moment, place?_of_frames hlimit hframes, hpending]
      simp
    simp only [dispatch, hpending, pollFrame] at htick
    split at htick
    · next v _ => exact .resumes v hpending htick hplace
    · have hsame : (e.tick h s w).1.frames = [] ++ f :: callers := htick
      exact .idles hsame hplace
  | none =>
    obtain ⟨op, hop⟩ : ∃ op, f.routine.image.ops[f.pc]? = some op :=
      ⟨_, List.getElem?_eq_getElem hconfined.inside⟩
    have hcode : f.routine.code[f.pc]? = some op := by
      rw [f.routine.code_eq, List.getElem?_toArray, hop]
    have hmoment := moment_eq_act (h := h) (w := w) hlimit hframes hpending hcode
    have hexec : f.Executes h s callers w op _ _ := Frame.executes_exec h s callers w f op
    have hacts : ∀ inner,
        (e.tick h s w).1.frames = inner ++ (f.exec h s callers w op).1 :: callers →
        (inner = [] ∨ ∃ i argc, op = .callProcedure i argc) → e.TickOf h s w callers f :=
      fun _ hframes habove => .acts hpending hop hmoment hframes habove
    simp only [dispatch, hpending, hcode] at htick
    generalize hresult : f.exec h s callers w op = r at htick hexec hacts
    obtain ⟨g, w', effect⟩ := r
    cases effect with
    | next | nextUnlessStopped | suspend | fail => exact hacts [] htick (Or.inl rfl)
    | enter callee args => exact hacts [_] htick (Or.inr hexec.eq_callProcedure)
    | leave =>
      obtain rfl : op = .ret := hexec.eq_ret
      exact .leaves hpending hop hmoment htick

/-- **A tick works on the innermost frame only.** -/
theorem tickOf (hframes : e.frames = inner ++ f :: callers) (hconfined : f.Confined) :
    e.TickOf h s w callers f := by
  cases hlimit : limitFault? s.limits { e with ticks := e.ticks + 1 } with
  | some fault =>
    -- At a limit the tick fails before it does anything.
    have htick : (e.tick h s w).1.frames = e.frames := by
      unfold tick
      dsimp only
      rw [hlimit]
    refine .idles (htick.trans hframes) fun pc => ?_
    rw [moment, place?_of_limit hlimit]
    simp
  | none =>
    cases inner with
    | nil => exact tickOf_innermost hlimit hframes hconfined
    | cons x xs =>
      -- The innermost frame is another one, and all below it stay as they are.
      obtain ⟨front, hfront⟩ := dispatch_frames h s w x (xs ++ f :: callers)
      have htick : (e.tick h s w).1.frames = (front ++ xs) ++ f :: callers := by
        rw [tick_of_limitFault? w hlimit, hframes, List.cons_append, List.append_assoc]
        exact hfront
      refine .idles htick fun pc => ?_
      rw [moment, place?_of_frames hlimit hframes]
      dsimp only
      split
      · simp
      · -- The place tells the two frames apart by what is below them.
        intro hplace
        have hlength := congrArg Prod.fst (Option.some.inj hplace)
        simp at hlength
        omega

end Execution

/-- **What is kept where the frame is at work holds during every activation.** -/
theorem ActivationInvariant.activation {s : Setting} {image : Image} {callers : List Frame}
    {a b : Nat} {e : Execution} {seen : List Moment} (I : ActivationInvariant s image callers a b)
    (hab : a < b) {entry : Linked} (he : Execution.Activation s entry image callers a b e seen) :
    ∃ inner f, e.frames = inner ++ f :: callers ∧ f.routine.image = image ∧ a ≤ f.pc ∧ f.pc < b
      ∧ f.Confined ∧ I.Holds seen f := by
  induction he with
  | @enters e f before frames runs first ready =>
    have hconfined :=
      (Execution.Activation.enters (b := b) before frames runs first ready).confined f
      (by rw [frames]; exact List.mem_cons_self)
    exact ⟨[], f, frames, runs, Nat.le_of_eq first.symm, first ▸ hab, hconfined,
      I.enter hconfined runs first⟩
  | @tick σ e seen inner' f' h w before frames first last ih =>
    obtain ⟨inner, f, hframes, himage, hlo, hhi, hconfined, hf⟩ := ih
    have hconfined' := (Execution.Activation.tick h w before frames first last).confined f'
      (by rw [frames]; simp)
    refine ⟨inner', f', frames, ?_⟩
    suffices hkept : f'.routine.image = image ∧ I.Holds (seen ++ [e.moment h s w]) f' from
      ⟨hkept.1, first, last, hconfined', hkept.2⟩
    cases (Execution.tickOf hframes hconfined : e.TickOf h s w callers f) with
    | idles hnext hplace =>
      rw [hnext] at frames
      rw [← Execution.frame_inj _ frames]
      exact ⟨himage, I.idle hf hplace⟩
    | resumes v hpending hnext hplace =>
      rw [hnext] at frames
      rw [← Execution.frame_inj [] frames]
      exact ⟨himage, I.idle (I.resume v hf hconfined himage hlo hhi hpending) hplace⟩
    | @acts op _ hpending hop hmoment hnext _ =>
      rw [hnext] at frames
      rw [← Execution.frame_inj _ frames, hmoment, (Frame.executes_exec h s callers w f op).routine]
      exact ⟨himage, I.exec h w hf hconfined himage hlo hhi hpending (himage ▸ hop)⟩
    | leaves _ _ _ hnext =>
      -- The callers alone are too few to have the frame above them.
      have hlength := congrArg List.length (hnext.symm.trans frames)
      rw [List.length_append, List.length_cons] at hlength
      omega

/-! ## Activations can be computed -/

namespace Execution

/-- Ticks during which a lone frame stays in the code from `a` up to `b`, and what is seen of
them. -/
def linger (h : Host σ) (s : Setting) (a b : Nat) :
    Nat → World σ → Execution → Option (Execution × List Moment)
  | 0, _, e => some (e, [])
  | n + 1, w, e =>
    match (e.tick h s w).1.frames with
    | [f] =>
      if a ≤ f.pc ∧ f.pc < b then
        (linger h s a b n (e.tick h s w).2.1 (e.tick h s w).1).map
        fun r => (r.1, e.moment h s w :: r.2)
      else none
    | _ => none

theorem Activation.linger {h : Host σ} {s : Setting} {entry : Linked} {image : Image} {a b : Nat}
    (n : Nat) : ∀ {w : World σ} {e e' : Execution} {seen ms : List Moment},
      Activation s entry image [] a b e seen → e.linger h s a b n w = some (e', ms) →
      Activation s entry image [] a b e' (seen ++ ms) := by
  induction n with
  | zero =>
    intro w e e' seen ms he hlinger
    cases hlinger
    rwa [List.append_nil]
  | succ n ih =>
    intro w e e' seen ms he hlinger
    rw [Execution.linger] at hlinger
    split at hlinger
    · next f hframes =>
      split at hlinger
      · next hpc =>
        obtain ⟨⟨e₁, ms₁⟩, hrest, heq⟩ := Option.map_eq_some_iff.mp hlinger
        obtain ⟨rfl, rfl⟩ := Prod.mk.inj heq
        have hframes : (e.tick h s w).1.frames = [] ++ f :: [] := hframes
        have hnext := ih (.tick h w he hframes hpc.1 hpc.2) hrest
        rwa [List.append_assoc] at hnext
      · cases hlinger
    · cases hlinger

end Execution

end BlockScript
