import BlockScript.Block.Tree
import Mathlib.Data.List.Nodup
import Mathlib.Data.List.Perm.Subperm

/-!
# The trail of a walk

From a block, links lead to the blocks in the slots that it reads, and from a member of a stack also
to the block below. Who follows all links in order, depth first, and remembers nothing, leaves a
*trail* of blocks (`Arena.trail`). On a tree the trail ends and has each block once. On any other
graph it comes to a block that is missing, or it comes to a block again, and then it may go on for
ever.

The walk that makes trees goes along the trail and is given up at the first block that is missing or
was met before (`Walked`). Along a path all blocks are distinct, so the depth that the walk is given
is never used up; and whatever each block carries from its slots to its tree holds of what is found
(`Arena.Gathers`).

Main statement: the walk finds the trees of a stack exactly if the trail has no bad block, and
otherwise the error names the first one (`Arena.stackTrees_cases`).
-/

namespace BlockScript

/-! ## Links -/

/-- A block that is to be met, as a reporter or as a member of a stack. -/
inductive Visit where
  | reporter (id : BlockId)
  | member (id : BlockId)

/-- The block that is met. -/
def Visit.id : Visit → BlockId
  | .reporter id | .member id => id

/-- Where a slot leads, if there is a block in it. -/
def Reading.visit? : Reading → Option Visit
  | .value _ (.literal _) => none
  | .value _ (.block id) => some (.reporter id)
  | .stack _ first => some (.member first)

namespace Arena

/-- Where the links of a block lead, in order. From a block that is missing they lead nowhere. -/
def links (a : Arena) (t : Target) : Visit → List Visit
  | .reporter id =>
    match a.get? id with
    | some b => b.reporterReadings.filterMap Reading.visit?
    | none => []
  | .member id =>
    match a.get? id with
    | some b => (b.statementReadings t).filterMap Reading.visit? ++ b.next.toList.map Visit.member
    | none => []

/-- The first `n` blocks on the trail of what is to be met: after a block come those that its links
lead to, and after these the others. -/
def trail (a : Arena) (t : Target) : (n : Nat) → List Visit → List BlockId
  | 0, _ => []
  | _ + 1, [] => []
  | n + 1, v :: rest => v.id :: a.trail t n (a.links t v ++ rest)

/-- The trail of the stack that begins with a block. -/
def stackTrail (a : Arena) (t : Target) (n : Nat) (first : Option BlockId) : List BlockId :=
  a.trail t n (first.toList.map Visit.member)

/-- All blocks of the list are there, and each stands in it once. -/
structure Distinct (a : Arena) (ids : List BlockId) : Prop where
  nodup : ids.Nodup
  found : ∀ id ∈ ids, (a.get? id).isSome = true

/-- After other blocks the block is a bad one: it is missing, or it is one of them. -/
inductive Offends (a : Arena) (before : List BlockId) (id : BlockId) : WalkError → Prop
  | missing (absent : a.get? id = none) : Offends a before id (.missing id)
  | repeated (found : (a.get? id).isSome = true) (again : id ∈ before) :
    Offends a before id (.repeated id)

/-- The first bad block on the trail of a stack. -/
def Rejects (a : Arena) (t : Target) (first : Option BlockId) (e : WalkError) : Prop :=
  ∃ before id, a.stackTrail t (before.length + 1) first = before ++ [id] ∧ a.Distinct before
    ∧ a.Offends before id e

variable {a : Arena} {t : Target} {ids before seen : List BlockId} {id : BlockId} {e : WalkError}

/-! ## Trails -/

/-- A shorter trail is the beginning of a longer one. -/
theorem trail_eq_take (a : Arena) (t : Target) : ∀ {m n : Nat} (visits : List Visit), m ≤ n →
    a.trail t m visits = (a.trail t n visits).take m
  | 0, n, visits, _ => by simp [trail]
  | m + 1, n + 1, [], _ => by simp [trail]
  | m + 1, n + 1, v :: rest, h => by
    simp [trail, trail_eq_take a t (a.links t v ++ rest) (Nat.le_of_succ_le_succ h)]

theorem Distinct.sublist (h : a.Distinct ids) {ids' : List BlockId} (hsub : ids'.Sublist ids) :
    a.Distinct ids' :=
  ⟨h.nodup.sublist hsub, fun id hid => h.found id (hsub.subset hid)⟩

/-- There are no more blocks than the arena has. -/
theorem Distinct.length_le (h : a.Distinct ids) : ids.length ≤ a.size := by
  have hnodup : (ids.map UInt32.toNat).Nodup := h.nodup.map fun _ _ => UInt32.toNat_inj.mp
  have hsubset : ids.map UInt32.toNat ⊆ List.range a.size := by
    intro n hn
    obtain ⟨id, hid, rfl⟩ := List.mem_map.mp hn
    obtain ⟨b, hb⟩ := Option.isSome_iff_exists.mp (h.found id hid)
    rw [get?] at hb
    exact List.mem_range.mpr (Array.getElem?_eq_some_iff.mp hb).1
  have hle := (List.subperm_of_subset hnodup hsubset).length_le
  rwa [List.length_map, List.length_range] at hle

theorem Distinct.cons (h : a.Distinct seen) {b : Block} (hb : a.get? id = some b)
    (hnew : id ∉ seen) : a.Distinct (id :: seen) := by
  refine ⟨List.nodup_cons.mpr ⟨hnew, h.nodup⟩, List.forall_mem_cons.mpr ⟨?_, h.found⟩⟩
  rw [hb]
  rfl

theorem Distinct.reverse (h : a.Distinct ids) : a.Distinct ids.reverse :=
  ⟨List.nodup_reverse.mpr h.nodup, fun id hid => h.found id (List.mem_reverse.mp hid)⟩

theorem Offends.not_distinct (h : a.Offends before id e) : ¬ a.Distinct (before ++ [id]) := by
  intro hdistinct
  cases h with
  | missing habsent =>
    have hfound := hdistinct.found id (by simp)
    rw [habsent] at hfound
    cases hfound
  | repeated _ hagain =>
    exact (List.nodup_append.mp hdistinct.nodup).2.2 id hagain id (List.mem_singleton.mpr rfl) rfl

theorem Offends.unique {e' : WalkError} (h : a.Offends before id e) (h' : a.Offends before id e') :
    e = e' := by
  cases h with
  | missing habsent =>
    cases h' with
    | missing => rfl
    | repeated hfound =>
      rw [habsent] at hfound
      cases hfound
  | repeated hfound =>
    cases h' with
    | missing habsent =>
      rw [habsent] at hfound
      cases hfound
    | repeated => rfl

/-- A trail that is longer than the one up to the first bad block goes through that block. -/
theorem not_distinct_of_lt {first : Option BlockId} {n : Nat}
    (htrail : a.stackTrail t (before.length + 1) first = before ++ [id]) (h : a.Offends before id e)
    (hn : before.length < n) : ¬ a.Distinct (a.stackTrail t n first) := by
  intro hdistinct
  refine h.not_distinct (hdistinct.sublist ?_)
  rw [← htrail, stackTrail, trail_eq_take a t _ (Nat.succ_le_of_lt hn)]
  exact List.take_sublist _ _

/-- There is at most one first bad block. -/
theorem Rejects.unique {first : Option BlockId} {e' : WalkError} (h : a.Rejects t first e)
    (h' : a.Rejects t first e') : e = e' := by
  obtain ⟨before, id, htrail, hdistinct, hoffends⟩ := h
  obtain ⟨before', id', htrail', hdistinct', hoffends'⟩ := h'
  have hbegin : ∀ {before id} {n : Nat}, a.stackTrail t (before.length + 1) first = before ++ [id] →
      n ≤ before.length → a.stackTrail t n first = before.take n := by
    intro before id n htrail hn
    rw [stackTrail, trail_eq_take a t _ (Nat.le_succ_of_le hn), ← stackTrail, htrail,
      List.take_append_of_le_length hn]
  rcases Nat.lt_trichotomy before.length before'.length with hlt | heq | hgt
  · refine absurd (hdistinct'.sublist ?_) (not_distinct_of_lt htrail hoffends (Nat.lt_succ_self _))
    rw [hbegin htrail' hlt]
    exact List.take_sublist _ _
  · rw [heq, htrail'] at htrail
    obtain ⟨rfl, hid⟩ := List.append_inj htrail heq.symm
    cases hid
    exact hoffends.unique hoffends'
  · refine absurd (hdistinct.sublist ?_) (not_distinct_of_lt htrail' hoffends' (Nat.lt_succ_self _))
    rw [hbegin htrail hgt]
    exact List.take_sublist _ _

end Arena

/-! ## Parts of a walk -/

section

variable {α β : Type} {a : Arena} {t : Target} {visits visits' : List Visit} {seen : List BlockId}

/-- What becomes of a part of the walk that meets `visits` after `seen`. It goes along their trail
to the end and its result fits the blocks on it, or it is given up at the first bad block. -/
inductive Walked (a : Arena) (t : Target) (visits : List Visit) (seen : List BlockId)
    (Fits : α → List BlockId → Prop) : Except WalkError (α × List BlockId) → Prop
  | ok {x : α} {ids : List BlockId} (distinct : a.Distinct (ids.reverse ++ seen))
    (fits : Fits x ids)
    (along : ∀ n rest, a.trail t (ids.length + n) (visits ++ rest) = ids ++ a.trail t n rest) :
    Walked a t visits seen Fits (.ok (x, ids.reverse ++ seen))
  | error {e : WalkError} {ids : List BlockId} {id : BlockId}
    (distinct : a.Distinct (ids.reverse ++ seen)) (offends : a.Offends (ids.reverse ++ seen) id e)
    (along : ∀ rest, a.trail t (ids.length + 1) (visits ++ rest) = ids ++ [id]) :
    Walked a t visits seen Fits (.error e)

namespace Walked

variable {Fits : α → List BlockId → Prop} {Fits' : β → List BlockId → Prop}

/-- There is nothing to meet. -/
theorem pure (h : a.Distinct seen) {x : α} (hx : Fits x []) :
    Walked a t [] seen Fits (.ok (x, seen)) := by
  have hok : Walked a t [] seen Fits (.ok (x, [].reverse ++ seen)) :=
    .ok h hx fun n rest => by rw [List.length_nil, Nat.zero_add]; rfl
  exact hok

/-- **One part of the walk comes after another.** -/
theorem bind {r : Except WalkError (α × List BlockId)}
    {k : α × List BlockId → Except WalkError (β × List BlockId)}
    (h : Walked a t visits seen Fits r)
    (hk : ∀ x ids, a.Distinct (ids.reverse ++ seen) → Fits x ids →
      Walked a t visits' (ids.reverse ++ seen) (fun y ids' => Fits' y (ids ++ ids'))
        (k (x, ids.reverse ++ seen))) :
    Walked a t (visits ++ visits') seen Fits' (r >>= k) := by
  cases h with
  | error hdistinct hoffends halong =>
    refine .error hdistinct hoffends fun rest => ?_
    rw [List.append_assoc]
    exact halong _
  | @ok x ids hdistinct hx halong =>
    have hnext := hk x ids hdistinct hx
    have hbind : (Except.ok (x, ids.reverse ++ seen) >>= k) = k (x, ids.reverse ++ seen) := rfl
    rw [hbind]
    generalize k (x, ids.reverse ++ seen) = result at hnext
    cases hnext with
    | @ok y ids' hdistinct' hy halong' =>
      rw [← List.append_assoc, ← List.reverse_append] at hdistinct' ⊢
      refine .ok hdistinct' hy fun n rest => ?_
      rw [List.length_append, Nat.add_assoc, List.append_assoc, halong, halong', List.append_assoc]
    | @error e ids' id hdistinct' hoffends halong' =>
      rw [← List.append_assoc, ← List.reverse_append] at hdistinct' hoffends
      refine .error hdistinct' hoffends fun rest => ?_
      rw [List.length_append, Nat.add_assoc, List.append_assoc, halong, halong', List.append_assoc]

theorem map {r : Except WalkError (α × List BlockId)} {f : α → β}
    (h : Walked a t visits seen Fits r)
    (hf : ∀ x ids, a.Distinct (ids.reverse ++ seen) → Fits x ids → Fits' (f x) ids) :
    Walked a t visits seen Fits' (r >>= fun p => .ok (f p.1, p.2)) := by
  rw [← List.append_nil visits]
  refine h.bind fun x ids hdistinct hx => .pure hdistinct ?_
  rw [List.append_nil]
  exact hf x ids hdistinct hx

/-- The first block that is to be met is a bad one. -/
theorem refused (h : a.Distinct seen) {v : Visit} {rest : List Visit} {e : WalkError}
    (hv : a.Offends seen v.id e) : Walked a t (v :: rest) seen Fits (.error e) := by
  have hseen : a.Distinct (([] : List BlockId).reverse ++ seen) := h
  exact .error hseen hv fun rest => rfl

/-- **A block is met, and then where its links lead.** -/
theorem meet {v : Visit} {k : Block → Except WalkError (α × List BlockId)} (h : a.Distinct seen)
    (hk : ∀ b, a.get? v.id = some b → a.Distinct (v.id :: seen) →
      Walked a t (a.links t v) (v.id :: seen) (fun x ids => Fits x (v.id :: ids)) (k b)) :
    Walked a t [v] seen Fits (a.visit seen v.id >>= k) := by
  unfold Arena.visit
  cases hb : a.get? v.id with
  | none => exact .refused h (.missing hb)
  | some b =>
    dsimp only
    split
    · next hagain => exact .refused h (.repeated (by rw [hb]; rfl) hagain)
    · next hnew =>
      have hnext := hk b hb (h.cons hb hnew)
      have hbind : (Except.ok b >>= k) = k b := rfl
      rw [hbind]
      generalize k b = result at hnext
      cases hnext with
      | @ok x ids hdistinct hx halong =>
        have hseen : ids.reverse ++ v.id :: seen = (v.id :: ids).reverse ++ seen := by simp
        rw [hseen] at hdistinct ⊢
        refine .ok hdistinct hx fun n rest => ?_
        rw [List.length_cons, Nat.add_right_comm, List.singleton_append, Arena.trail, halong]
        rfl
      | @error e ids id hdistinct hoffends halong =>
        have hseen : ids.reverse ++ v.id :: seen = (v.id :: ids).reverse ++ seen := by simp
        rw [hseen] at hdistinct hoffends
        refine .error hdistinct hoffends fun rest => ?_
        rw [List.length_cons, List.singleton_append, Arena.trail, halong]
        rfl

end Walked

end

/-! ## What is gathered on a walk -/

/-- What is found in slots, along with the blocks met on the way: `R` and `M` say what there is to
find at a reporter and at a stack. -/
inductive Filled (R : BlockId → Tree → List BlockId → Prop)
    (M : BlockId → List Tree → List BlockId → Prop) :
    List Reading → List (String × Tree) → List BlockId → Prop
  | nil : Filled R M [] [] []
  | literal {name : String} {v : Value} {rs : List Reading} {slots : List (String × Tree)}
    {ids : List BlockId} (rest : Filled R M rs slots ids) :
    Filled R M (.value name (.literal v) :: rs) ((name, .literal v) :: slots) ids
  | reporter {name : String} {id : BlockId} {tree : Tree} {rs : List Reading}
    {slots : List (String × Tree)} {ids ids' : List BlockId} (first : R id tree ids)
    (rest : Filled R M rs slots ids') :
    Filled R M (.value name (.block id) :: rs) ((name, tree) :: slots) (ids ++ ids')
  | stack {name : String} {id : BlockId} {trees : List Tree} {rs : List Reading}
    {slots : List (String × Tree)} {ids ids' : List BlockId} (first : M id trees ids)
    (rest : Filled R M rs slots ids') :
    Filled R M (.stack name id :: rs) ((name, .stack trees) :: slots) (ids ++ ids')

/-- Properties of trees and of the blocks in them that each block carries from its slots to its own
tree, and each member of a stack from those below it. -/
structure Arena.Gathers (a : Arena) (t : Target) (R : BlockId → Tree → List BlockId → Prop)
    (M : BlockId → List Tree → List BlockId → Prop) : Prop where
  reporter : ∀ {id b slots ids}, a.get? id = some b → Filled R M b.reporterReadings slots ids →
    (id :: ids).Nodup → R id (.block id b slots) (id :: ids)
  last : ∀ {id b slots ids}, a.get? id = some b → Filled R M (b.statementReadings t) slots ids →
    (id :: ids).Nodup → M id [.block id b slots] (id :: ids)
  above : ∀ {id b slots ids below rest ids'}, a.get? id = some b →
    Filled R M (b.statementReadings t) slots ids → M below rest ids' → (id :: (ids ++ ids')).Nodup →
    M id (.block id b slots :: rest) (id :: (ids ++ ids'))

namespace Arena

variable {a : Arena} {t : Target} {R : BlockId → Tree → List BlockId → Prop}
  {M : BlockId → List Tree → List BlockId → Prop}

/-- With a depth so great, the walks for reporters and stacks go along the trail and gather what
there is to find. -/
structure Reaches (a : Arena) (t : Target) (R : BlockId → Tree → List BlockId → Prop)
    (M : BlockId → List Tree → List BlockId → Prop) (depth : Nat) (reporter : Walk Tree)
    (stack : Walk (List Tree)) : Prop where
  reporter : ∀ {id seen}, a.Distinct seen → a.size < depth + seen.length →
    Walked a t [.reporter id] seen (R id) (reporter id seen)
  stack : ∀ {id seen}, a.Distinct seen → a.size < depth + seen.length →
    Walked a t [.member id] seen (M id) (stack id seen)

theorem nodup_of_distinct {id : BlockId} {ids seen : List BlockId}
    (h : a.Distinct (ids.reverse ++ id :: seen)) : (id :: ids).Nodup := by
  have hnodup := (List.nodup_append.mp (List.append_cons _ _ _ ▸ h.nodup)).1
  rw [← List.reverse_cons, List.nodup_reverse] at hnodup
  exact hnodup

section

variable {depth : Nat} {reporter : Walk Tree} {stack : Walk (List Tree)}

/-- The slots of a row are filled one after the other. -/
theorem Reaches.readings (h : a.Reaches t R M depth reporter stack) :
    ∀ (rs : List Reading) {seen : List BlockId}, a.Distinct seen → a.size < depth + seen.length →
      Walked a t (rs.filterMap Reading.visit?) seen (Filled R M rs)
        (walkReadings reporter stack rs seen)
  | [], seen, hseen, _ => .pure hseen .nil
  | .value name (.literal v) :: rs, seen, hseen, hdepth => by
    rw [walkReadings]
    exact (h.readings rs hseen hdepth).map fun slots ids _ hslots => .literal hslots
  | .value name (.block id) :: rs, seen, hseen, hdepth => by
    have hvisits : (Reading.value name (.block id) :: rs).filterMap Reading.visit?
        = [.reporter id] ++ rs.filterMap Reading.visit? := rfl
    rw [walkReadings, hvisits]
    refine (h.reporter hseen hdepth).bind fun tree ids hids htree => ?_
    refine (h.readings rs hids ?_).map fun slots ids' _ hslots => .reporter htree hslots
    rw [List.length_append]
    omega
  | .stack name id :: rs, seen, hseen, hdepth => by
    have hvisits : (Reading.stack name id :: rs).filterMap Reading.visit?
        = [.member id] ++ rs.filterMap Reading.visit? := rfl
    have hstack :
        Walked a t [.member id] seen (fun tree ids => ∃ trees, tree = .stack trees ∧ M id trees ids)
        (walkReading reporter stack (.stack name id) seen) :=
      (h.stack hseen hdepth).map fun trees ids _ htrees => ⟨trees, rfl, htrees⟩
    rw [walkReadings, hvisits]
    refine hstack.bind fun tree ids hids htree => ?_
    obtain ⟨trees, rfl, htrees⟩ := htree
    refine (h.readings rs hids ?_).map fun slots ids' _ hslots => .stack htrees hslots
    rw [List.length_append]
    omega

end

/-- **The walk goes along the trail, and its depth is never used up.** With each block that is met
there is one less to meet. -/
theorem Gathers.reaches (h : a.Gathers t R M) :
    ∀ depth, a.Reaches t R M depth (a.walkReporter t depth) (a.walkStack t depth)
  | 0 => by
    -- More blocks than there are cannot have been met.
    have hnone : ∀ {seen : List BlockId}, a.Distinct seen → ¬ a.size < 0 + seen.length := by
      intro seen hseen hlt
      have hle := hseen.length_le
      omega
    exact ⟨fun hseen hlt => absurd hlt (hnone hseen), fun hseen hlt => absurd hlt (hnone hseen)⟩
  | depth + 1 => by
    have ih := h.reaches depth
    constructor
    · intro id seen hseen hdepth
      rw [walkReporter]
      refine Walked.meet hseen fun b hb hmet => ?_
      have hlinks : a.links t (.reporter id) = b.reporterReadings.filterMap Reading.visit? := by
        have hb : a.get? id = some b := hb
        rw [links, hb]
      rw [hlinks]
      refine (ih.readings b.reporterReadings hmet (by rw [List.length_cons]; omega)).map
        fun slots ids hids hslots => ?_
      exact h.reporter hb hslots (nodup_of_distinct hids)
    · intro id seen hseen hdepth
      rw [walkStack]
      refine Walked.meet hseen fun b hb hmet => ?_
      have hlinks : a.links t (.member id)
          = (b.statementReadings t).filterMap Reading.visit? ++ b.next.toList.map Visit.member := by
        have hb : a.get? id = some b := hb
        rw [links, hb]
      rw [hlinks]
      refine (ih.readings (b.statementReadings t) hmet (by rw [List.length_cons]; omega)).bind
        fun slots ids hids hslots => ?_
      cases b.next with
      | none =>
        refine .pure hids ?_
        rw [List.append_nil]
        exact h.last hb hslots (nodup_of_distinct hids)
      | some below =>
        have hlength : a.size < depth + (ids.reverse ++ Visit.id (.member id) :: seen).length := by
          rw [List.length_append, List.length_cons]
          omega
        refine (ih.stack hids hlength).map fun rest ids' hids' hrest => ?_
        rw [← List.append_assoc, ← List.reverse_append] at hids'
        exact h.above hb hslots hrest (nodup_of_distinct hids')

/-- **What becomes of the trees of a stack.** The trail ends and all blocks on it are distinct, and
what each block carries holds of the trees; or the trail comes to a bad block, and the error names
the first one. -/
theorem stackTrees_cases (h : a.Gathers t R M) (first : Option BlockId) :
    (∃ trees ids, a.stackTrees t first = .ok trees ∧ a.Distinct ids
        ∧ (∀ n, a.stackTrail t (ids.length + n) first = ids)
        ∧ (trees = [] ∨ ∃ id, M id trees ids))
      ∨ ∃ e before id, a.stackTrees t first = .error e ∧ a.Distinct before ∧ a.Offends before id e
        ∧ a.stackTrail t (before.length + 1) first = before ++ [id] := by
  have hnil : a.Distinct [] := ⟨List.nodup_nil, fun _ hid => by cases hid⟩
  have hend : ∀ n, a.trail t n [] = [] := by
    intro n
    cases n <;> rfl
  cases first with
  | none =>
    refine Or.inl ⟨[], [], rfl, hnil, fun n => hend _, Or.inl rfl⟩
  | some first =>
    have hwalked : Walked a t [.member first] [] (M first) (a.walkStack t (a.size + 1) first []) :=
      (h.reaches (a.size + 1)).stack hnil (by simp)
    rw [stackTrees]
    generalize a.walkStack t (a.size + 1) first [] = result at hwalked
    cases hwalked with
    | @ok trees ids hdistinct htrees halong =>
      rw [List.append_nil] at hdistinct
      refine Or.inl ⟨trees, ids, rfl, List.reverse_reverse ids ▸ hdistinct.reverse, fun n => ?_,
        Or.inr ⟨first, htrees⟩⟩
      have hall : a.stackTrail t (ids.length + n) (some first) = ids ++ a.trail t n [] :=
        halong n []
      rw [hall, hend, List.append_nil]
    | @error e ids id hdistinct hoffends halong =>
      rw [List.append_nil] at hdistinct hoffends
      refine Or.inr ⟨e, ids, id, rfl, List.reverse_reverse ids ▸ hdistinct.reverse, ?_, halong []⟩
      cases hoffends with
      | missing habsent => exact .missing habsent
      | repeated hfound hagain => exact .repeated hfound (List.mem_reverse.mp hagain)

end Arena

end BlockScript
