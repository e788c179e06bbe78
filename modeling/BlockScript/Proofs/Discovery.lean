import BlockScript.Variant.Queue
import Mathlib.Data.List.Dedup

/-!
# The order in which variants are handed out

A queue of variants is used in any order: variants are asked for, also again and also after they
were handed out, and the next one is taken, also when none waits. What has been asked for is all
that counts. Each variant has its place where it was asked for first (`firsts`), with the procedure
that it was asked for with then, and the queue hands out the variants from there, one after the
other.

`Discovered` is what one use of the queue preserves (`Discovered.use`): the variants handed out and
those that wait are, in this order, the ones asked for.

Main statement: `discovers_run`, for every row of uses of a queue that is empty at first.
-/

namespace BlockScript

namespace VariantRequest

/-- The requests for variants that were not asked for before, in their order. -/
def firsts : List VariantRequest → List VariantRequest
  | [] => []
  | r :: rs => r :: (firsts rs).filter fun s => s.key ≠ r.key

theorem mem_keys_firsts {k : VariantKey} : ∀ rs : List VariantRequest,
    k ∈ (firsts rs).map key ↔ k ∈ rs.map key
  | [] => Iff.rfl
  | r :: rs => by
    have ih := mem_keys_firsts (k := k) rs
    simp only [List.mem_map] at ih
    by_cases hk : k = r.key
    · simp [firsts, hk]
    · simp only [firsts, List.map_cons, List.mem_cons, hk, false_or, List.mem_map, List.mem_filter,
        decide_eq_true_eq]
      rw [← ih]
      constructor
      · rintro ⟨s, ⟨hs, -⟩, rfl⟩
        exact ⟨s, hs, rfl⟩
      · rintro ⟨s, hs, rfl⟩
        exact ⟨s, ⟨hs, hk⟩, rfl⟩

theorem nodup_keys_firsts : ∀ rs : List VariantRequest, ((firsts rs).map key).Nodup
  | [] => List.nodup_nil
  | r :: rs => by
    refine List.nodup_cons.mpr ⟨?_, ?_⟩
    · simp
    · exact (nodup_keys_firsts rs).sublist (List.filter_sublist.map key)

/-- One more request counts if it is for another variant than those before. -/
theorem firsts_concat (r : VariantRequest) : ∀ rs : List VariantRequest,
    firsts (rs ++ [r]) = if r.key ∈ rs.map key then firsts rs else firsts rs ++ [r]
  | [] => rfl
  | s :: rs => by
    rw [List.cons_append, firsts, firsts_concat r rs, firsts, List.map_cons]
    by_cases hmem : r.key ∈ rs.map key
    · rw [if_pos hmem, if_pos (List.mem_cons_of_mem _ hmem)]
    · rw [if_neg hmem, List.filter_append]
      by_cases hkey : r.key = s.key
      · simp [hkey]
      · rw [if_neg (List.not_mem_cons_of_ne_of_not_mem hkey hmem)]
        simp [hkey]

end VariantRequest

namespace VariantQueue

open VariantRequest (firsts)

/-! ## Uses of the queue -/

/-- A use of the queue. -/
inductive Use where
  /-- A variant is asked for. -/
  | ask (r : VariantRequest)
  /-- The next variant is taken. -/
  | next

/-- What the queue answers. -/
inductive Answer where
  /-- Whether the variant is a new one. -/
  | asked (new : Bool)
  /-- The variant that is handed out, if one waits. -/
  | handed (r? : Option VariantRequest)

/-- One use of the queue. -/
def use (q : VariantQueue) : Use → Answer × VariantQueue
  | .ask r => (.asked (q.ask r).1, (q.ask r).2)
  | .next => (.handed (q.next?.map Prod.fst), (q.next?.map Prod.snd).getD q)

/-- Uses of the queue one after the other, with all answers. -/
def run (q : VariantQueue) : List Use → List Answer × VariantQueue
  | [] => ([], q)
  | u :: us => ((q.use u).1 :: ((q.use u).2.run us).1, ((q.use u).2.run us).2)

/-- What is asked for. -/
def requests (us : List Use) : List VariantRequest :=
  us.filterMap fun u =>
    match u with
    | .ask r => some r
    | .next => none

/-- What is handed out. -/
def handedOut (as : List Answer) : List VariantRequest :=
  as.filterMap fun a =>
    match a with
    | .handed r? => r?
    | .asked _ => none

theorem requests_append (us us' : List Use) : requests (us ++ us') = requests us ++ requests us' :=
  List.filterMap_append

theorem handedOut_append (as as' : List Answer) :
    handedOut (as ++ as') = handedOut as ++ handedOut as' :=
  List.filterMap_append

theorem handedOut_handed (r? : Option VariantRequest) : handedOut [.handed r?] = r?.toList := by
  cases r? with
  | none => rfl
  | some r => rfl

theorem run_append (q : VariantQueue) (us us' : List Use) :
    q.run (us ++ us') = ((q.run us).1 ++ ((q.run us).2.run us').1, ((q.run us).2.run us').2) := by
  induction us generalizing q with
  | nil => rfl
  | cons u us ih => simp only [List.cons_append, run, ih]

theorem length_run (q : VariantQueue) (us : List Use) : (q.run us).1.length = us.length := by
  induction us generalizing q with
  | nil => rfl
  | cons u us ih => simp only [run, List.length_cons, ih]

/-! ## What every use preserves -/

/-- What has been asked for and what has been handed out, as the queue knows it. -/
structure Discovered (asked handed : List VariantRequest) (q : VariantQueue) : Prop where
  known : q.known = (firsts asked).map VariantRequest.key
  waiting : handed ++ q.waiting = firsts asked

namespace Discovered

variable {asked handed : List VariantRequest} {q : VariantQueue}

theorem start : Discovered [] [] {} := ⟨rfl, rfl⟩

theorem contains_iff (h : Discovered asked handed q) (k : VariantKey) :
    q.contains k = true ↔ k ∈ asked.map VariantRequest.key := by
  rw [contains, decide_eq_true_eq, h.known, VariantRequest.mem_keys_firsts]

theorem size_eq (h : Discovered asked handed q) :
    q.size = (asked.map VariantRequest.key).dedup.length := by
  have hperm : ((firsts asked).map VariantRequest.key).Perm (asked.map VariantRequest.key).dedup :=
    (List.perm_ext_iff_of_nodup (VariantRequest.nodup_keys_firsts asked) (List.nodup_dedup _)).mpr
      fun k => by rw [VariantRequest.mem_keys_firsts, List.mem_dedup]
  rw [size, h.known, hperm.length_eq]

/-- The next variant is the first one that has not been handed out. -/
theorem next?_eq (h : Discovered asked handed q) :
    q.next?.map Prod.fst = (firsts asked)[handed.length]? := by
  rw [← h.waiting, List.getElem?_append_right (Nat.le_refl _), Nat.sub_self,
    ← List.head?_eq_getElem?, next?.eq_def]
  split
  next hnil => rw [hnil]; rfl
  next r rest hcons => rw [hcons]; rfl

theorem ask_eq (h : Discovered asked handed q) (r : VariantRequest) :
    (q.ask r).1 = decide (r.key ∉ asked.map VariantRequest.key) := by
  rw [ask, Bool.eq_iff_iff, Bool.not_eq_true', Bool.eq_false_iff, decide_eq_true_eq, ne_eq,
    h.contains_iff]

theorem ask (h : Discovered asked handed q) (r : VariantRequest) :
    Discovered (asked ++ [r]) handed (q.ask r).2 := by
  show Discovered (asked ++ [r]) handed (q.request r)
  unfold request
  split
  next hold =>
    have hmem := (h.contains_iff r.key).mp hold
    constructor
    · rw [VariantRequest.firsts_concat, if_pos hmem, h.known]
    · rw [VariantRequest.firsts_concat, if_pos hmem, h.waiting]
  next hnew =>
    have hmem := fun hmem => hnew ((h.contains_iff r.key).mpr hmem)
    constructor
    · rw [VariantRequest.firsts_concat, if_neg hmem, h.known, List.map_append]
      rfl
    · rw [VariantRequest.firsts_concat, if_neg hmem, ← h.waiting, List.append_assoc]

theorem next (h : Discovered asked handed q) :
    Discovered asked (handed ++ (q.next?.map Prod.fst).toList) ((q.next?.map Prod.snd).getD q) := by
  rw [next?.eq_def]
  split
  next => exact ⟨h.known, by rw [← h.waiting]; simp⟩
  next r rest hcons => exact ⟨h.known, by rw [← h.waiting, hcons]; simp⟩

/-- **One use of the queue.** -/
theorem use (h : Discovered asked handed q) (u : Use) :
    Discovered (asked ++ requests [u]) (handed ++ handedOut [(q.use u).1]) (q.use u).2 := by
  cases u with
  | ask r =>
    show Discovered (asked ++ [r]) (handed ++ []) (q.ask r).2
    rw [List.append_nil]
    exact h.ask r
  | next =>
    show Discovered (asked ++ []) (handed ++ handedOut [.handed (q.next?.map Prod.fst)]) _
    rw [List.append_nil, handedOut_handed]
    exact h.next

/-- **Any uses of the queue.** -/
theorem run (h : Discovered asked handed q) (us : List Use) :
    Discovered (asked ++ requests us) (handed ++ handedOut (q.run us).1) (q.run us).2 := by
  induction us generalizing asked handed q with
  | nil =>
    show Discovered (asked ++ []) (handed ++ []) q
    rw [List.append_nil, List.append_nil]
    exact h
  | cons u us ih =>
    have hrest := ih (h.use u)
    rw [List.append_assoc, List.append_assoc, ← requests_append, ← handedOut_append] at hrest
    exact hrest

end Discovered

/-! ## The order of variants -/

/-- What the answers and the last state of a queue tell of its uses. -/
structure Discovers (us : List Use) (as : List Answer) (q : VariantQueue) : Prop where
  /-- What was handed out, and then what still waits, is what was asked for, each variant once. -/
  order : handedOut as ++ q.waiting = firsts (requests us)
  /-- A request is new if no request before it is for the same variant. -/
  asks : ∀ before r after, us = before ++ .ask r :: after →
    as[before.length]? = some (.asked (decide (r.key ∉ (requests before).map VariantRequest.key)))
  /-- What is taken is the first of the variants asked for that was not taken before, and nothing is
  taken only when there is none. -/
  nexts : ∀ before after, us = before ++ .next :: after →
    as[before.length]?
      = some (.handed (firsts (requests before))[(handedOut (as.take before.length)).length]?)
  /-- The variants that the queue contains are those that were asked for. -/
  contains : ∀ k, q.contains k = true ↔ k ∈ (requests us).map VariantRequest.key
  /-- Each of them counts once. -/
  size : q.size = ((requests us).map VariantRequest.key).dedup.length

/--
**Every variant is handed out once, in the order in which variants are first asked for.**

For all uses of a queue that is empty at first, in any order: the variants handed out, followed by
those that still wait, are the distinct variants asked for in the order of their first requests,
each with the procedure of that request. A request tells that a variant is new at these first
requests and at no other, also if the variant was handed out before. The queue contains what was
asked for, and its size is the number of these variants.
-/
theorem discovers_run (us : List Use) : Discovers us (run {} us).1 (run {} us).2 := by
  have hrun : ∀ us, Discovered (requests us) (handedOut (run {} us).1) (run {} us).2 :=
    fun us => by simpa using Discovered.start.run us
  refine ⟨(hrun us).waiting, ?_, ?_, (hrun us).contains_iff, (hrun us).size_eq⟩
  · rintro before r after rfl
    rw [run_append, ← length_run {} before, List.getElem?_append_right (Nat.le_refl _),
      Nat.sub_self, ← (hrun before).ask_eq r]
    rfl
  · rintro before after rfl
    rw [run_append, ← length_run {} before, List.getElem?_append_right (Nat.le_refl _),
      Nat.sub_self, List.take_left, ← (hrun before).next?_eq]
    rfl

end VariantQueue

end BlockScript
