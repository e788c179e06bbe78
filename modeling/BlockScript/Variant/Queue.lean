import BlockScript.Script

/-!
# The queue of variants

While a program is put together, calls ask for variants of procedures. Each variant is handed out
once, in the order in which variants were first asked for, however often and however late it is
asked for again.
-/

namespace BlockScript

/-- A variant to be made, and the procedure it is a variant of. -/
structure VariantRequest where
  key : VariantKey
  procedure : Procedure

/-- The variants asked for so far, and those of them that are still to be handed out. -/
structure VariantQueue where
  known : List VariantKey := []
  waiting : List VariantRequest := []

namespace VariantQueue

/-- The variant has been asked for. -/
def contains (q : VariantQueue) (k : VariantKey) : Bool := k ∈ q.known

/-- Asks for a variant. -/
def request (q : VariantQueue) (r : VariantRequest) : VariantQueue :=
  if q.contains r.key then q else ⟨q.known ++ [r.key], q.waiting ++ [r]⟩

/-- Asks for a variant, and tells whether it had not been asked for before. -/
def ask (q : VariantQueue) (r : VariantRequest) : Bool × VariantQueue :=
  (!q.contains r.key, q.request r)

/-- Hands out the variant that has waited longest. -/
def next? (q : VariantQueue) : Option (VariantRequest × VariantQueue) :=
  match q.waiting with
  | [] => none
  | r :: rest => some (r, { q with waiting := rest })

/-- The number of variants asked for. -/
def size (q : VariantQueue) : Nat := q.known.length

end VariantQueue

end BlockScript
