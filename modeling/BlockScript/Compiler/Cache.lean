import BlockScript.Image.Link

/-!
# The cache of compiled scripts

Each script keeps the first routine that was made for it, for good.
-/

namespace BlockScript

/-- What a compiled routine is kept under: a script that threads start with, by its number, or a
variant of a procedure. The two are kept apart: no thread starts with the script of a variant. So
the routine of an entry script is never taken for that of a variant, and the scripts that a
compilation takes hold of, the entry script first and the variants in order, are all different. -/
inductive ScriptRef where
  | script (number : Nat)
  | variant (key : VariantKey)
deriving DecidableEq

/-- The routines made so far. -/
structure Cache where
  entries : List (ScriptRef × Linked) := []

namespace Cache

/-- The routine of a script, if one was made. -/
def find? (c : Cache) (r : ScriptRef) : Option Linked := c.entries.lookup r

/-- Keeps a routine for a script, unless the script has one. -/
def store (c : Cache) (r : ScriptRef) (l : Linked) : Cache :=
  match c.find? r with
  | some _ => c
  | none => ⟨c.entries ++ [(r, l)]⟩

/-- Keeps routines for variants. -/
def storeVariants (c : Cache) (variants : List (VariantKey × Linked)) : Cache :=
  variants.foldl (fun c (key, l) => c.store (.variant key) l) c

end Cache

end BlockScript
