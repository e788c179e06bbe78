import BlockScript.Variant.Key

/-!
# Tables by variant

A finite map from variant keys, kept in the order of the keys.
-/

namespace BlockScript

/-- Entries in ascending order of their keys, no key twice. -/
structure VariantTable (α : Type) where
  entries : List (VariantKey × α) := []

namespace VariantTable

variable {α : Type}

/-- Puts an entry in its place, over an earlier one of the same key. -/
def insertEntry (k : VariantKey) (a : α) : List (VariantKey × α) → List (VariantKey × α)
  | [] => [(k, a)]
  | (l, b) :: rest =>
    match k.compare l with
    | .lt => (k, a) :: (l, b) :: rest
    | .eq => (k, a) :: rest
    | .gt => (l, b) :: insertEntry k a rest

/-- The table with one more entry. -/
def insert (t : VariantTable α) (k : VariantKey) (a : α) : VariantTable α :=
  ⟨insertEntry k a t.entries⟩

/-- The entry of a key. -/
def find? (t : VariantTable α) (k : VariantKey) : Option α := t.entries.lookup k

/-- The keys, in order. -/
def keys (t : VariantTable α) : List VariantKey := t.entries.map Prod.fst

/-- The contents, in the order of their keys. -/
def values (t : VariantTable α) : List α := t.entries.map Prod.snd

/-- The table of a list of entries; of two with the same key the later one counts. -/
def ofList (entries : List (VariantKey × α)) : VariantTable α :=
  entries.foldl (fun t (k, a) => t.insert k a) ⟨[]⟩

end VariantTable

end BlockScript
