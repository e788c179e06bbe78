import BlockScript.Shape
import BlockScript.Value.Order

/-!
# Variants of procedures

A procedure is compiled once for each way in which it is called: the shapes of its arguments, and
whether it runs in warp, that is without giving way inside loops. A `VariantKey` names one of these
variants. Keys are ordered by procedure, then by shapes, then by warp.
-/

namespace BlockScript

/-- The name of one variant of a procedure. -/
structure VariantKey where
  proccode : String
  signature : List Shape
  warp : Bool
deriving DecidableEq

namespace VariantKey

/-- The key of a call with arguments of the given shapes. -/
def ofCall (proccode : String) (shapes : List Shape) (warp : Bool) : VariantKey :=
  ⟨proccode, shapes.map Shape.widen, warp⟩

/-- The signature as messages show it. -/
def signatureText (k : VariantKey) : String := ", ".intercalate (k.signature.map Shape.label)

/-- The key as messages show it. -/
def text (k : VariantKey) : String :=
  (if k.warp then "warp " else "") ++ "\"" ++ k.proccode ++ "\" (" ++ k.signatureText ++ ")"

/-- How two signatures compare: by the shapes at the first place where they differ, an end coming
before everything. -/
def compareSignatures : List Shape → List Shape → Ordering
  | [], [] => .eq
  | [], _ :: _ => .lt
  | _ :: _, [] => .gt
  | s :: ss, t :: ts => (Ord.compare s.rank t.rank).then (compareSignatures ss ts)

/-- How two keys compare. -/
def compare (a b : VariantKey) : Ordering :=
  (Text.compare a.proccode.toList b.proccode.toList).then <|
    (compareSignatures a.signature b.signature).then <|
      Ord.compare a.warp.toNat b.warp.toNat

end VariantKey

end BlockScript
