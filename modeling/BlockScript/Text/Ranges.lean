/-!
# Ranges of characters

A property of characters given by a table: code points in ascending ranges.
-/

namespace BlockScript.Text

/-- Ranges of code points, both ends included, in ascending order. -/
abbrev Ranges := List (Nat × Nat)

/-- The code point lies in one of the ranges. The search stops at the first range above it. -/
def Ranges.contains (code : Nat) : Ranges → Bool
  | [] => false
  | (lo, hi) :: rest => if code < lo then false else code ≤ hi || Ranges.contains code rest

end BlockScript.Text
