import BlockScript.Text.Casing

/-!
# Lower case

The lower-case form of a text, by the full mapping of the Unicode standard. Each character is mapped
by itself, except for the capital sigma: at the end of a word, that is after a cased letter and not
before one, it becomes the final form. Marks and the like between it and its neighbours are passed
over.
-/

namespace BlockScript.Text

/-- The distance to the lower-case form of a code point, if the ascending runs hold it. -/
def lowerDistance (code : Nat) : List CaseRun → Int
  | [] => 0
  | run :: rest =>
    if code < run.first then 0
    else if code ≤ run.last && (code - run.first) % run.step == 0 then run.distance
    else lowerDistance code rest

/-- The lower-case form of a character that does not depend on its neighbours. -/
def lowerChar (c : Char) : List Char :=
  if c.toNat == 0x130 then ['i', Char.ofNat 0x307]
  else [Char.ofNat (c.toNat + lowerDistance c.toNat lowerRuns).toNat]

/-- The nearest character that is not passed over is a cased letter. -/
def startsCased (cs : List Char) : Bool :=
  match cs.dropWhile fun c => passedOverRanges.contains c.toNat with
  | [] => false
  | c :: _ => casedRanges.contains c.toNat

/-- The lower-case form of a capital sigma between two texts, of which the first is reversed. -/
def lowerSigma (before after : List Char) : Char :=
  if startsCased before && !startsCased after then 'ς' else 'σ'

/-- The lower-case form of a text that follows the reverse of `before`. -/
def lowerAfter (before : List Char) : List Char → List Char
  | [] => []
  | c :: cs =>
    (if c == 'Σ' then [lowerSigma before cs] else lowerChar c) ++ lowerAfter (c :: before) cs

/-- The lower-case form of a text. -/
def lower (cs : List Char) : List Char := lowerAfter [] cs

end BlockScript.Text
