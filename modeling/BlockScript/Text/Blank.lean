import BlockScript.Text.Ranges

/-!
# Blanks

The characters that are ignored around a number: those with the Unicode property `White_Space`, and
the byte order mark.
-/

namespace BlockScript.Text

/-- The characters with the property `White_Space`, and the byte order mark U+FEFF. -/
def blankRanges : Ranges :=
  [(0x9, 0xd), (0x20, 0x20), (0x85, 0x85), (0xa0, 0xa0), (0x1680, 0x1680), (0x2000, 0x200a),
   (0x2028, 0x2029), (0x202f, 0x202f), (0x205f, 0x205f), (0x3000, 0x3000), (0xfeff, 0xfeff)]

/-- The character is ignored around a number. -/
def isBlank (c : Char) : Bool := blankRanges.contains c.toNat

/-- The text without blanks at its two ends. -/
def trim (cs : List Char) : List Char :=
  ((cs.dropWhile isBlank).reverse.dropWhile isBlank).reverse

end BlockScript.Text
