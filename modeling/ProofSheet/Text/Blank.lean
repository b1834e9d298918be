/-
# Blank characters

The characters of Unicode's `White_Space` property, and trimming by it.  The table is finite and
closed: twenty-five code points in ten ranges, so no locale and no library class is consulted.
-/

namespace ProofSheet.Text

/-- The blank code points, as inclusive ranges in increasing order. -/
def blankRanges : List (Nat × Nat) :=
  [(0x0009, 0x000D), (0x0020, 0x0020), (0x0085, 0x0085), (0x00A0, 0x00A0), (0x1680, 0x1680),
   (0x2000, 0x200A), (0x2028, 0x2029), (0x202F, 0x202F), (0x205F, 0x205F), (0x3000, 0x3000)]

/-- A character is blank when its code point lies in one of the ranges. -/
def isBlank (c : Char) : Bool :=
  blankRanges.any fun r => r.1 ≤ c.toNat && c.toNat ≤ r.2

def trimLeft (cs : List Char) : List Char :=
  cs.dropWhile isBlank

def trimRight (cs : List Char) : List Char :=
  (cs.reverse.dropWhile isBlank).reverse

def trim (cs : List Char) : List Char :=
  trimRight (trimLeft cs)

/-- Twenty-five code points are blank. -/
example : (blankRanges.map fun r => r.2 + 1 - r.1).sum = 25 := by decide

end ProofSheet.Text
