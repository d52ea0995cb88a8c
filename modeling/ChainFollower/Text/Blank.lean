/-!
# Blank characters

The twenty-five characters of the Unicode property White_Space, and texts trimmed of them on both
sides.
-/

namespace ChainFollower.Text

/-- First and last code point of each run of blank characters. -/
def blankRanges : List (Nat × Nat) :=
  [(0x09, 0x0d), (0x20, 0x20), (0x85, 0x85), (0xa0, 0xa0), (0x1680, 0x1680), (0x2000, 0x200a),
   (0x2028, 0x2029), (0x202f, 0x202f), (0x205f, 0x205f), (0x3000, 0x3000)]

/-- A blank character of any script. -/
def isBlank (c : Char) : Bool :=
  blankRanges.any fun r => r.1 ≤ c.toNat && c.toNat ≤ r.2

/-- The characters between the blank ones at both ends. -/
def trim (cs : List Char) : List Char :=
  ((cs.dropWhile isBlank).reverse.dropWhile isBlank).reverse

example : trim " \t12 3\u00a0".toList = "12 3".toList := by decide
example : (blankRanges.map fun r => r.2 + 1 - r.1).sum = 25 := by decide

end ChainFollower.Text
