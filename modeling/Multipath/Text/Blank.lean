/-!
# Blanks

The characters with the Unicode property White_Space.
-/

namespace Multipath.Text

/-- The ranges of code points with the property White_Space. -/
def blankRanges : List (Nat × Nat) :=
  [(0x9, 0xd), (0x20, 0x20), (0x85, 0x85), (0xa0, 0xa0), (0x1680, 0x1680), (0x2000, 0x200a),
    (0x2028, 0x2029), (0x202f, 0x202f), (0x205f, 0x205f), (0x3000, 0x3000)]

/-- Whether a character is a blank. -/
def isBlank (c : Char) : Bool := blankRanges.any fun r => r.1 ≤ c.toNat && c.toNat ≤ r.2

/-- Blanks are 25 characters. -/
example : (blankRanges.foldl (fun n r => n + (r.2 - r.1 + 1)) 0) = 25 := by decide

end Multipath.Text
