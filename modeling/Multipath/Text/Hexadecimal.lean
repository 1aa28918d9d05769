import Multipath.Text.Reader

/-!
# Hexadecimal numbers

Numbers of a fixed count of hexadecimal digits, as escapes in strings have them.
-/

namespace Multipath.Text

/-- The value of a hexadecimal digit, in upper or lower case. -/
def hexValue? (c : Char) : Option Nat :=
  if c.isDigit then some (c.toNat - '0'.toNat)
  else if 'a' ≤ c ∧ c ≤ 'f' then some (c.toNat - 'a'.toNat + 10)
  else if 'A' ≤ c ∧ c ≤ 'F' then some (c.toNat - 'A'.toNat + 10)
  else none

/-- `n` further digits of a number that begins with `value`. -/
def hexNumber : Nat → Nat → Reader Nat
  | 0, value => return value
  | n + 1, value => do
    let digit ← Reader.need (hexValue? (← Reader.next))
    hexNumber n (16 * value + digit)

end Multipath.Text
