import Multipath.Decimal.Binary

/-!
# Numbers of linear programs

The data of a linear program come as doubles and whole numbers, and its solution goes back into
doubles. In between it is stated in one kind of numbers.

* `Number Float`: the numbers stay doubles, as a numerical solver wants them.
* `Number Rat`: the numbers are read exactly, so that the program means what its data say.
-/

namespace Multipath.Linear

/-- A kind of numbers in which programs are stated. -/
class Number (α : Type) where
  zero : α
  one : α
  ofFloat : Float → α
  ofWord : UInt64 → α
  toFloat : α → Float

instance : Number Float where
  zero := 0.0
  one := 1.0
  ofFloat x := x
  ofWord n := n.toFloat
  toFloat x := x

/-- Finite doubles are read exactly, and others as zero; solutions are rounded to the nearest
double. -/
instance : Number Rat where
  zero := 0
  one := 1
  ofFloat x := (Binary.toRat? x).getD 0
  ofWord n := (n.toNat : Rat)
  toFloat := Binary.ofRat

end Multipath.Linear
