import Multipath.Decimal.Binary

/-!
# Shortest decimals

Every real number in a small interval around a double rounds to that double. The shortest
decimal of a double is the one with the fewest digits in this interval, and of those the nearest
to the double; of two that are equally near it is the greater one.

* `shortest m q`: the shortest decimal of the double `m * 2 ^ q`.
* `display`, `displayPoint`: a double as text without exponent, in full and with as few digits
  as tell it from its neighbours.
* `toFloat`: the double nearest to a decimal.
-/

namespace Multipath

/-- The decimal `significand * 10 ^ exponent`. -/
structure Decimal where
  significand : Nat
  exponent : Int
deriving DecidableEq, Repr, Inhabited

namespace Decimal

/-! ### The interval of a double -/

/-- The numbers that round to a double, as multiples of `1 / unit`. The ends belong to the
interval if `closed`. -/
structure Interval where
  lower : Nat
  value : Nat
  upper : Nat
  unit : Nat
  closed : Bool

/-- The interval of `m * 2 ^ q`. The neighbour below a power of two is only half as far away as
the one above. -/
def interval (m : Nat) (q : Int) : Interval :=
  let below := if m = Binary.hiddenBit ∧ Binary.minExponent < q then 1 else 2
  let (factor, unit) := match q - 2 with
    | .ofNat n => (1 <<< n, 1)
    | .negSucc n => (1, 1 <<< (n + 1))
  { lower := (4 * m - below) * factor
    value := 4 * m * factor
    upper := (4 * m + 2) * factor
    unit
    closed := m % 2 = 0 }

namespace Interval

/-- The interval with its multiples of `10 ^ exponent` as new unit. -/
def rescale (i : Interval) (exponent : Int) : Interval :=
  match exponent with
  | .ofNat n => { i with unit := i.unit * Nat.pow 10 n }
  | .negSucc n =>
    let factor := Nat.pow 10 (n + 1)
    { i with lower := i.lower * factor, value := i.value * factor, upper := i.upper * factor }

/-- Whether the `d`-th multiple of the unit lies in the interval. -/
def holds (i : Interval) (d : Nat) : Bool :=
  if i.closed then i.lower ≤ d * i.unit && d * i.unit ≤ i.upper
  else i.lower < d * i.unit && d * i.unit < i.upper

/-- The multiple of the unit in the interval that is nearest to the value; a value halfway between
two of them goes up. If any multiple lies in the interval, so does one of the two next to the
value. -/
def nearest? (i : Interval) : Option Nat :=
  let d := i.value / i.unit
  match i.holds d, i.holds (d + 1) with
  | true, true => if (2 * d + 1) * i.unit ≤ 2 * i.value then some (d + 1) else some d
  | true, false => some d
  | false, true => some (d + 1)
  | false, false => none

/-- A number of digits that the value does not exceed in front of the point; negative for small
values. -/
def magnitude (i : Interval) : Int :=
  if i.unit ≤ i.value then (Nat.toDigits 10 (i.value / i.unit)).length
  else 2 - ((Nat.toDigits 10 (i.unit / i.value)).length : Int)

/-- The first hit on the grids `10 ^ exponent`, `10 ^ (exponent - 1)`, …, trying `n` grids. -/
def search (i : Interval) (exponent : Int) : Nat → Decimal
  | 0 => ⟨(i.rescale exponent).value / (i.rescale exponent).unit, exponent⟩
  | n + 1 =>
    match (i.rescale exponent).nearest? with
    | some d => ⟨d, exponent⟩
    | none => i.search (exponent - 1) n

end Interval

/-- The shortest decimal of the double `m * 2 ^ q`, for a positive `m`. Seventeen digits always
suffice. -/
def shortest (m : Nat) (q : Int) : Decimal :=
  let i := interval m q
  i.search (i.magnitude - 1) 18

/-! ### Text -/

/-- The digits of the whole part and of the fraction, neither with zeros that do not count. -/
def positional (d : Decimal) : List Char × List Char :=
  let digits := Nat.toDigits 10 d.significand
  match d.exponent with
  | .ofNat n => (digits ++ List.replicate n '0', [])
  | .negSucc n =>
    let places := n + 1
    let padded := List.replicate (places + 1 - digits.length) '0' ++ digits
    let fraction := (padded.drop (padded.length - places)).reverse.dropWhile (· == '0')
    (padded.take (padded.length - places), fraction.reverse)

/-- How doubles are written in one place of the library's output. -/
structure Style where
  notANumber : String
  /-- Whole numbers end in `.0`. -/
  keepsPoint : Bool

/-- A double as text in a given style, without exponent. -/
def write (style : Style) (x : Float) : String :=
  let signed (negative : Bool) (text : String) := if negative then "-" ++ text else text
  match Binary.decode x with
  | .notANumber => style.notANumber
  | .infinite negative => signed negative "inf"
  | .finite negative m q =>
    let (whole, fraction) := if m = 0 then (['0'], []) else (shortest m q).positional
    let fraction := if fraction.isEmpty && style.keepsPoint then ['0'] else fraction
    let point := if fraction.isEmpty then "" else "."
    signed negative (String.ofList whole ++ point ++ String.ofList fraction)

/-- The style of messages: whole numbers stand without a point. -/
def messageStyle : Style := ⟨"NaN", false⟩

/-- The style of configuration files: every number has a point. -/
def fileStyle : Style := ⟨"nan", true⟩

/-- A double in a message. -/
def display (x : Float) : String := write messageStyle x

/-- A double in a configuration file. -/
def displayPoint (x : Float) : String := write fileStyle x

/-! ### Reading -/

/-- The double nearest to a decimal. Beyond the first power of ten tested below lies infinity, and
under the second zero, whatever the digits. -/
def toFloat (d : Decimal) : Float :=
  let top := (Nat.toDigits 10 d.significand).length + d.exponent
  if d.significand = 0 ∨ top < -400 then 0.0
  else if 400 < top then 1.0 / 0.0
  else
    match d.exponent with
    | .ofNat n => Float.ofBits (Binary.nearestBits (d.significand * Nat.pow 10 n) 1)
    | .negSucc n => Float.ofBits (Binary.nearestBits d.significand (Nat.pow 10 (n + 1)))

end Decimal

end Multipath
