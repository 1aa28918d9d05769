import Multipath.Text.Blank
import Multipath.Text.Reader
import Multipath.Time

/-!
# Durations as text

A duration is written as amounts of units, largest unit first and none that is zero:
`1h 30m`, `25ms`, `2days 1ns`. It is read from any amounts in any order, which are added up; an
amount may have a decimal fraction, and blanks may stand anywhere but within a unit's name. A lone
`0` needs no unit.

* `Duration.render`: the text of a duration.
* `Duration.parse?`: the duration that a text stands for.
-/

namespace Multipath

/-- A unit of time. -/
structure TimeUnit where
  /-- The names under which it is read. -/
  names : List String
  /-- Its length in nanoseconds. -/
  nanos : Nat
  /-- The length in nanoseconds of the grains that a fraction of it has to be made up of. -/
  grain : Nat
deriving DecidableEq, Repr, Inhabited

/-- An amount of a unit: `whole + numerator / 10 ^ places`, where no places mean that no fraction
was written. -/
structure TimeAmount where
  whole : Nat
  numerator : Nat
  places : Nat
deriving DecidableEq, Repr, Inhabited

namespace TimeUnit

/-- A second. -/
def secondNanos : Nat := 1000000000

/-- The units, largest first. A year has 365.25 days and a month 30.44. Fractions of units up to a
minute are made up of nanoseconds, those of longer units of whole seconds. -/
def all : List TimeUnit :=
  [ ⟨["years", "year", "yr", "yrs", "y"], 31557600 * secondNanos, secondNanos⟩,
    ⟨["months", "month", "M"], 2630016 * secondNanos, secondNanos⟩,
    ⟨["weeks", "week", "wk", "wks", "w"], 604800 * secondNanos, secondNanos⟩,
    ⟨["days", "day", "d"], 86400 * secondNanos, secondNanos⟩,
    ⟨["hours", "hour", "hrs", "hr", "h"], 3600 * secondNanos, secondNanos⟩,
    ⟨["minutes", "minute", "mins", "min", "m"], 60 * secondNanos, 1⟩,
    ⟨["seconds", "second", "secs", "sec", "s"], secondNanos, 1⟩,
    ⟨["millis", "msec", "ms"], 1000000, 1⟩,
    ⟨["usec", "us", "µs"], 1000, 1⟩,
    ⟨["nanos", "nsec", "ns"], 1, 1⟩ ]

/-- The unit with this name. -/
def ofName? (name : String) : Option TimeUnit := all.find? (·.names.contains name)

/-- The greatest number of nanoseconds, and of seconds, that an amount may come to, plus one. -/
def bound : Nat := 18446744073709551616

/-- Nanoseconds added to `total`: those of units from a second on are counted in seconds, and those
of shorter ones together with what `total` has below a full second. -/
def addNanos? (unit : TimeUnit) (nanos total : Nat) : Option Nat :=
  let sum := total + nanos
  if unit.nanos < secondNanos ∧ bound ≤ total % secondNanos + nanos then none
  else if sum / secondNanos < bound then some sum
  else none

/-- The nanoseconds in a fraction of a unit. It has to be made up of whole grains of the unit, and
a nanosecond has no fractions. -/
def fraction? (unit : TimeUnit) (amount : TimeAmount) : Option Nat :=
  let grains := amount.numerator * (unit.nanos / unit.grain)
  let parts := Nat.pow 10 amount.places
  if amount.places = 0 then some 0
  else if unit.nanos = 1 then none
  else if grains < bound ∧ parts < bound ∧ grains % parts = 0 then
    some (grains / parts * unit.grain)
  else none

/-- An amount of a unit added to `total` nanoseconds. -/
def add? (unit : TimeUnit) (amount : TimeAmount) (total : Nat) : Option Nat := do
  let total ← unit.addNanos? (amount.whole * unit.nanos) total
  unit.addNanos? (← unit.fraction? amount) total

end TimeUnit

namespace Duration

/-! ### Writing -/

/-- The units in which a duration is written, with the name for one of it and for several. -/
def writtenUnits : List (Nat × String × String) :=
  [ (31557600 * TimeUnit.secondNanos, "year", "years"),
    (2630016 * TimeUnit.secondNanos, "month", "months"),
    (86400 * TimeUnit.secondNanos, "day", "days"),
    (3600 * TimeUnit.secondNanos, "h", "h"),
    (60 * TimeUnit.secondNanos, "m", "m"),
    (TimeUnit.secondNanos, "s", "s"),
    (1000000, "ms", "ms"),
    (1000, "us", "us"),
    (1, "ns", "ns") ]

/-- The parts of a number of nanoseconds, each as large as it can be; parts of zero are left
out. -/
def parts : List (Nat × String × String) → Nat → List String
  | [], _ => []
  | (size, one, several) :: units, nanos =>
    let amount := nanos / size
    let rest := parts units (nanos % size)
    if amount = 0 then rest
    else (toString amount ++ if amount = 1 then one else several) :: rest

/-- A duration as text. -/
def render (d : Duration) : String :=
  if d.isZero then "0s" else " ".intercalate (parts writtenUnits d.nanos)

/-! ### Reading -/

/-- The number that digits stand for. -/
def ofDigits (digits : List Char) : Nat :=
  digits.foldl (fun n c => 10 * n + (c.toNat - '0'.toNat)) 0

/-- The digits that come next, with blanks between them skipped. -/
def digits : Reader (List Char) := do
  let run ← Reader.span fun c => c.isDigit || Text.isBlank c
  return run.filter (·.isDigit)

/-- The digits behind the point, if there is one. -/
def fractionDigits : Reader (List Char) := do
  if ← Reader.accepts (Reader.text ".") then
    let places ← digits
    if places.isEmpty then failure
    return places
  else return []

/-- A letter in the name of a unit. -/
def isUnitLetter (c : Char) : Bool := c.isAlpha || c == 'µ'

/-- An amount and its unit; `none` at the end of the text. -/
def amountOfUnit : Reader (Option (TimeAmount × TimeUnit)) := do
  let whole ← digits
  if whole.isEmpty then
    Reader.finish
    return none
  else
    let places ← fractionDigits
    let amount : TimeAmount := ⟨ofDigits whole, ofDigits places, places.length⟩
    if TimeUnit.bound ≤ amount.whole then failure
    let name ← Reader.span isUnitLetter
    let unit ← Reader.need (TimeUnit.ofName? (String.ofList name))
    return some (amount, unit)

/-- Adds up amounts. -/
def total? (amounts : List (TimeAmount × TimeUnit)) : Option Duration :=
  (amounts.foldlM (fun total (amount, unit) => TimeUnit.add? unit amount total) 0).map (⟨·⟩)

/-- The duration that a text stands for. -/
def parse? (text : String) : Option Duration :=
  if text = "0" then some ⟨0⟩
  else
    match (Reader.many amountOfUnit).parse text with
    | none | some [] => none
    | some amounts => total? amounts

end Duration

end Multipath
