/-!
# Instants and durations

Points in time and lengths of time, both counted in nanoseconds. An instant may lie before the
origin of the clock; a duration is never negative, so the time since a later instant is zero.

There is no first and no last instant, so adding a duration always gives one. On a clock that has a
last instant the sum may lie beyond it; such an addition is fatal there, and what is said here is
about the additions that are not.
-/

namespace Multipath

/-- A length of time. -/
structure Duration where
  nanos : Nat
deriving DecidableEq, Repr, Inhabited

/-- A point in time, as a signed distance from the origin of the clock. -/
structure Instant where
  nanos : Int
deriving DecidableEq, Repr, Inhabited

namespace Duration

def zero : Duration := ⟨0⟩

def ofMillis (n : Nat) : Duration := ⟨n * 1000000⟩

def isZero (d : Duration) : Bool := d.nanos == 0

instance : LT Duration := ⟨fun a b => a.nanos < b.nanos⟩

instance : LE Duration := ⟨fun a b => a.nanos ≤ b.nanos⟩

instance (a b : Duration) : Decidable (a < b) := inferInstanceAs (Decidable (a.nanos < b.nanos))

instance (a b : Duration) : Decidable (a ≤ b) := inferInstanceAs (Decidable (a.nanos ≤ b.nanos))

/-- The longer of two durations. -/
def longer (a b : Duration) : Duration := if a ≤ b then b else a

/-- Seconds: the whole seconds plus the rest, each rounded on its own. -/
def seconds (d : Duration) : Float :=
  Float.ofNat (d.nanos / 1000000000) + Float.ofNat (d.nanos % 1000000000) / 1000000000.0

/-- Milliseconds, as a thousand times the seconds. -/
def millis (d : Duration) : Float := d.seconds * 1000.0

/-- Milliseconds as a word, the rest cut off. -/
def wholeMillis (d : Duration) : UInt64 := UInt64.ofNat (d.nanos / 1000000)

/-- `nanos` in a unit of `10 ^ places` nanoseconds: no trailing zeros, and no point before an
empty fraction. -/
def inUnit (nanos places : Nat) (unit : String) : String :=
  let size := Nat.pow 10 places
  let digits := Nat.toDigits 10 (nanos % size)
  let padded := List.replicate (places - digits.length) '0' ++ digits
  let fraction := (padded.reverse.dropWhile (· == '0')).reverse
  let point := if fraction.isEmpty then "" else "."
  toString (nanos / size) ++ point ++ String.ofList fraction ++ unit

/-- A duration in the largest unit it reaches: `2s`, `20.5ms`, `250µs`, `0ns`. -/
def display (d : Duration) : String :=
  if 1000000000 ≤ d.nanos then inUnit d.nanos 9 "s"
  else if 1000000 ≤ d.nanos then inUnit d.nanos 6 "ms"
  else if 1000 ≤ d.nanos then inUnit d.nanos 3 "µs"
  else toString d.nanos ++ "ns"

end Duration

namespace Instant

instance : LT Instant := ⟨fun a b => a.nanos < b.nanos⟩

instance : LE Instant := ⟨fun a b => a.nanos ≤ b.nanos⟩

instance (a b : Instant) : Decidable (a < b) := inferInstanceAs (Decidable (a.nanos < b.nanos))

instance (a b : Instant) : Decidable (a ≤ b) := inferInstanceAs (Decidable (a.nanos ≤ b.nanos))

instance : HAdd Instant Duration Instant := ⟨fun t d => ⟨t.nanos + d.nanos⟩⟩

/-- The time from `start` to `t`; zero if `t` is not after `start`. -/
def since (t start : Instant) : Duration := ⟨(t.nanos - start.nanos).toNat⟩

end Instant

end Multipath
