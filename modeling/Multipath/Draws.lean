/-!
# Random draws

A source of 64-bit draws is a fixed infinite sequence together with the number of draws already
taken, so whatever consumes randomness is a function of the sequence, and a statement about all
outcomes is one about all sequences.

* `coin p`: true with probability `p`. Certainty takes no draw.
* `below n`: a number less than `n`, by scaling one draw.
* `ofList`, `seeded`: given draws, followed by zeros; and draws scattered from a seed.
-/

namespace Multipath

/-- A source of random draws. -/
structure Draws where
  /-- The draws, in order. -/
  stream : Nat → UInt64
  /-- How many have been taken. -/
  used : Nat

namespace Draws

/-- The given draws, then zeros. -/
def ofList (draws : List UInt64) : Draws := ⟨fun i => draws.getD i 0, 0⟩

/-- Scatters the bits of a word. -/
def scatter (x : UInt64) : UInt64 :=
  let x := (x ^^^ (x >>> 30)) * 0xbf58476d1ce4e5b9
  let x := (x ^^^ (x >>> 27)) * 0x94d049bb133111eb
  x ^^^ (x >>> 31)

/-- Draws that look random, fixed by a seed. -/
def seeded (seed : UInt64) : Draws :=
  ⟨fun i => scatter (seed + (UInt64.ofNat i + 1) * 0x9e3779b97f4a7c15), 0⟩

instance : Inhabited Draws := ⟨seeded 0⟩

/-- The next draw. -/
def take (d : Draws) : UInt64 × Draws := (d.stream d.used, { d with used := d.used + 1 })

/-- `2 ^ 64`. -/
def scale : Float := 18446744073709551616.0

/-- Tosses a coin that shows true with probability `p`, for `p` from 0 to 1: one draw, compared
with the largest whole number not above `p * 2 ^ 64`. The certain coin is not tossed. -/
def coin (p : Float) (d : Draws) : Bool × Draws :=
  if p == 1.0 then (true, d)
  else
    let (draw, d) := d.take
    (draw < (p * scale).toUInt64, d)

/-- A number below `n`, if there is one. -/
def below (n : Nat) (d : Draws) : Nat × Draws :=
  let (draw, d) := d.take
  ((draw.toNat * n) >>> 64, d)

theorem below_lt {n : Nat} (h : 0 < n) (d : Draws) : (d.below n).1 < n := by
  have hd := (d.stream d.used).toNat_lt
  show ((d.stream d.used).toNat * n) >>> 64 < n
  rw [Nat.shiftRight_eq_div_pow, Nat.div_lt_iff_lt_mul (by decide), Nat.mul_comm]
  exact Nat.mul_lt_mul_of_pos_left hd h

/-- Takes `n` numbers by the same rule, one after the other. -/
def times {α : Type} (n : Nat) (f : Draws → α × Draws) (d : Draws) : List α × Draws :=
  match n with
  | 0 => ([], d)
  | n + 1 =>
    let (a, d) := f d
    let (rest, d) := times n f d
    (a :: rest, d)

end Draws

end Multipath
