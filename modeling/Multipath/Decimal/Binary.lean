/-!
# Binary floating point, exactly

A finite double is `m * 2 ^ q` for a natural `m` below `2 ^ 53` and an integer `q`. This module
takes doubles apart into these numbers, reads them as rationals, and rounds rationals back.

* `Binary.decode`: the parts of a double.
* `Binary.toRat?`: the value of a finite double.
* `Binary.ofRat`: the double nearest to a rational.
* `Binary.orderKey`: the total order of doubles, in which a negative zero lies below a positive
  one and NaN above infinity.
-/

namespace Multipath

/-- The value of a double. -/
inductive Binary where
  /-- `mantissa * 2 ^ exponent`, negated if `negative`. -/
  | finite (negative : Bool) (mantissa : Nat) (exponent : Int)
  | infinite (negative : Bool)
  | notANumber
deriving DecidableEq, Repr, Inhabited

namespace Binary

/-- The least exponent of a double. -/
def minExponent : Int := -1074

/-- `2 ^ 52`, the leading bit of a mantissa, which a double does not store. -/
def hiddenBit : Nat := 4503599627370496

/-- `2 ^ 63`, the sign of a double among its bits. -/
def signBit : Nat := 9223372036854775808

/-- The parts of a double. -/
def decode (x : Float) : Binary :=
  let bits := x.toBits.toNat
  let negative := signBit ≤ bits
  let exponent := bits / hiddenBit % 2048
  let fraction := bits % hiddenBit
  if exponent = 2047 then
    if fraction = 0 then .infinite negative else .notANumber
  else if exponent = 0 then .finite negative fraction minExponent
  else .finite negative (fraction + hiddenBit) (minExponent + (exponent - 1 : Nat))

/-- `m * 2 ^ q`. -/
def scaled (m : Nat) (q : Int) : Rat :=
  match q with
  | .ofNat n => ((m <<< n : Nat) : Rat)
  | .negSucc n => mkRat m (1 <<< (n + 1))

/-- The value of a finite double. -/
def toRat? (x : Float) : Option Rat :=
  match decode x with
  | .finite negative m q => some (if negative then -scaled m q else scaled m q)
  | _ => none

/-- `num / den` rounded to the nearest natural number; a tie goes to the even one. -/
def roundQuotient (num den : Nat) : Nat :=
  let quotient := num / den
  let rest := num % den
  if 2 * rest < den then quotient
  else if den < 2 * rest then quotient + 1
  else quotient + quotient % 2

/-- The whole part of the binary logarithm of `num / den`, for positive numbers. -/
def log2Quotient (num den : Nat) : Int :=
  let e := (num.log2 : Int) - den.log2
  let reached : Bool := match e with
    | .ofNat n => den <<< n ≤ num
    | .negSucc n => den ≤ num <<< (n + 1)
  if reached then e else e - 1

/-- The bits of the double nearest to the positive number `num / den`. A mantissa that is rounded
up to `2 ^ 53` carries over into the exponent, and beyond the largest double lies infinity. -/
def nearestBits (num den : Nat) : UInt64 :=
  let q := max (log2Quotient num den - 52) minExponent
  let mantissa := match q with
    | .ofNat n => roundQuotient num (den <<< n)
    | .negSucc n => roundQuotient (num <<< (n + 1)) den
  UInt64.ofNat (min ((q - minExponent).toNat * hiddenBit + mantissa) (2047 * hiddenBit))

/-- The double nearest to a rational. -/
def ofRat (r : Rat) : Float :=
  if r.num = 0 then 0.0
  else
    let magnitude := Float.ofBits (nearestBits r.num.natAbs r.den)
    if r.num < 0 then -magnitude else magnitude

/-- A number that grows along the total order of doubles: it is the double's bit pattern, with
the negative doubles reversed below the positive ones. -/
def orderKey (x : Float) : Int :=
  let bits := x.toBits.toNat
  if signBit ≤ bits then (signBit : Int) - 1 - bits else bits

end Binary

end Multipath
