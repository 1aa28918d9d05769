import Multipath.Decimal.Shortest
import Multipath.Toml.Value

/-!
# Numbers of configuration files

A number is read from a word: the longest run of letters, digits, signs, points and underscores.

* An integer has no superfluous zeros in front, may have underscores between its digits, and fits
  into 64 bits with a sign. After `0x`, `0o` or `0b` its digits are hexadecimal, octal or binary.
* Every other number has a fraction, an exponent or both, or is infinite or not a number. It has
  to be small enough for a double, unless it is negative.
-/

namespace Multipath.Toml.Number

/-! ### Digits -/

/-- The value of a digit, letters counting from ten. -/
def digitValue? (base : Nat) (c : Char) : Option Nat :=
  let c := c.toLower
  let value := if c.isDigit then c.toNat - '0'.toNat else c.toNat - 'a'.toNat + 10
  if c.isAlphanum ∧ value < base then some value else none

/-- The digits of a word in which single underscores may stand between digits. -/
def digits? (base : Nat) : List Char → Option (List Nat)
  | [] => none
  | [c] => (digitValue? base c).map ([·])
  | c :: '_' :: rest => do return (← digitValue? base c) :: (← digits? base rest)
  | c :: rest => do return (← digitValue? base c) :: (← digits? base rest)

/-- The number that digits stand for. -/
def ofDigits (base : Nat) (digits : List Nat) : Nat := digits.foldl (fun n d => base * n + d) 0

/-- Splits off the sign of a word. -/
def splitSign : List Char → Bool × List Char
  | '-' :: rest => (true, rest)
  | '+' :: rest => (false, rest)
  | word => (false, word)

/-! ### Integers -/

/-- Digits without superfluous zeros in front. -/
def wholePart? (word : List Char) : Option (List Nat) :=
  match digits? 10 word with
  | some (0 :: _ :: _) => none
  | digits => digits

/-- An integer that fits into 64 bits with a sign. -/
def inRange? (n : Int) : Option Int :=
  if -9223372036854775808 ≤ n ∧ n ≤ 9223372036854775807 then some n else none

/-- The integer that a word stands for. -/
def integer? (word : List Char) : Option Int :=
  match word with
  | '0' :: 'x' :: rest => (digits? 16 rest).bind fun d => inRange? (ofDigits 16 d)
  | '0' :: 'o' :: rest => (digits? 8 rest).bind fun d => inRange? (ofDigits 8 d)
  | '0' :: 'b' :: rest => (digits? 2 rest).bind fun d => inRange? (ofDigits 2 d)
  | _ =>
    let (negative, magnitude) := splitSign word
    (wholePart? magnitude).bind fun d =>
      inRange? (if negative then -(ofDigits 10 d : Int) else ofDigits 10 d)

/-! ### Other numbers -/

/-- A magnitude as a decimal: digits, then a fraction, an exponent or both. -/
def decimal? (word : List Char) : Option Decimal := do
  let isMark := fun c : Char => c == 'e' || c == 'E'
  let mantissa := word.takeWhile (!isMark ·)
  let exponent ← match word.dropWhile (!isMark ·) with
    | [] => some (0 : Int)
    | _ :: rest =>
      let (negative, rest) := splitSign rest
      (digits? 10 rest).map fun d => if negative then -(ofDigits 10 d : Int) else ofDigits 10 d
  let whole ← wholePart? (mantissa.takeWhile (· != '.'))
  let fraction ← match mantissa.dropWhile (· != '.') with
    | [] => some []
    | _ :: rest => digits? 10 rest
  if fraction.isEmpty ∧ !word.any isMark then none
  else some ⟨ofDigits 10 (whole ++ fraction), exponent - fraction.length⟩

/-- The double that a word stands for. -/
def float? (word : List Char) : Option Float :=
  let (negative, magnitude) := splitSign word
  let signed := fun x : Float => if negative then -x else x
  if magnitude = ['i', 'n', 'f'] then some (signed (1.0 / 0.0))
  else if magnitude = ['n', 'a', 'n'] then some (signed (0.0 / 0.0))
  else (decimal? magnitude).bind fun d =>
    let x := signed d.toFloat
    if x == 1.0 / 0.0 then none else some x

/-! ### Words -/

/-- The characters of which words are made. -/
def isWordChar (c : Char) : Bool :=
  c.isAlphanum || c == '_' || c == '+' || c == '-' || c == '.'

/-- The boolean or number that a word stands for. -/
def value? (word : List Char) : Option Value :=
  if word = ['t', 'r', 'u', 'e'] then some (.boolean true)
  else if word = ['f', 'a', 'l', 's', 'e'] then some (.boolean false)
  else match integer? word with
    | some n => some (.integer n)
    | none => (float? word).map .float

/-- An integer as text. -/
def write (n : Int) : String := toString n

end Multipath.Toml.Number
