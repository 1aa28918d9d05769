import Multipath.Text.Reader

/-!
# Dates and times of configuration files

A date is a year, a month and a day, a time an hour, a minute and a second with any number of
decimals. A date may be followed by a time, and that by its distance from universal time. The day
has to exist in the calendar; a minute may have a leap second.

* `Calendar.read`: the text of a date, a time or both.
-/

namespace Multipath.Toml.Calendar

/-- `n` further digits of a number that begins with `value`. -/
def digits : Nat → Nat → Reader Nat
  | 0, value => return value
  | n + 1, value => do
    let c ← Reader.next
    if c.isDigit then digits n (10 * value + (c.toNat - '0'.toNat)) else failure

/-- A number of two digits between two bounds. -/
def pair (least greatest : Nat) : Reader Nat := do
  let n ← digits 2 0
  if least ≤ n ∧ n ≤ greatest then return n else failure

/-- Whether a year has a 29th of February. -/
def isLeap (year : Nat) : Bool := year % 4 == 0 && (year % 100 != 0 || year % 400 == 0)

/-- The number of days in a month. -/
def daysIn (year month : Nat) : Nat :=
  if month = 2 then if isLeap year then 29 else 28
  else if [4, 6, 9, 11].contains month then 30
  else 31

/-- A date. -/
def date : Reader Unit := do
  let year ← digits 4 0
  Reader.text "-"
  let month ← pair 1 12
  Reader.text "-"
  let _ ← pair 1 (daysIn year month)

/-- The decimals of a second. -/
def decimals : Reader Unit := do
  Reader.text "."
  if (← Reader.span (·.isDigit)).isEmpty then failure

/-- A time. -/
def time : Reader Unit := do
  let _ ← pair 0 23
  Reader.text ":"
  let _ ← pair 0 59
  Reader.text ":"
  let _ ← pair 0 60
  let _ ← Reader.accepts decimals

/-- The distance from universal time. -/
def offset : Reader Unit :=
  (Reader.text "Z" <|> Reader.text "z") <|> do
    Reader.text "+" <|> Reader.text "-"
    let _ ← pair 0 23
    Reader.text ":"
    let _ ← pair 0 59

/-- A time behind a date. -/
def timeOfDate : Reader Unit := do
  (Reader.text "T" <|> Reader.text "t") <|> Reader.text " "
  time
  let _ ← Reader.accepts offset

/-- A date with or without a time, or a time alone. -/
def moment : Reader Unit :=
  (do
    date
    let _ ← Reader.accepts timeOfDate)
  <|> time

/-- The text of a date, a time or both. -/
def read : Reader String := do
  let before ← get
  moment
  return String.ofList (before.take (before.length - (← get).length))

end Multipath.Toml.Calendar
