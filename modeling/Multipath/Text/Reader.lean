/-!
# Reading text

A `Reader` takes a value off the front of a text, or finds that the text does not begin with one.
A reader that fails takes nothing, so alternatives are tried with `<|>`.

* `many`: repeats a reader until it says that there is no more.
* `parse`: reads a text as a whole; nothing may be left over.
-/

namespace Multipath

/-- Takes a value off the front of a text. -/
abbrev Reader (α : Type) := StateT (List Char) Option α

namespace Reader

variable {α : Type}

/-- The next character. -/
def next : Reader Char := fun
  | [] => none
  | c :: rest => some (c, rest)

/-- The character that comes next, left in place. -/
def peek : Reader (Option Char) := fun text => some (text.head?, text)

/-- The given text. -/
def text (expected : String) : Reader Unit := fun rest =>
  if expected.toList.isPrefixOf rest then some ((), rest.drop expected.length) else none

/-- The longest run of characters with a property. -/
def span (p : Char → Bool) : Reader (List Char) := fun rest =>
  some (rest.takeWhile p, rest.dropWhile p)

/-- Skips the longest run of characters with a property. -/
def skip (p : Char → Bool) : Reader Unit := fun rest => some ((), rest.dropWhile p)

/-- Nothing, at the end of the text. -/
def finish : Reader Unit := fun rest => if rest.isEmpty then some ((), rest) else none

/-- A value that has to be there. -/
def need : Option α → Reader α
  | none => failure
  | some a => pure a

/-- Whether the text goes on in a certain way; if so, that is taken. -/
def accepts (reader : Reader Unit) : Reader Bool := (do reader; pure true) <|> pure false

/-- Repeats `item` at most `n` times, until it says that there is no more. -/
def repeatUpTo (item : Reader (Option α)) : Nat → Reader (List α)
  | 0 => failure
  | n + 1 => do
    match ← item with
    | none => pure []
    | some a => return a :: (← repeatUpTo item n)

/-- Repeats `item` until it says that there is no more. Each item takes at least one character, so
their number is bounded by the length of the text. -/
def many (item : Reader (Option α)) : Reader (List α) := fun rest =>
  repeatUpTo item (rest.length + 1) rest

/-- Items with `separator` between them, up to `close`. -/
def separated (item : Reader α) (separator close : Reader Unit) : Reader (List α) := do
  if ← accepts close then return []
  let first ← item
  let rest ← many do
    if ← accepts close then return none
    separator
    some <$> item
  return first :: rest

/-- Reads a whole text. -/
def parse (reader : Reader α) (text : String) : Option α :=
  match reader text.toList with
  | some (a, []) => some a
  | _ => none

end Reader

end Multipath
