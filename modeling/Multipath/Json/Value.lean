import Multipath.Text.Hexadecimal

/-!
# Values in JSON

Reads any JSON text, but keeps only as much of a value as the library's own types are read from: of
numbers the natural ones, and of strings those that are text. A string may name half a surrogate
pair by an escape; it is a string then, but no text.

* `Json.parse?`: the value of a text; nothing if the text is not JSON.
-/

namespace Multipath.Json

/-- A JSON value. -/
inductive Value where
  | null
  | boolean (b : Bool)
  /-- A number written as digits alone. -/
  | natural (n : Nat)
  /-- Any other number. -/
  | number
  /-- A string; `none` if it is no text. -/
  | string (text : Option String)
  | array (items : List Value)
  | object (entries : List (Option String × Value))
deriving Repr, Inhabited

/-! ### Strings -/

/-- The code point that a backslash introduces; it may be half a surrogate pair. -/
def escape : Reader Nat := do
  match ← Reader.next with
  | '"' => return '"'.toNat
  | '\\' => return '\\'.toNat
  | '/' => return '/'.toNat
  | 'b' => return 0x8
  | 'f' => return 0xc
  | 'n' => return 0xa
  | 'r' => return 0xd
  | 't' => return 0x9
  | 'u' => Text.hexNumber 4 0
  | _ => failure

/-- The code points of a string, up to its closing quote. -/
def codePoints : Reader (List Nat) :=
  Reader.many do
    match ← Reader.next with
    | '"' => return none
    | '\\' => some <$> escape
    | c => if c.toNat < 0x20 then failure else return some c.toNat

/-- The first half of a surrogate pair. -/
def isHigh (n : Nat) : Bool := 0xd800 ≤ n && n < 0xdc00

/-- The second half of a surrogate pair. -/
def isLow (n : Nat) : Bool := 0xdc00 ≤ n && n < 0xe000

/-- The text with these code points, pairs of surrogates joined. -/
def text? : List Nat → Option (List Char)
  | [] => some []
  | [n] => if h : n.isValidChar then some [Char.ofNatAux n h] else none
  | m :: n :: rest =>
    if isHigh m && isLow n then
      (text? rest).map (Char.ofNat (0x10000 + (m - 0xd800) * 0x400 + (n - 0xdc00)) :: ·)
    else if h : m.isValidChar then (text? (n :: rest)).map (Char.ofNatAux m h :: ·)
    else none

/-- A string. -/
def string : Reader (Option String) := do
  Reader.text "\""
  return (text? (← codePoints)).map String.ofList

/-! ### Numbers -/

/-- At least one digit. -/
def digits : Reader (List Char) := do
  let digits ← Reader.span (·.isDigit)
  if digits.isEmpty then failure else return digits

/-- A number. -/
def number : Reader Value := do
  let negative ← Reader.accepts (Reader.text "-")
  let whole ← digits
  if whole.head? = some '0' ∧ 1 < whole.length then failure
  let fraction ← Reader.accepts do
    Reader.text "."
    let _ ← digits
  let exponent ← Reader.accepts do
    Reader.text "e" <|> Reader.text "E"
    let _ ← Reader.accepts (Reader.text "+" <|> Reader.text "-")
    let _ ← digits
  if negative || fraction || exponent then return .number
  return .natural (whole.foldl (fun n c => 10 * n + (c.toNat - '0'.toNat)) 0)

/-! ### Values -/

/-- Blanks. -/
def blanks : Reader Unit := Reader.skip fun c => c == ' ' || c == '\n' || c == '\r' || c == '\t'

/-- A value that is not made of others. -/
def scalar : Reader Value :=
  (do Reader.text "null"; return .null)
    <|> (do Reader.text "true"; return .boolean true)
    <|> (do Reader.text "false"; return .boolean false)
    <|> (.string <$> string)
    <|> number

/-- What follows the opening bracket of an array. -/
def arrayRest (value : Reader Value) : Reader Value := do
  blanks
  .array <$> Reader.separated value (Reader.text ",") (Reader.text "]")

/-- What follows the opening brace of an object. -/
def objectRest (value : Reader Value) : Reader Value := do
  blanks
  let entry : Reader (Option String × Value) := do
    blanks
    let name ← string
    blanks
    Reader.text ":"
    return (name, ← value)
  .object <$> Reader.separated entry (Reader.text ",") (Reader.text "\x7d")

/-- A value in which arrays and objects are nested at most so deep, with blanks around it. -/
def value : Nat → Reader Value
  | 0 => do
    blanks
    let v ← scalar
    blanks
    return v
  | depth + 1 => do
    blanks
    let v ← (do Reader.text "["; arrayRest (value depth))
      <|> (do Reader.text "\x7b"; objectRest (value depth))
      <|> scalar
    blanks
    return v

/-- The value of a JSON text. A text cannot nest deeper than it is long. -/
def parse? (text : String) : Option Value := (value text.length).parse text

end Multipath.Json
