import Multipath.Text.Hexadecimal

/-!
# Strings of configuration files

A string stands between quotes, in one of four forms: within double quotes a backslash introduces
an escape, within single quotes every character stands for itself, and a delimiter of three quotes
lets the string run over several lines.

* `Quoted.read`: reads a string in any of the four forms.
* `Quoted.readLine`: reads a string on a single line, as names are written.
* `Quoted.write`: writes a string in the plainest form that can hold it.
-/

namespace Multipath.Toml.Quoted

/-! ### Characters -/

/-- Control characters other than the tab, which no string holds as they are. -/
def isControl (c : Char) : Bool := (c.toNat < 0x20 && c != '\t') || c.toNat == 0x7f

/-- A blank within a line. -/
def isSpace (c : Char) : Bool := c == ' ' || c == '\t'

/-- The end of a line. -/
def newline : Reader Unit := Reader.text "\n" <|> Reader.text "\r\n"

/-- The character with a code point; code points of surrogates have none. -/
def character? (code : Nat) : Option Char :=
  if h : code.isValidChar then some (Char.ofNatAux code h) else none

/-- What a backslash introduces. -/
def escape : Reader Char := do
  match ← Reader.next with
  | 'b' => return '\x08'
  | 't' => return '\t'
  | 'n' => return '\n'
  | 'f' => return '\x0c'
  | 'r' => return '\r'
  | '"' => return '"'
  | '\\' => return '\\'
  | 'u' => Reader.need (character? (← Text.hexNumber 4 0))
  | 'U' => Reader.need (character? (← Text.hexNumber 8 0))
  | _ => failure

/-! ### Reading -/

/-- What follows the opening quote of a string on one line; `raw` strings have no escapes. -/
def line (quote : Char) (raw : Bool) : Reader (List Char) :=
  Reader.many do
    let c ← Reader.next
    if c = quote then return none
    else if c = '\\' ∧ !raw then some <$> escape
    else if isControl c then failure
    else return some c

/-- A backslash at the end of a line removes all blanks and line ends up to the next character. -/
def lineJoin : Reader Unit := do
  Reader.skip isSpace
  newline
  let _ ← Reader.many do
    match ← Reader.peek with
    | some c =>
      if isSpace c then some <$> Reader.skip isSpace
      else (some <$> newline) <|> pure none
    | none => pure none

/-- The next piece of a string over several lines; `none` at its closing delimiter. Up to two
quotes may stand anywhere, even in front of the closing delimiter. -/
def piece (quote : Char) (raw : Bool) : Reader (Option (List Char)) := do
  let rest ← get
  match (rest.takeWhile (· == quote)).length with
  | 0 =>
    (do newline; return some ['\n'])
      <|> do
        let c ← Reader.next
        if c = '\\' ∧ !raw then
          (do lineJoin; return some []) <|> do return some [← escape]
        else if isControl c then failure
        else return some [c]
  | 3 =>
    set (rest.drop 3)
    return none
  | run => if run ≤ 5 then return some [← Reader.next] else failure

/-- What follows the opening delimiter of a string over several lines. A line end right behind the
delimiter is no part of the string. -/
def block (quote : Char) (raw : Bool) : Reader (List Char) := do
  let _ ← Reader.accepts newline
  return (← Reader.many (piece quote raw)).flatten

/-- A string on one line. -/
def readLine : Reader String :=
  (do Reader.text "\""; String.ofList <$> line '"' false)
    <|> do Reader.text "'"; String.ofList <$> line '\'' true

/-- A string in any form. -/
def read : Reader String :=
  (do Reader.text "\"\"\""; String.ofList <$> block '"' false)
    <|> (do Reader.text "'''"; String.ofList <$> block '\'' true)
    <|> readLine

/-! ### Writing -/

/-- The length of the longest run of a character. -/
def longestRun (c : Char) (text : List Char) : Nat :=
  (text.foldl (fun (longest, current) d =>
    if d = c then (max longest (current + 1), current + 1) else (longest, 0)) (0, 0)).1

/-- A control character other than a tab or a line end. -/
def needsEscape (c : Char) : Bool := isControl c && c != '\n'

/-- The hexadecimal digits of a number, with zeros in front to make `n` of them. -/
def paddedHex (n value : Nat) : List Char :=
  let digits := (Nat.toDigits 16 value).map Char.toUpper
  List.replicate (n - digits.length) '0' ++ digits

/-- A character other than a quote within double quotes. In a string over several lines, line ends
stand for themselves. -/
def encode (multiline : Bool) (c : Char) : List Char :=
  match c with
  | '\x08' => ['\\', 'b']
  | '\t' => ['\\', 't']
  | '\n' => if multiline then ['\n'] else ['\\', 'n']
  | '\x0c' => ['\\', 'f']
  | '\r' => ['\\', 'r']
  | '\\' => ['\\', '\\']
  | c => if isControl c then '\\' :: 'u' :: paddedHex 4 c.toNat else [c]

/-- The quotes that may follow each other unescaped: in a string over several lines a third one
would look like its closing delimiter. -/
def quotesInRow (multiline : Bool) : Nat := if multiline then 2 else 0

/-- Characters within double quotes, behind a run of unescaped quotes. -/
def encodeAll (multiline : Bool) : Nat → List Char → List Char
  | _, [] => []
  | run, c :: rest =>
    if c = '"' then
      if run < quotesInRow multiline then '"' :: encodeAll multiline (run + 1) rest
      else '\\' :: '"' :: encodeAll multiline 0 rest
    else encode multiline c ++ encodeAll multiline 0 rest

/-- A string between double quotes, or delimiters of three if it is to run over several lines. -/
def writeDouble (multiline : Bool) (opening text : String) : String :=
  let delimiter := if multiline then "\"\"\"" else "\""
  delimiter ++ opening ++ String.ofList (encodeAll multiline 0 text.toList) ++ delimiter

/-- A string between single quotes, or delimiters of three if it is to run over several lines. -/
def writeSingle (multiline : Bool) (opening text : String) : String :=
  let delimiter := if multiline then "'''" else "'"
  delimiter ++ opening ++ text ++ delimiter

/-- A string in the first of these forms that can hold it: double quotes without escapes other
than for tabs, single quotes, several lines within double and within single quotes, and double
quotes with escapes, over several lines if the string has line ends. -/
def write (text : String) : String :=
  let chars := text.toList
  let controls := chars.any needsEscape
  let escapes := controls || chars.contains '\\'
  let lineEnds := chars.contains '\n'
  let opening := if lineEnds then "\n" else ""
  if !escapes && !chars.contains '"' && !lineEnds then writeDouble false "" text
  else if !controls && !chars.contains '\'' && !lineEnds then writeSingle false "" text
  else if !escapes && longestRun '"' chars ≤ 2 then writeDouble true opening text
  else if !controls && longestRun '\'' chars ≤ 2 then writeSingle true opening text
  else writeDouble lineEnds opening text

end Multipath.Toml.Quoted
