import Multipath.Toml.Calendar
import Multipath.Toml.Number
import Multipath.Toml.Quoted
import Multipath.Toml.Tree

/-!
# Reading configuration files

A configuration file is a sequence of lines, each of which is empty, names a table, or puts a value
under a key; `#` begins a comment. The lines are statements, and the table that the file holds is
what the statements make of an empty tree, one after the other.

* `Statement.readAll`: the statements of a file.
* `Tree.extend?`: what a statement does to the table.
* `parse?`: the table of a file; nothing if the text is no configuration file.
-/

namespace Multipath.Toml

/-- What a line says. -/
inductive Statement where
  /-- The lines that follow belong to this table. -/
  | table (path : List String)
  /-- The lines that follow belong to a new element of this array of tables. -/
  | element (path : List String)
  /-- The value under a key. -/
  | entry (key : List String) (value : Value)
deriving Repr, Inhabited

/-- How deep values may be nested, and how many parts a key may have. -/
def maxDepth : Nat := 79

/-! ### Keys, blanks and comments -/

/-- A name without quotes. -/
def isBareChar (c : Char) : Bool := c.isAlphanum || c == '_' || c == '-'

/-- Blanks within a line. -/
def spaces : Reader Unit := Reader.skip Quoted.isSpace

/-- A part of a key, with blanks around it. -/
def keyPart : Reader String := do
  spaces
  let part ← Quoted.readLine <|> do
    let name ← Reader.span isBareChar
    if name.isEmpty then failure else return String.ofList name
  spaces
  return part

/-- A key: parts with points between them. -/
def key : Reader (List String) := do
  let first ← keyPart
  let rest ← Reader.many do
    if ← Reader.accepts (Reader.text ".") then some <$> keyPart else return none
  if maxDepth ≤ rest.length then failure else return first :: rest

/-- A comment, if there is one. -/
def comment : Reader Unit := do
  if ← Reader.accepts (Reader.text "#") then
    Reader.skip (!Quoted.isControl ·)

/-- The rest of a line behind a statement. -/
def lineEnd : Reader Unit := do
  spaces
  comment
  Quoted.newline <|> Reader.finish

/-- Blanks, comments and line ends between the items of an array. -/
def gap : Reader Unit := do
  let _ ← Reader.many do
    match ← Reader.peek with
    | some '#' => some <$> comment
    | some c =>
      if Quoted.isSpace c then some <$> spaces
      else (some <$> Quoted.newline) <|> pure none
    | none => pure none

/-! ### Values -/

/-- A string, a date or time, a boolean or a number. -/
def scalar : Reader Value :=
  (.string <$> Quoted.read) <|> (.moment <$> Calendar.read) <|> do
    Reader.need (Number.value? (← Reader.span Number.isWordChar))

/-- What follows the opening bracket of an array. A comma may follow the last item. -/
def arrayRest (value : Reader Value) : Reader Value := do
  let items ← Reader.many do
    gap
    if ← Reader.accepts (Reader.text "]") then return none
    let item ← value
    gap
    if !(← Reader.accepts (Reader.text ",")) && (← Reader.peek) != some ']' then failure
    return some item
  return .array items

/-- What follows the opening brace of a table on one line. -/
def tableRest (value : Reader Value) : Reader Value := do
  let entry : Reader (List String × Value) := do
    let path ← key
    Reader.text "="
    spaces
    let item ← value
    spaces
    return (path, item)
  spaces
  let entries ← Reader.separated entry (Reader.text ",") (Reader.text "\x7d")
  let tree ← Reader.need (entries.foldlM (fun tree e => Tree.assign? [] e.1 e.2 tree) [])
  return .table (closeEntries tree)

/-- A value in which arrays and tables are nested at most so deep. -/
def value : Nat → Reader Value
  | 0 => scalar
  | depth + 1 =>
    (do Reader.text "["; arrayRest (value depth))
      <|> (do Reader.text "\x7b"; tableRest (value depth))
      <|> scalar

/-! ### Statements -/

/-- A statement. -/
def Statement.read : Reader Statement :=
  (do
    Reader.text "[["
    let path ← key
    Reader.text "]]"
    return .element path)
  <|> (do
    Reader.text "["
    let path ← key
    Reader.text "]"
    return .table path)
  <|> do
    let path ← key
    Reader.text "="
    spaces
    return .entry path (← value maxDepth)

/-- A line, with its statement if it has one; `none` at the end of the text. -/
def line : Reader (Option (Option Statement)) := do
  if (← Reader.peek).isNone then return none
  spaces
  let statement ← match ← Reader.peek with
    | none | some '#' | some '\n' | some '\r' => pure none
    | some _ => some <$> Statement.read
  lineEnd
  return some statement

/-- The statements of a file. A byte order mark in front is skipped. -/
def Statement.readAll : Reader (List Statement) := do
  let _ ← Reader.accepts (Reader.text "\ufeff")
  return (← Reader.many line).filterMap id

/-! ### The table of a file -/

/-- What a statement does to the table, given the header that is in force. -/
def Tree.extend? (header : List String) (tree : Tree) : Statement → Option (List String × Tree)
  | .table path => (tree.openTable? path).map (path, ·)
  | .element path => (tree.openElement? path).map (path, ·)
  | .entry key value => (tree.assign? header key value).map (header, ·)

/-- The table that statements add up to. -/
def Tree.ofStatements? : List String → Tree → List Statement → Option Tree
  | _, tree, [] => some tree
  | header, tree, s :: rest =>
    (tree.extend? header s).bind fun (header, tree) => ofStatements? header tree rest

/-- The table of a configuration file. -/
def parse? (text : String) : Option Table :=
  ((Statement.readAll.parse text).bind (Tree.ofStatements? [] [])).map closeEntries

end Multipath.Toml
