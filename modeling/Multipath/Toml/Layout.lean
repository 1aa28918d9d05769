import Multipath.Toml.Document

/-!
# Writing configuration files

A table is written as blocks with empty lines between them. Each block is the header of a table
and the lines for those of its values that fit on a line; the tables in it follow in blocks of
their own. A table that has nothing but tables in it needs no block.

* `write`: the text of a table.
-/

namespace Multipath.Toml

/-! ### Values on a line -/

/-- A part of a key: without quotes where that is possible. -/
def writeKeyPart (name : String) : String :=
  if name.toList.all isBareChar && !name.isEmpty then name else Quoted.write name

/-- A key. -/
def writeKey (path : List String) : String := ".".intercalate (path.map writeKeyPart)

mutual

/-- A value on a line. -/
def Value.inline : Value → String
  | .string text => Quoted.write text
  | .integer n => Number.write n
  | .float x => Decimal.displayPoint x
  | .boolean b => toString b
  | .moment text => text
  | .array items => "[" ++ ", ".intercalate (inlineItems items) ++ "]"
  | .table entries =>
    if entries.isEmpty then "\x7b\x7d"
    else "\x7b " ++ ", ".intercalate (inlineEntries entries) ++ " \x7d"

/-- The items of an array on a line. -/
def inlineItems : List Value → List String
  | [] => []
  | v :: rest => v.inline :: inlineItems rest

/-- The entries of a table on a line. -/
def inlineEntries : List (String × Value) → List String
  | [] => []
  | (name, v) :: rest => (writeKeyPart name ++ " = " ++ v.inline) :: inlineEntries rest

end

/-! ### Blocks -/

/-- Whether a value is written in blocks: a table, or an array of tables that is not empty. -/
def Value.hasBlocks : Value → Bool
  | .table _ => true
  | .array items => !items.isEmpty && items.all fun
    | .table _ => true
    | _ => false
  | _ => false

/-- The lines for the values of a table that fit on a line. -/
def ownLines (table : Table) : List String :=
  (table.filter (!·.2.hasBlocks)).map fun e => writeKeyPart e.1 ++ " = " ++ e.2.inline ++ "\n"

/-- The block of a table alone, if it needs one. -/
def ownBlock (header : String) (table : Table) : List String :=
  let lines := ownLines table
  if lines.isEmpty && !table.isEmpty then [] else [header ++ String.join lines]

mutual

/-- The blocks of the value under a key. -/
def Value.blocks (path : List String) : Value → List String
  | .table entries =>
    ownBlock ("[" ++ writeKey path ++ "]\n") entries ++ blocksOfEntries path entries
  | .array items => if (Value.array items).hasBlocks then blocksOfElements path items else []
  | _ => []

/-- The blocks of the elements of an array of tables. -/
def blocksOfElements (path : List String) : List Value → List String
  | [] => []
  | .table entries :: rest =>
    ("[[" ++ writeKey path ++ "]]\n" ++ String.join (ownLines entries))
      :: blocksOfEntries path entries ++ blocksOfElements path rest
  | _ :: rest => blocksOfElements path rest

/-- The blocks of the values of a table. -/
def blocksOfEntries (path : List String) : List (String × Value) → List String
  | [] => []
  | (name, v) :: rest => v.blocks (path ++ [name]) ++ blocksOfEntries path rest

end

/-- The text of a table. -/
def write (table : Table) : String :=
  let lines := ownLines table
  "\n".intercalate ((if lines.isEmpty then [] else [String.join lines]) ++ blocksOfEntries [] table)

end Multipath.Toml
