import Multipath.Toml.Value

/-!
# Trees of tables

While a file is being read, its tables stay open: a later line may add to them. A `Tree` is a
table with the memory of how its parts came about, which decides what a later line may do.

* A table named by a header `[a.b]` is *defined*; it cannot be named again.
* A table that only lies on the way to another one is *implied*; a header may still define it.
* A table that arose from a dotted key `a.b = 1` is *dotted*; no header may name it, and only
  dotted keys add to it.
* `[[a]]` adds an element to an array of tables, and later lines add to the last element.

Values that were written down as such are closed.
-/

namespace Multipath.Toml

/-- How a table came about. -/
inductive Origin where
  | defined
  | implied
  | dotted
deriving DecidableEq, Repr, Inhabited

/-- An entry of a table that is being read. -/
inductive Node where
  | closed (value : Value)
  | table (origin : Origin) (entries : List (String × Node))
  /-- An array of tables, the last element first. -/
  | tables (elements : List (List (String × Node)))
deriving Repr, Inhabited

/-- A table that is being read. -/
abbrev Tree := List (String × Node)

namespace Tree

/-- The entry with this name. -/
def find? (tree : Tree) (name : String) : Option Node := tree.lookup name

/-- Puts an entry in its place, or at the end if there is none with its name. -/
def put (name : String) (node : Node) : Tree → Tree
  | [] => [(name, node)]
  | entry :: rest => if entry.1 = name then (name, node) :: rest else entry :: put name node rest

/-- Adds a new entry. -/
def add? (tree : Tree) (name : String) (node : Node) : Option Tree :=
  if (tree.find? name).isSome then none else some (tree ++ [(name, node)])

/-- Changes the table that a path leads to. Tables missing on the way arise with the given origin.
A path of dotted keys does not enter a defined table. -/
def modify? (origin : Origin) (change : Origin → Tree → Option Tree) :
    List String → Origin → Tree → Option Tree
  | [], here, tree => change here tree
  | name :: path, _, tree =>
    match tree.find? name with
    | none => do
      let inner ← modify? origin change path origin []
      return put name (.table origin inner) tree
    | some (.closed _) => none
    | some (.table found entries) =>
      if origin = .dotted ∧ found = .defined then none
      else do
        let inner ← modify? origin change path found entries
        return put name (.table found inner) tree
    | some (.tables []) => none
    | some (.tables (last :: before)) => do
      let inner ← modify? origin change path .defined last
      return put name (.tables (inner :: before)) tree

/-- Splits off the last part of a path. -/
def splitLast? : List String → Option (List String × String)
  | [] => none
  | [name] => some ([], name)
  | name :: path => (splitLast? path).map fun (front, last) => (name :: front, last)

/-- Adds a value under a dotted key, starting from the table that the last header named. A key with
dots adds to dotted tables only, and a plain one to others only. -/
def assign? (header key : List String) (value : Value) (tree : Tree) : Option Tree := do
  let (front, last) ← splitLast? key
  let change : Origin → Tree → Option Tree := fun origin entries =>
    if (origin == .dotted) == front.isEmpty then none else add? entries last (.closed value)
  let atHeader : Origin → Tree → Option Tree := fun _ entries =>
    modify? .dotted change front .defined entries
  modify? .implied atHeader header .defined tree

/-- Enters a header `[path]`. -/
def openTable? (path : List String) (tree : Tree) : Option Tree := do
  let (front, last) ← splitLast? path
  let change : Origin → Tree → Option Tree := fun _ entries =>
    match find? entries last with
    | none => some (entries ++ [(last, .table .defined [])])
    | some (.table .implied inner) => some (put last (.table .defined inner) entries)
    | some _ => none
  modify? .implied change front .defined tree

/-- Enters a header `[[path]]`. -/
def openElement? (path : List String) (tree : Tree) : Option Tree := do
  let (front, last) ← splitLast? path
  let change : Origin → Tree → Option Tree := fun _ entries =>
    match find? entries last with
    | none => some (entries ++ [(last, .tables [[]])])
    | some (.tables elements) => some (put last (.tables ([] :: elements)) entries)
    | some _ => none
  modify? .implied change front .defined tree

end Tree

/-! ### Closing -/

mutual

/-- The value that a node has become. -/
def Node.close : Node → Value
  | .closed value => value
  | .table _ entries => .table (closeEntries entries)
  | .tables elements => .array (closeElements elements [])

/-- The table that entries have become. -/
def closeEntries : List (String × Node) → Table
  | [] => []
  | (name, node) :: rest => (name, node.close) :: closeEntries rest

/-- The elements of an array of tables, in order, in front of those already there. -/
def closeElements : List (List (String × Node)) → List Value → List Value
  | [], done => done
  | entries :: before, done => closeElements before (.table (closeEntries entries) :: done)

end

end Multipath.Toml
