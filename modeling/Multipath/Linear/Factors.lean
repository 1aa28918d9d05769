import Multipath.Linear.Triangle
import Multipath.Ranking

/-!
# Factors of a square matrix

Takes a square matrix apart, up to the order of its rows and columns, into a lower triangle with
ones on the diagonal and an upper triangle. Columns are eliminated one after another, those with
few entries first. The pivot of a column is the entry in the emptiest row among those that are
large enough not to spoil the precision.

* `Factors.ofColumns?`: the factors of a matrix; a singular one has none.
* `Factors.solve`: solves a system with the matrix.
-/

namespace Multipath.Linear

/-- The factors of a matrix, with the order of its rows and columns in them. -/
structure Factors where
  lower : Triangle
  upper : Triangle
  /-- For each row, its place. -/
  rowPlace : Array Nat
  /-- For each place, the column there. -/
  columnAt : Array Nat
deriving Repr, Inhabited

namespace Factors

/-- Solves a system with the matrix. -/
def solve (f : Factors) (x : Sparse) : Sparse :=
  (f.upper.solve (f.lower.solve (x.relabel f.rowPlace))).relabel f.columnAt

/-- The entries that take part in solving a system. -/
def weight (f : Factors) : Nat :=
  f.lower.columns.count + f.upper.columns.count + f.lower.columns.size

/-- Where each number of a permutation stands. -/
def inverse (p : Array Nat) : Array Nat :=
  p.toList.zipIdx.foldl (fun out (i, place) => out.setIfInBounds i place) (Array.replicate p.size 0)

/-- The factors of the transposed matrix. -/
def transpose (f : Factors) : Factors where
  lower := f.upper.transpose
  upper := f.lower.transpose
  rowPlace := inverse f.columnAt
  columnAt := inverse f.rowPlace

/-! ### Elimination -/

/-- A pivot below this counts as zero. -/
def leastPivot : Float := 1e-8

/-- A pivot is at least this part of the largest entry of its column. -/
def stability : Float := 0.1

/-- The columns eliminated so far. The rows of the lower triangle have their own numbers, those of
the upper one are places. -/
structure Elimination where
  lower : Columns
  upper : Columns
  diagonal : Array Float
  rowPlace : Array Nat
  rowAt : Array Nat

namespace Elimination

/-- The place of a row. -/
def place (e : Elimination) (row : Nat) : Nat := e.rowPlace.getD row 0

/-- Nothing is eliminated yet. -/
def start (n : Nat) : Elimination := ⟨#[], #[], #[], Array.range n, Array.range n⟩

/-- A column with all columns eliminated before taken off. -/
def reduce (e : Elimination) (column : List (Nat × Float)) : Sparse :=
  let x := Sparse.ofEntries e.rowPlace.size column
  let order := reach (fun row => e.lower.rows (e.place row)) e.rowPlace.size x.places.toList
  order.foldl (fun x row =>
      let value := x.get row
      (e.lower.getD (e.place row) []).foldl
        (fun x (other, entry) => x.subtract other (value * entry)) x)
    (order.reverse.foldl Sparse.touch x)

/-- The row of the pivot in a reduced column: the first of those with the fewest entries in the
matrix, as `counts` has them, among the entries that are large enough. -/
def pivotRow? (e : Elimination) (counts : Array Nat) (x : Sparse) : Option Nat :=
  let free := x.entries.filter fun (row, _) => e.diagonal.size ≤ e.place row
  let largest := free.foldl (fun m (_, value) => if m < value.abs then value.abs else m) 0.0
  if largest < leastPivot || !largest.isFinite then none
  else
    let stable := free.filter fun (_, value) => stability * largest ≤ value.abs
    (Ranking.rank (fun (row, _) => -(counts.getD row 0 : Int)) stable).head?.map (·.1)

/-- Moves a row to the place that is eliminated next. -/
def moveUp (e : Elimination) (row : Nat) : Elimination :=
  let next := e.diagonal.size
  let displaced := e.rowAt.getD next 0
  { e with
    rowAt := e.rowAt.swapIfInBounds next (e.place row)
    rowPlace := e.rowPlace.swapIfInBounds displaced row }

/-- Eliminates one more column, if it has a pivot. -/
def step? (counts : Array Nat) (e : Elimination) (column : List (Nat × Float)) :
    Option Elimination := do
  let x := e.reduce column
  let row ← e.pivotRow? counts x
  let next := e.diagonal.size
  let pivot := x.get row
  let e := e.moveUp row
  let entries := x.entries.filter fun (_, value) => value != 0.0
  let above := entries.filterMap fun (row, value) =>
    if e.place row < next then some (e.place row, value) else none
  let below := entries.filterMap fun (row, value) =>
    if next < e.place row then some (row, value / pivot) else none
  return { e with
    lower := e.lower.push below
    upper := e.upper.push above
    diagonal := e.diagonal.push pivot }

end Elimination

/-- In how many columns each row has an entry. -/
def rowCounts (columns : Columns) : Array Nat :=
  columns.foldl (fun counts column =>
    column.foldl (fun (counts : Array Nat) (row, _) => counts.modify row (· + 1)) counts)
    (Array.replicate columns.size 0)

/-- The factors of a square matrix. -/
def ofColumns? (columns : Columns) : Option Factors := do
  let order := Ranking.rank (fun (column, _) => -(column.length : Int)) columns.toList.zipIdx
  let counts := rowCounts columns
  let e ← order.foldlM (fun e (column, _) => Elimination.step? counts e column)
    (Elimination.start columns.size)
  return {
    lower := ⟨e.lower.map fun column => column.map fun (row, value) => (e.place row, value), none⟩
    upper := ⟨e.upper, some e.diagonal⟩
    rowPlace := e.rowPlace
    columnAt := (order.map (·.2)).toArray }

end Factors

end Multipath.Linear
