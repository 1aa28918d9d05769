import Multipath.Linear.Sparse

/-!
# Triangular systems

Solves systems of linear equations whose matrix is triangular, for sparse right-hand sides. Each
place in use is substituted into the places that its column reaches, and these into those that
they reach. Only places that are reached at all are looked at, in an order in which each comes
before those that depend on it.
-/

namespace Multipath.Linear

/-- The entries of a matrix, column by column, each with its row. -/
abbrev Columns := Array (List (Nat × Float))

namespace Columns

/-- The number of entries. -/
def count (c : Columns) : Nat := c.foldl (fun n column => n + column.length) 0

/-- The rows in a column. -/
def rows (c : Columns) (j : Nat) : List Nat := (c.getD j []).map (·.1)

/-- The transposed matrix; in its columns the last row comes first. -/
def transpose (c : Columns) : Columns :=
  (c.toList.zipIdx.foldl (fun out (column, j) =>
    column.foldl (fun (out : Columns) (i, value) => out.modify i ((j, value) :: ·)) out)
    (Array.replicate c.size []))

end Columns

/-! ### Reaching -/

/-- What a search has found: the places left, the last one first, and the places entered. -/
structure Reached where
  left : List Nat
  entered : Array Bool

/-- Enters a place, then everything next to it that was not entered yet, and leaves it. -/
def Reached.visit (next : Nat → List Nat) : Nat → Reached → Nat → Reached
  | 0, found, _ => found
  | depth + 1, found, i =>
    if found.entered.getD i true then found
    else
      let found := { found with entered := found.entered.setIfInBounds i true }
      let found := (next i).foldl (visit next depth) found
      { found with left := i :: found.left }

/-- Everything that can be reached from some places, among `n` of them. Unless places reach each
other, each comes before those that it reaches. -/
def reach (next : Nat → List Nat) (n : Nat) (starts : List Nat) : List Nat :=
  (starts.foldl (Reached.visit next (n + 1)) ⟨[], Array.replicate n false⟩).left

/-! ### Solving -/

/-- A triangular matrix: what lies outside its diagonal, and the diagonal, which is all ones if it
is not given. -/
structure Triangle where
  columns : Columns
  diagonal : Option (Array Float)
deriving Repr, Inhabited

namespace Triangle

/-- Solves for one place, and substitutes it into the others of its column. -/
def substitute (t : Triangle) (x : Sparse) (i : Nat) : Sparse :=
  let value := match t.diagonal with
    | some diagonal => x.get i / diagonal.getD i 1.0
    | none => x.get i
  (t.columns.getD i []).foldl (fun x (j, entry) => x.subtract j (value * entry)) (x.set i value)

/-- The solution for a right-hand side. -/
def solve (t : Triangle) (x : Sparse) : Sparse :=
  let order := reach t.columns.rows t.columns.size x.places.toList
  order.foldl t.substitute (order.reverse.foldl Sparse.touch x)

/-- The transposed matrix. -/
def transpose (t : Triangle) : Triangle := { t with columns := t.columns.transpose }

end Triangle

end Multipath.Linear
