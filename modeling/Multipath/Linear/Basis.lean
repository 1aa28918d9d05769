import Multipath.Linear.Factors

/-!
# Bases

The matrix of a basis, kept so that systems with it and with its transpose are solved quickly:
its factors at some point, and what was exchanged since. Exchanging a column multiplies the matrix
by one that differs from the identity in a single column, so every exchange adds one short step to
the solution of a system. Once the exchanges outweigh the factors, the matrix is factored anew.
-/

namespace Multipath.Linear

/-- An exchange of the basic column of a row. The entries are those of the new column in terms of
the basis, divided by the one in that row, and in that row itself what it takes to turn that one
into a 1. -/
structure Exchange where
  row : Nat
  entries : List (Nat × Float)
deriving Repr, Inhabited

/-- The matrix of a basis. -/
structure Basis where
  size : Nat
  factors : Factors
  transposed : Factors
  /-- What was exchanged since the matrix was factored, the last exchange first. -/
  exchanges : List Exchange
deriving Repr, Inhabited

namespace Basis

/-- The basis with these columns, if it is one. -/
def ofColumns? (columns : Columns) : Option Basis := do
  let factors ← Factors.ofColumns? columns
  return ⟨columns.size, factors, factors.transpose, []⟩

/-- Takes an exchange into account in the solution of a system. -/
def Exchange.apply (x : Sparse) (e : Exchange) : Sparse :=
  let value := x.get e.row
  e.entries.foldl (fun x (i, entry) => x.subtract i (value * entry)) x

/-- Takes an exchange into account in the solution of a transposed system. -/
def Exchange.applyTransposed (x : Sparse) (e : Exchange) : Sparse :=
  x.subtract e.row (e.entries.foldl (fun sum (i, entry) => sum + entry * x.get i) 0.0)

/-- Solves a system with the matrix. -/
def solve (b : Basis) (entries : List (Nat × Float)) : Sparse :=
  b.exchanges.reverse.foldl Exchange.apply (b.factors.solve (.ofEntries b.size entries))

/-- Solves a system with the transposed matrix. -/
def solveTransposed (b : Basis) (entries : List (Nat × Float)) : Sparse :=
  b.transposed.solve (b.exchanges.foldl Exchange.applyTransposed (.ofEntries b.size entries))

/-- Whether the exchanges outweigh the factors. -/
def isWorn (b : Basis) : Bool :=
  b.factors.weight ≤ b.exchanges.foldl (fun n e => n + e.entries.length) 0

/-- Exchanges the basic column of a row for a new one, which is given in terms of the basis. -/
def exchange (b : Basis) (row : Nat) (pivot : Float) (column : List (Nat × Float)) : Basis :=
  let entries := column.map fun (i, entry) =>
    (i, if i = row then 1.0 - 1.0 / pivot else entry / pivot)
  { b with exchanges := ⟨row, entries⟩ :: b.exchanges }

end Basis

end Multipath.Linear
