/-!
# Sparse vectors

A vector of which only some places are in use; elsewhere it is zero. It remembers the order in
which its places came into use, and whoever goes through its entries follows that order.
-/

namespace Multipath.Linear

/-- A vector of doubles with few entries. -/
structure Sparse where
  /-- The value at each place, zero where no place is in use. -/
  values : Array Float
  /-- Whether a place is in use. -/
  used : Array Bool
  /-- The places in use, in the order in which they came into use. -/
  places : Array Nat
deriving Repr, Inhabited

namespace Sparse

/-- A vector of length `n` without entries. -/
def empty (n : Nat) : Sparse := ⟨Array.replicate n 0.0, Array.replicate n false, #[]⟩

/-- The value at a place. -/
def get (x : Sparse) (i : Nat) : Float := x.values.getD i 0.0

/-- Brings a place into use. -/
def touch : Sparse → Nat → Sparse
  | ⟨values, used, places⟩, i =>
    if used.getD i true then ⟨values, used, places⟩
    else ⟨values, used.setIfInBounds i true, places.push i⟩

/-- Changes the value at a place, which is in use from then on. -/
def change (x : Sparse) (i : Nat) (f : Float → Float) : Sparse :=
  match x.touch i with
  | ⟨values, used, places⟩ => ⟨values.modify i f, used, places⟩

/-- Puts a value in a place. -/
def set (x : Sparse) (i : Nat) (value : Float) : Sparse := x.change i fun _ => value

/-- Adds to the value at a place. -/
def add (x : Sparse) (i : Nat) (amount : Float) : Sparse := x.change i (· + amount)

/-- Takes from the value at a place. -/
def subtract (x : Sparse) (i : Nat) (amount : Float) : Sparse := x.change i (· - amount)

/-- The places in use with their values. -/
def entries (x : Sparse) : List (Nat × Float) := x.places.toList.map fun i => (i, x.get i)

/-- The vector of length `n` with these entries. -/
def ofEntries (n : Nat) (entries : List (Nat × Float)) : Sparse :=
  entries.foldl (fun x (i, value) => x.set i value) (empty n)

/-- The vector with its places renumbered. -/
def relabel (x : Sparse) (label : Array Nat) : Sparse :=
  ofEntries x.values.size (x.entries.map fun (i, value) => (label.getD i 0, value))

/-- The sum of the squares of some values. -/
def squareNorm (entries : List (Nat × Float)) : Float :=
  entries.foldl (fun sum (_, value) => sum + value * value) 0.0

end Sparse

end Multipath.Linear
