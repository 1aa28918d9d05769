/-!
# Linear programs over the unit box

A program asks for numbers between 0 and 1, one for each of its unknowns, that obey some linear
bounds and have the greatest possible sum. It can be stated in different kinds of numbers: in
rationals it says exactly what it says, in doubles it can be handed to a numerical solver.

* `Program.Feasible`: what a solution has to obey.
* `Program.IsOptimal`: a feasible solution that no other one beats.
* `Program.IsVertex`: a feasible solution that is no midpoint between two others.
* `Solver`: anything that claims to find an optimum.
-/

namespace Multipath.Linear

/-- The weighted sum of some unknowns is at most `bound`. -/
structure Constraint (ι α : Type) where
  terms : List (ι × α)
  bound : α
deriving Repr, Inhabited

/-- A linear program. Each of the unknowns lies between 0 and 1; their sum is to be maximal. -/
structure Program (ι α : Type) where
  unknowns : List ι
  constraints : List (Constraint ι α)
deriving Repr, Inhabited

/-- The weighted sum on the left of a constraint. -/
def Constraint.weight {ι : Type} (c : Constraint ι Rat) (x : ι → Rat) : Rat :=
  c.terms.foldr (fun t sum => t.2 * x t.1 + sum) 0

namespace Program

variable {ι : Type}

/-- The sum to be maximised. -/
def value (p : Program ι Rat) (x : ι → Rat) : Rat := p.unknowns.foldr (fun v sum => x v + sum) 0

/-- The numbers lie in the unit box and obey every constraint. -/
structure Feasible (p : Program ι Rat) (x : ι → Rat) : Prop where
  nonneg : ∀ v ∈ p.unknowns, 0 ≤ x v
  le_one : ∀ v ∈ p.unknowns, x v ≤ 1
  bounded : ∀ c ∈ p.constraints, c.weight x ≤ c.bound

/-- No feasible solution has a greater sum. -/
structure IsOptimal (p : Program ι Rat) (x : ι → Rat) : Prop where
  feasible : p.Feasible x
  greatest : ∀ y, p.Feasible y → p.value y ≤ p.value x

/-- A feasible solution that is the midpoint of two feasible solutions only if both agree with it
on the program's unknowns. -/
structure IsVertex (p : Program ι Rat) (x : ι → Rat) : Prop where
  feasible : p.Feasible x
  extreme : ∀ y z, p.Feasible y → p.Feasible z →
    (∀ v ∈ p.unknowns, 2 * x v = y v + z v) → ∀ v ∈ p.unknowns, y v = x v

end Program

/-- What a solver says about a program. -/
inductive Verdict (ι α : Type) where
  /-- These numbers are an optimum. -/
  | optimal (solution : ι → α)
  /-- Nothing obeys the constraints. -/
  | infeasible
  /-- There is no greatest sum. -/
  | unbounded
  /-- The solver gave up. -/
  | unfinished

/-- A method of solving programs. -/
abbrev Solver (ι α : Type) := Program ι α → Verdict ι α

end Multipath.Linear
