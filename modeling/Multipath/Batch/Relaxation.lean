import Multipath.Error
import Multipath.Linear.Number
import Multipath.Linear.Program

/-!
# The relaxed assignment

A batch of packets, each with a deadline, is to be spread over paths, each with a delay and a
capacity. The relaxation allows a packet to be split: the share of packet `i` on path `j` is the
unknown `(i, j)` of a linear program, and exists only if the packet can make its deadline on the
path.

* The shares of a packet add up to at most 1, those on a path to at most its capacity.
* With a budget, the shares weighted with the costs of their paths add up to at most the budget.
* A bound on no shares at all is left out.
* The sum of all shares, the number of packets sent in time, is to be as great as possible.

The program can be stated in any kind of numbers: exactly, or in doubles for a numerical solver.
-/

namespace Multipath

/-- What packets cost on each path, and how much a batch may cost. -/
structure CostBudget where
  /-- By path; a path past the end is free. -/
  costs : List Float
  budget : Float
deriving Repr, Inhabited

/-- The shares of the packets, by packet and path. -/
abbrev Relaxation (α : Type) := List (List α)

/-- Whether a packet with this deadline can make it over a path with this delay. -/
def satisfies (deadline delay : Float) : Bool := delay ≤ deadline

namespace Relaxation

open Linear

/-- A packet and a path, by their places in the batch and among the paths. -/
abbrev Pair := Nat × Nat

/-- What the program is built from. -/
structure Input where
  deadlines : List Float
  delays : List Float
  /-- By path; a path past the end has no limit. -/
  capacities : List UInt64
  cost : Option CostBudget
deriving Repr, Inhabited

namespace Input

/-- Whether packet `i` can make its deadline on path `j`. -/
def pairs (input : Input) : List Pair :=
  input.deadlines.zipIdx.flatMap fun (deadline, i) =>
    input.delays.zipIdx.filterMap fun (delay, j) =>
      if satisfies deadline delay then some (i, j) else none

variable {α : Type} [Number α]

/-- The shares of packet `i` add up to at most 1. -/
def packetRow (input : Input) (i : Nat) : Constraint Pair α :=
  ⟨(input.pairs.filter (·.1 == i)).map (·, Number.one), Number.one⟩

/-- The shares on path `j` add up to at most its capacity. -/
def pathRow (input : Input) (j : Nat) (capacity : UInt64) : Constraint Pair α :=
  ⟨(input.pairs.filter (·.2 == j)).map (·, Number.one), Number.ofWord capacity⟩

/-- The shares, weighted with the costs of their paths, add up to at most the budget. -/
def costRow (input : Input) (cost : CostBudget) : Constraint Pair α :=
  ⟨input.pairs.map fun p => (p, Number.ofFloat (cost.costs.getD p.2 0.0)),
    Number.ofFloat cost.budget⟩

/-- The bounds on the packets, on the paths and on the costs. -/
def rows (input : Input) : List (Constraint Pair α) :=
  ((List.range input.deadlines.length).map input.packetRow
    ++ (input.capacities.take input.delays.length).zipIdx.map
      fun (capacity, j) => input.pathRow j capacity)
    ++ (input.cost.map input.costRow).toList

/-- The linear program of an input. -/
def program (input : Input) : Program Pair α where
  unknowns := input.pairs
  constraints := input.rows.filter fun row => !row.terms.isEmpty

/-- Shares as a matrix; a pair without an unknown has none. -/
def matrix (input : Input) (x : Pair → α) : Relaxation α :=
  input.deadlines.zipIdx.map fun (deadline, i) =>
    input.delays.zipIdx.map fun (delay, j) =>
      if satisfies deadline delay then x (i, j) else Number.zero

end Input

/-- The relaxed assignment. If no packet can make it anywhere there is nothing to solve. -/
def solve {α : Type} [Number α] (solver : Solver Pair α) (input : Input) :
    Except Error (Relaxation α) :=
  if input.pairs.isEmpty then .ok (input.matrix fun _ => Number.zero)
  else
    match solver input.program with
    | .optimal x => .ok (input.matrix x)
    | .infeasible => .error (.linearProgram "problem is infeasible")
    | .unbounded => .error (.linearProgram "problem is unbounded")
    | .unfinished => .error (.linearProgram "solver gave up")

/-- Shares as doubles. -/
def toFloats {α : Type} [Number α] (r : Relaxation α) : List (List Float) :=
  r.map fun row => row.map Number.toFloat

end Relaxation

end Multipath
