import Multipath.Linear.Basis
import Multipath.Linear.Program

/-!
# The dual simplex method

Solves a linear program in doubles. Every unknown starts at 1, so no sum could be greater, and
every constraint has a slack, which starts in the basis. As long as some basic unknown is out of
its bounds, one that is goes to its bound and leaves the basis, and another unknown enters that
makes up for it at the least loss. When all are within their bounds the sum is still the greatest
possible one.

* A row is the more urgent the farther its unknown is out of bounds, measured in units of the
  length of its row in the inverse of the basis; of several equally urgent ones the first is taken.
* Among the unknowns that lose least, within the tolerance, the one with the largest coefficient
  enters, which is best for the precision; of several with the same coefficient it is the one that
  the row reaches first.
* Numbers that differ by less than the tolerance count as equal. What is no number counts as within
  all bounds.
-/

namespace Multipath.Linear.DualSimplex

/-- How far off a number may be. -/
def tolerance : Float := 1e-8

/-- No bound at all. -/
def unbounded : Float := 1.0 / 0.0

/-- What an unknown, or a slack, may be. -/
structure Range where
  least : Float
  greatest : Float
deriving Repr, Inhabited

/-- The unknowns lie between 0 and 1. -/
def Range.unit : Range := ⟨0.0, 1.0⟩

/-- The slack of a constraint is not negative. -/
def Range.slack : Range := ⟨0.0, unbounded⟩

/-- A basic unknown. -/
structure Basic where
  unknown : Nat
  value : Float
  range : Range
  /-- The square of the length of its row in the inverse of the basis. -/
  squareNorm : Float
deriving Repr, Inhabited

/-- An unknown outside the basis. It rests at one of its bounds. -/
structure Resting where
  unknown : Nat
  value : Float
  atLeast : Bool
  atGreatest : Bool
  /-- By how much the sum falls as the unknown grows. -/
  loss : Float
deriving Repr, Inhabited

/-- Where an unknown is: its row in the basis, or its place among those outside. -/
inductive Position where
  | basic (row : Nat)
  | resting (place : Nat)
deriving Repr, Inhabited

/-- A step of the method has come to a basis. -/
structure State where
  /-- The coefficients of the constraints, slacks included. -/
  rows : Columns
  /-- The coefficients of the unknowns, slacks included. -/
  columns : Columns
  ranges : Array Range
  positions : Array Position
  basic : Array Basic
  resting : Array Resting
  basis : Basis
deriving Inhabited

/-! ### The start -/

/-- The coefficients of the unknowns from those of the constraints. -/
def columnsOf (unknowns : Nat) (rows : Columns) : Columns :=
  rows.toList.zipIdx.foldl (fun out (row, r) =>
    row.foldl (fun (out : Columns) (v, coefficient) => out.modify v (· ++ [(r, coefficient)])) out)
    (Array.replicate unknowns [])

/-- What the unknowns, all at 1, leave of a bound. -/
def leftOver (terms : List (Nat × Float)) (bound : Float) : Float :=
  bound - terms.foldl (fun sum (_, coefficient) => sum + coefficient * 1.0) 0.0

/-- The state in which the slacks of the constraints are basic. -/
def start? (unknowns : Nat) (constraints : List (Constraint Nat Float)) : Option State := do
  let m := constraints.length
  let rows : Columns :=
    (constraints.zipIdx.map fun (c, r) => c.terms ++ [(unknowns + r, 1.0)]).toArray
  let columns := columnsOf (unknowns + m) rows
  let basis ← Basis.ofColumns? (columns.extract unknowns (unknowns + m))
  return {
    rows, columns, basis
    ranges := Array.replicate unknowns .unit ++ Array.replicate m .slack
    positions := (Array.range unknowns).map .resting ++ (Array.range m).map .basic
    basic := (constraints.zipIdx.map fun (c, r) =>
      (⟨unknowns + r, leftOver c.terms c.bound, .slack, 1.0⟩ : Basic)).toArray
    resting := (Array.range unknowns).map fun v => ⟨v, 1.0, false, true, -1.0⟩ }

/-! ### Leaving and entering -/

/-- How far a basic unknown is out of its bounds, and the bound it has to go to. -/
def Basic.violation? (b : Basic) : Option (Float × Float) :=
  if b.value < b.range.least - tolerance then some (b.range.least - b.value, b.range.least)
  else if b.range.greatest + tolerance < b.value then
    some (b.value - b.range.greatest, b.range.greatest)
  else none

/-- A row whose unknown leaves the basis for a bound, with its urgency. -/
structure Leaving where
  row : Nat
  target : Float
  urgency : Float

/-- The most urgent row. -/
def State.leaving? (s : State) : Option Leaving :=
  s.basic.toList.zipIdx.foldl (fun best (b, row) =>
    match b.violation? with
    | none => best
    | some (distance, target) =>
      let urgency := distance * distance / b.squareNorm
      let least := match best with
        | some l => l.urgency
        | none => -unbounded
      if least < urgency then some ⟨row, target, urgency⟩ else best) none

/-- A row of the inverse of the basis. -/
def State.inverseRow (s : State) (row : Nat) : List (Nat × Float) :=
  (s.basis.solveTransposed [(row, 1.0)]).entries

/-- The coefficients of the unknowns outside the basis in a row, given by the row of the inverse. -/
def State.rowOf (s : State) (inverse : List (Nat × Float)) : Sparse :=
  inverse.foldl (fun x (r, factor) =>
    (s.rows.getD r []).foldl (fun x (v, coefficient) =>
      match s.positions[v]? with
      | some (.resting place) => x.add place (coefficient * factor)
      | _ => x) x) (.empty s.resting.size)

/-- Whether an unknown can move so that the basic unknown of a row grows, or shrinks if not
`grows`. -/
def Resting.helps (u : Resting) (grows : Bool) (coefficient : Float) : Bool :=
  if tolerance ≤ coefficient then if grows then !u.atLeast else !u.atGreatest
  else if coefficient ≤ -tolerance then if grows then !u.atGreatest else !u.atLeast
  else false

/-- How much the sum loses as an unknown moves off its bound. -/
def Resting.cost (u : Resting) : Float :=
  if (u.atLeast && u.loss < 0.0) || (u.atGreatest && 0.0 < u.loss) then 0.0 else u.loss.abs

/-- An unknown that may enter the basis. -/
structure Candidate where
  place : Nat
  coefficient : Float
  cost : Float

/-- The unknowns that may enter the basis for a row. -/
def State.candidates (s : State) (grows : Bool) (row : Sparse) : List Candidate :=
  row.entries.filterMap fun (place, coefficient) =>
    match s.resting[place]? with
    | some u => if u.helps grows coefficient then some ⟨place, coefficient, u.cost⟩ else none
    | none => none

/-- Of the candidates that cost least for what they move, the one with the largest coefficient. -/
def entering? (candidates : List Candidate) : Option Candidate :=
  let limit := candidates.foldl (fun limit c =>
    let step := (c.cost + tolerance) / c.coefficient.abs
    if step < limit then step else limit) unbounded
  candidates.foldl (fun best c =>
    let size := match best with
      | some b => b.coefficient.abs
      | none => -unbounded
    if c.cost / c.coefficient.abs ≤ limit && size < c.coefficient.abs then some c else best) none

/-! ### Exchanging -/

/-- Whether two numbers count as equal. -/
def close (a b : Float) : Bool := (a - b).abs < tolerance

/-- The basic unknowns after an exchange. `column` is the entering column in terms of the basis,
and `weights` solves the system with the row of the inverse on its right-hand side. -/
def State.moveBasic (s : State) (leaving : Leaving) (entering : Candidate)
    (inverse column : List (Nat × Float)) (weights : Sparse) (change : Float) (u : Resting) :
    Array Basic :=
  let pivot := entering.coefficient
  let norm := Sparse.squareNorm inverse
  column.foldl (fun (basic : Array Basic) (r, entry) => basic.modify r fun b =>
    if r = leaving.row then
      { unknown := u.unknown
        value := u.value + change
        range := s.ranges.getD u.unknown .unit
        squareNorm := norm / (pivot * pivot) }
    else
      { b with
        value := b.value - change * entry
        squareNorm := b.squareNorm
          + (-2.0 * entry * weights.get r / pivot + norm * entry * entry / (pivot * pivot)) })
    s.basic

/-- The unknowns outside the basis after an exchange: the one that leaves rests at its bound, and
the losses of the others in its row change. -/
def State.moveResting (s : State) (leaving : Leaving) (entering : Candidate) (row : Sparse)
    (left : Basic) : Array Resting :=
  let loss := match s.resting[entering.place]? with
    | some u => u.loss / entering.coefficient
    | none => 0.0
  let resting := row.entries.foldl (fun (resting : Array Resting) (place, coefficient) =>
    resting.modify place fun u => { u with loss := u.loss - loss * coefficient }) s.resting
  resting.setIfInBounds entering.place
    { unknown := left.unknown
      value := leaving.target
      atLeast := close leaving.target left.range.least
      atGreatest := close leaving.target left.range.greatest
      loss := -loss }

/-- How a step ended. -/
inductive Step where
  | optimal
  | infeasible
  | stuck
  | moved (s : State)

/-- Exchanges an unknown that is out of its bounds for another one. -/
def State.step (s : State) : Step :=
  match s.leaving? with
  | none => .optimal
  | some leaving =>
    let left := s.basic.getD leaving.row default
    let inverse := s.inverseRow leaving.row
    let row := s.rowOf inverse
    match entering? (s.candidates (left.value < leaving.target) row) with
    | none => .infeasible
    | some entering =>
      let u := s.resting.getD entering.place default
      let change := (left.value - leaving.target) / entering.coefficient
      let column := (s.basis.solve (s.columns.getD u.unknown [])).entries
      let basic := s.moveBasic leaving entering inverse column (s.basis.solve inverse) change u
      let basis :=
        if s.basis.isWorn then
          Basis.ofColumns? (basic.map fun b => s.columns.getD b.unknown [])
        else some (s.basis.exchange leaving.row entering.coefficient column)
      match basis with
      | none => .stuck
      | some basis =>
        .moved { s with
          basic, basis
          resting := s.moveResting leaving entering row left
          positions := (s.positions.setIfInBounds u.unknown (.basic leaving.row)).setIfInBounds
            left.unknown (.resting entering.place) }

/-- Takes at most this many steps. -/
def State.walk : Nat → State → Verdict Nat Float
  | 0, _ => .unfinished
  | steps + 1, s =>
    match s.step with
    | .optimal => .optimal fun v =>
      match s.positions[v]? with
      | some (.basic row) => (s.basic.getD row default).value
      | some (.resting place) => (s.resting.getD place default).value
      | none => 0.0
    | .infeasible => .infeasible
    | .stuck => .unfinished
    | .moved s => s.walk steps

/-! ### Programs -/

/-- Solves a program over numbered unknowns. A constraint without terms holds or does not, whatever
the unknowns are. -/
def solveNumbered (unknowns : Nat) (constraints : List (Constraint Nat Float)) :
    Verdict Nat Float :=
  let (bare, proper) := constraints.partition (·.terms.isEmpty)
  if bare.all (0.0 ≤ ·.bound) then
    match start? unknowns proper with
    | some s => s.walk (1 <<< (unknowns + proper.length))
    | none => .unfinished
  else .infeasible

/-- Solves a program. The steps are limited by the number of bases, which is never reached. -/
def solve {ι : Type} [BEq ι] (p : Program ι Float) : Verdict ι Float :=
  let constraints := p.constraints.map fun c =>
    (⟨c.terms.map fun (v, coefficient) => (p.unknowns.idxOf v, coefficient), c.bound⟩ :
      Constraint Nat Float)
  match solveNumbered p.unknowns.length constraints with
  | .optimal x => .optimal fun v => x (p.unknowns.idxOf v)
  | .infeasible => .infeasible
  | .unbounded => .unbounded
  | .unfinished => .unfinished

end Multipath.Linear.DualSimplex
