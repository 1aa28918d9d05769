import Multipath.Batch.Relaxation
import Multipath.Draws
import Multipath.Ranking

/-!
# Rounding shares to paths

A policy says for each packet on which path it goes, if on any. Two ways lead from shares to a
policy.

* `direct`: the first path with a share that counts.
* `greedy`: the path with the largest share, the first of several. A full share is taken; for a
  smaller one a coin with that probability decides between the path and dropping the packet.

Shares within a small tolerance of 0 and 1 count as none and full.
-/

namespace Multipath

/-- The path of each packet, by its place; `none` drops the packet. -/
abbrev Policy := List (Option Nat)

namespace Rounding

/-- Shares closer than this to 0 or 1 are taken for 0 or 1. -/
def tolerance : Float := 1e-9

/-- The share is more than nothing. -/
def counts (share : Float) : Bool := tolerance < share

/-- The share is as good as everything. -/
def isFull (share : Float) : Bool := 1.0 - tolerance ≤ share

/-- The first path with a share that counts. -/
def directRow (row : List Float) : Option Nat := row.findIdx? counts

/-- Each packet goes on the first path with a share that counts. -/
def direct (rows : List (List Float)) : Policy := rows.map directRow

/-- The shares of a row with their paths, the largest first and equal ones in order. -/
def ranked (row : List Float) : List (Float × Nat) :=
  Ranking.rank (fun share => Binary.orderKey share.1) row.zipIdx

/-- Goes through ranked shares to the first that is full or counts. -/
def takeRanked : List (Float × Nat) → Draws → Option Nat × Draws
  | [], draws => (none, draws)
  | (share, j) :: rest, draws =>
    if isFull share then (some j, draws)
    else if counts share then
      let (taken, draws) := draws.coin share
      (if taken then some j else none, draws)
    else takeRanked rest draws

/-- Takes the largest share of a row, for sure or by the toss of a coin. -/
def greedyRow (row : List Float) (draws : Draws) : Option Nat × Draws :=
  takeRanked (ranked row) draws

/-- Rounds row by row, with one source of draws for all. -/
def greedy : List (List Float) → Draws → Policy × Draws
  | [], draws => ([], draws)
  | row :: rows, draws =>
    let (choice, draws) := greedyRow row draws
    let (choices, draws) := greedy rows draws
    (choice :: choices, draws)

end Rounding

namespace Policy

open Linear Relaxation

/-- The policy for an input: rounded directly without a budget, greedily with one. -/
def solve {α : Type} [Number α] (solver : Solver Pair α) (input : Input) (draws : Draws) :
    Except Error Policy × Draws :=
  match Relaxation.solve solver input with
  | .error e => (.error e, draws)
  | .ok shares =>
    if input.cost.isSome then
      let (policy, draws) := Rounding.greedy shares.toFloats draws
      (.ok policy, draws)
    else (.ok (Rounding.direct shares.toFloats), draws)

end Policy

end Multipath
