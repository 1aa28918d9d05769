import Multipath.Batch.Rounding
import Multipath.Scheduler.Selection

/-!
# Assigning batches

Maps a batch of packets, given by their deadlines in milliseconds, to paths in one decision.

* `assign`: the path of each packet. Only a batch that cannot be sent at all has no assignment.
* `PathSet.hasRoom`: the windows have room for a batch of this size.
* `defer`, `takeDeadlines`: packets put off to a later batch join the next one, with the time
  that is left to them.
-/

namespace Multipath

/-- The path of each packet; `none` puts the packet off. -/
abbrev Assignment := List (Option PathId)

namespace PathSet

/-- The paths a batch may use: additional ones whose windows are not overcommitted. -/
def usable (paths : PathSet) : List Path := paths.additional.filter (·.isCommitted)

/-- Whether the windows of the usable paths have room for this many packets. -/
def hasRoom (paths : PathSet) (packets : Nat) : Bool :=
  let room : UInt64 := paths.usable.foldr (fun p sum => p.telemetry.remainingPackets + sum) 0
  packets ≤ room.toNat

end PathSet

namespace Scheduler

open Linear Relaxation

/-- The delay a packet is expected to have on a path. -/
def expectedDelay (s : Scheduler) (p : Path) : Float :=
  if s.batch.scalesDelays then p.telemetry.oneWayDelay * p.telemetry.alpha
  else p.telemetry.oneWayDelay

/-- The linear program's input for a batch on these paths. -/
def relaxationInput (s : Scheduler) (usable : List Path) (deadlines : List Float) : Input where
  deadlines
  delays := usable.map s.expectedDelay
  capacities := usable.map (·.telemetry.remainingPackets)
  cost :=
    if s.batch.limitsCost then some ⟨usable.map (s.batch.costOf ·.id), s.batch.budget⟩
    else none

/-- Assigns a batch by linear programming. A program without a solution puts every packet off. -/
def assignLinear {α : Type} [Number α] (s : Scheduler) (solver : Solver Pair α) (paths : PathSet)
    (deadlines : List Float) : Option Assignment × Scheduler :=
  match paths.usable with
  | [] => (none, s)
  | usable =>
    let (result, draws) := Policy.solve solver (s.relaxationInput usable deadlines) s.draws
    let policy : Policy := match result with
      | .ok policy => policy
      | .error _ => deadlines.map fun _ => none
    (some (policy.map fun choice => choice.bind fun j => usable[j]?.map (·.id)), { s with draws })

/-- Assigns the packets in order of their deadlines, each to the path that is fastest then. -/
def assignByDeadline (s : Scheduler) (paths : PathSet) (deadlines : List Float)
    (demand : Demand) : Assignment :=
  let order := Ranking.rank (fun deadline => -Binary.orderKey deadline.1) deadlines.zipIdx
  let chosen := order.map fun (_, i) => (i, s.lowestRtt paths demand)
  (List.range deadlines.length).map fun i => (chosen.find? (·.1 == i)).bind (·.2)

/-- Assigns a batch. With a single path there is no choice. -/
def assign {α : Type} [Number α] (s : Scheduler) (solver : Solver Pair α) (paths : PathSet)
    (deadlines : List Float) (demand : Demand) : Option Assignment × Scheduler :=
  if paths.size ≤ 1 then
    ((paths.single demand.retransmission).map fun id => deadlines.map fun _ => some id, s)
  else
    match s.batch.strategy with
    | .linOpt => s.assignLinear solver paths deadlines
    | .earliestDeadlineFirst => (some (s.assignByDeadline paths deadlines demand), s)
    | .firstPath => (paths.firstAvailable.map fun id => deadlines.map fun _ => some id, s)

/-- What an assignment costs, packet by packet. -/
def costOf (s : Scheduler) (assignment : Assignment) : Float :=
  (assignment.filterMap id).foldl (fun sum id => sum + s.batch.costOf id) 0.0

/-! ### Deadlines -/

/-- Puts a packet off; its deadline joins the next batch. -/
def defer (s : Scheduler) (deadline : Instant) : Scheduler :=
  { s with waiting := s.waiting ++ [deadline] }

/-- The milliseconds left until a deadline; negative once it is past. -/
def millisLeft (deadline now : Instant) : Float :=
  if now ≤ deadline then (deadline.since now).millis else -(now.since deadline).millis

/-- The deadlines of a batch: fresh ones, and then those put off before, which are put off no
longer. -/
def takeDeadlines (s : Scheduler) (fresh : List Float) (now : Instant) :
    List Float × Scheduler :=
  (fresh ++ s.waiting.map (millisLeft · now), { s with waiting := [] })

/-- A whole number of milliseconds between the bounds of the settings; the upper bound is drawn
only if it is the lower one as well. -/
def drawDeadline (batch : BatchConfig) (draws : Draws) : Float × Draws :=
  let least := batch.minDeadline.wholeMillis
  let greatest := batch.maxDeadline.wholeMillis
  if greatest ≤ least then (least.toFloat, draws)
  else
    let (n, draws) := draws.below (greatest - least).toNat
    ((least + UInt64.ofNat n).toFloat, draws)

/-- The deadlines of a batch of a given size, of which as many are drawn as those put off before
leave over. -/
def drawDeadlines (s : Scheduler) (size : Nat) (now : Instant) : List Float × Scheduler :=
  let (fresh, draws) := Draws.times (size - s.waiting.length) (drawDeadline s.batch) s.draws
  { s with draws }.takeDeadlines fresh now

end Scheduler

end Multipath
