import Multipath.Path.Set

/-!
# What the learned policy sees

The agent decides between the two lowest-numbered additional paths. It is shown a state vector
of six normalised numbers, and in training it is told how well things go.

* `Observation.ofPaths?`: the state, the reward so far and the two candidates.
* `Violation.find?`: why a training episode has to stop.
* `Reward.progress`, `Reward.final`: the rewards during an episode and at its end.
-/

namespace Multipath

/-- The state shown to the agent, for the two candidates in order. -/
structure StateVector where
  firstRtt : Float
  secondRtt : Float
  firstWindow : Float
  secondWindow : Float
  firstUtilization : Float
  secondUtilization : Float
deriving DecidableEq, Repr, Inhabited

namespace StateVector

/-- The entries in the order in which the agent reads them. -/
def toList (v : StateVector) : List Float :=
  [v.firstRtt, v.secondRtt, v.firstWindow, v.secondWindow, v.firstUtilization,
    v.secondUtilization]

/-- The number of entries. -/
def width : Nat := 6

/-- A round-trip time in units of 150 milliseconds. -/
def normalizeRtt (rtt : Duration) : Float := rtt.seconds / (Duration.ofMillis 150).seconds

/-- A congestion window in units of 300 segments. -/
def normalizeWindow (window : ByteCount) : Float :=
  window.toFloat / defaultSegmentSize.toFloat / 300.0

/-- The state of two candidates. -/
def ofTelemetry (a b : Telemetry) : StateVector where
  firstRtt := normalizeRtt a.rtt
  secondRtt := normalizeRtt b.rtt
  firstWindow := normalizeWindow a.window
  secondWindow := normalizeWindow b.window
  firstUtilization := a.utilization
  secondUtilization := b.utilization

end StateVector

/-! ### Rewards -/

namespace Reward

/-- The reward for an episode that is cut short. -/
def penalty : Float := -100.0

/-- The goodput so far, in units of 35 megabits per second. -/
def progress (bytes : ByteCount) (elapsed : Duration) : Float :=
  let seconds := elapsed.seconds
  if seconds ≤ 0.0 then 0.0
  else bytes.toFloat * 8.0 / 1024.0 / 1024.0 / seconds / 35.0

/-- The best goodput known for round-trip times up to a bound, in megabits per second. -/
def goodputTable : List (Duration × Float) :=
  [(.ofMillis 10, 40.0), (.ofMillis 25, 30.0), (.ofMillis 50, 20.0), (.ofMillis 100, 10.0),
    (.ofMillis 250, 5.0)]

/-- The best goodput known for a round-trip time. -/
def referenceGoodput (rtt : Duration) : Float :=
  match goodputTable.find? (rtt ≤ ·.1) with
  | some entry => entry.2
  | none => 2.5

/-- The reward at the end of an episode: the goodput of a transfer of eight megabits, relative to
the best goodput known for the connection's worst round-trip time. -/
def final (elapsed worstRtt : Duration) : Float :=
  let seconds := elapsed.seconds
  if seconds ≤ 0.0 then 5.0
  else 5.0 * (8.0 / seconds) / referenceGoodput worstRtt

end Reward

/-! ### Observations -/

/-- What a decision is based on. -/
structure Observation where
  state : StateVector
  /-- The reward for what the candidates have achieved so far. -/
  reward : Float
  first : Path
  second : Path

namespace Observation

/-- The view on the two lowest-numbered additional paths, if there are two. -/
def ofPaths? (paths : PathSet) (elapsed : Duration) : Option Observation :=
  match paths.additional with
  | a :: b :: _ =>
    some
      { state := .ofTelemetry a.telemetry b.telemetry
        reward := Reward.progress (a.sent.bytes + b.sent.bytes) elapsed
        first := a
        second := b }
  | _ => none

/-- The candidate an action stands for: 1 means the second, anything else the first. -/
def candidate (o : Observation) (action : Nat) : Path := if action = 1 then o.second else o.first

end Observation

/-! ### Violations -/

/-- Why a training episode has to stop. -/
inductive Violation where
  /-- The handshake took too many packets. -/
  | slowHandshake (packets : Nat)
  /-- The candidates are not free of retransmissions and losses. -/
  | unreliable (retransmissions losses : Nat)
deriving DecidableEq, Repr, Inhabited

namespace Violation

/-- The number of packets on the initial path that a handshake may take. -/
def maxInitialPackets : Nat := 20

/-- The wording of a violation. -/
def message : Violation → String
  | slowHandshake packets => "handshake needed " ++ toString packets ++ " packets"
  | unreliable retransmissions losses =>
      toString retransmissions ++ " retransmissions and " ++ toString losses
        ++ " losses on tracked paths"

/-- The violation by a connection whose candidates are `a` and `b`, if any. -/
def find? (paths : PathSet) (a b : Path) : Option Violation :=
  let handshake := ((paths.get? .initial).map (·.sent.packets)).getD 0
  let retransmissions := a.sent.retransmissions + b.sent.retransmissions
  let losses := a.sent.losses + b.sent.losses
  if maxInitialPackets < handshake then some (slowHandshake handshake)
  else if 0 < retransmissions ∨ 0 < losses then some (unreliable retransmissions losses)
  else none

end Violation

end Multipath
