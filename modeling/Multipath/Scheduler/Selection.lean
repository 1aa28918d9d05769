import Multipath.Scheduler.Basic

/-!
# Selecting a path

Which path the next packet goes out on. With a single path there is no choice; otherwise the
strategy decides, and the initial path is left to the handshake.

* `roundRobin`: the path that has carried the fewest packets, the lowest of several.
* `lowestRtt`: the fastest measured path; among paths that are all unmeasured, the one that has
  carried the fewest packets, the highest of several.
* `random`: any path that may send, or is overcommitted within the allowed margin.
* `firstAvailable`: the first additional path, if it may send.
* `learned`: the candidate picked by the agent, when there is something to decide.

Roaming over the paths in ascending order, `champion` keeps the best one so far; the strategies
differ in when a later path displaces it.
-/

namespace Multipath

/-- What the next packet will carry. -/
structure Demand where
  /-- Packets were taken back to be sent again, so a path that may not send is acceptable. -/
  retransmission : Bool := false
  /-- Pieces of streams wait to be sent again. -/
  stream : Bool := false
  /-- The path from which a packet was last taken back. -/
  origin : Option Path := none

/-- The last element that displaced the one before it, starting from the first. -/
def champion {α : Type} (displaces : α → α → Bool) : List α → Option α
  | [] => none
  | a :: rest => some (rest.foldl (fun best b => if displaces b best then b else best) a)

namespace Path

/-- The path may carry a packet of this kind. -/
def serves (p : Path) (retransmission : Bool) : Bool := retransmission || p.sendingAllowed

/-- The path is an additional one that is not suspected to have failed, and may carry a packet
of this kind. -/
def isEligible (p : Path) (retransmission : Bool) : Bool :=
  !p.isInitial && !p.suspect && p.serves retransmission

/-- The path's window is used up exactly, or overcommitted by at most `margin` of its size. -/
def isOvercommittedWithin (p : Path) (margin : Float) : Bool :=
  let spare := Float.ofInt p.telemetry.spareWindow.toInt
  spare ≤ 0.0 && -p.telemetry.window.toFloat * margin ≤ spare

end Path

namespace PathSet

/-- The choice while there is only the initial path. -/
def single (paths : PathSet) (retransmission : Bool) : Option PathId :=
  match paths.get? .initial with
  | some p => if p.serves retransmission then some p.id else none
  | none => none

/-- The first additional path, if it may send. -/
def firstAvailable (paths : PathSet) : Option PathId :=
  match paths.get? .primary with
  | some p => if p.sendingAllowed then some p.id else none
  | none => none

end PathSet

namespace Scheduler

/-- No path is chosen by its quota once it has carried this many packets. -/
def quotaCeiling : Nat := 18446744073709551615

/-- Of two eligible paths, the later displaces the earlier if it has carried fewer packets. -/
def roundRobin (s : Scheduler) (paths : PathSet) (retransmission : Bool) : Option PathId :=
  (champion (fun p best => s.quota p.id < s.quota best.id)
    (paths.toList.filter fun p => p.isEligible retransmission && s.quota p.id < quotaCeiling)).map
    (·.id)

/-- An unmeasured path does not displace a measured one, but is displaced by any. Among measured
paths it takes a lower round-trip time; among unmeasured ones, a quota that is not higher. -/
def isFaster (s : Scheduler) (p best : Path) : Bool :=
  if p.isMeasured then !best.isMeasured || p.rtt < best.rtt
  else !best.isMeasured && s.quota p.id ≤ s.quota best.id

/-- A piece of a stream that comes back from an unmeasured path goes to the first other path that
has carried fewer packets. -/
def spread (s : Scheduler) (paths : PathSet) (demand : Demand) : Option PathId :=
  if demand.retransmission && demand.stream then
    match demand.origin with
    | some origin =>
      if origin.isMeasured then none
      else
        (paths.toList.find? fun p =>
          !p.isInitial && p.id != origin.id && s.quota p.id < s.quota origin.id).map (·.id)
    | none => none
  else none

/-- The fastest eligible path, unless a returned piece of a stream is spread. -/
def lowestRtt (s : Scheduler) (paths : PathSet) (demand : Demand) : Option PathId :=
  match s.spread paths demand with
  | some id => some id
  | none =>
    (champion s.isFaster (paths.toList.filter (·.isEligible demand.retransmission))).map (·.id)

/-- The additional paths the random strategy chooses from. -/
def roomy (s : Scheduler) (paths : PathSet) (retransmission : Bool) : List Path :=
  let margin := s.config.allowedCongestion.toUInt64.toFloat * 0.01
  paths.additional.filter fun p => p.serves retransmission || p.isOvercommittedWithin margin

/-- One draw picks one of the roomy paths; without any, nothing is drawn. -/
def random (s : Scheduler) (paths : PathSet) (retransmission : Bool) :
    Option PathId × Scheduler :=
  match s.roomy paths retransmission with
  | [] => (none, s)
  | p :: rest =>
    let (i, draws) := s.draws.below (rest.length + 1)
    (some ((p :: rest).getD i p).id, { s with draws })

/-! ### The learned policy -/

/-- Asks the agent about an observation, and keeps the decision: for the agent when it is being
trained, for the recorder otherwise. -/
def consult (s : Scheduler) (agent : Agent) (o : Observation) : PathId × Scheduler :=
  let action := agent.policy s.journal.agentCalls o.state
  let s := s.note (.agent (.select o.state action))
  let s :=
    if s.config.training then
      s.note (.agent (.outcome s.connection o.reward o.state action))
    else
      { s with recorder := s.recorder.map (·.add s.connection ⟨o.state, action⟩) }
  let chosen := (o.candidate action).id
  (chosen, { s with lastDecision := some (o.state, chosen) })

/-- Two paths leave one candidate, which is taken. With more, the agent decides if at least two
additional paths may send; a single one is taken, and without any the initial path serves. In
training, a violation ends the episode instead. Without an agent the fastest path is taken. -/
def learned (s : Scheduler) (paths : PathSet) (demand : Demand) (now : Instant) :
    Except Error (Option PathId) × Scheduler :=
  if paths.size = 2 then (.ok (paths.additional.head?.map (·.id)), s)
  else
    match paths.additional.filter (·.sendingAllowed) with
    | [] => (.ok (paths.single demand.retransmission), s)
    | [only] => (.ok (some only.id), s)
    | first :: _ =>
      match Observation.ofPaths? paths (now.since s.start), s.agent with
      | none, _ => (.ok (some first.id), s)
      | some _, none => (.ok (s.lowestRtt paths demand), s)
      | some o, some agent =>
        match s.config.training, Violation.find? paths o.first o.second with
        | true, some violation =>
          (.error (.zeroTolerance violation.message), s.endEpisode Reward.penalty)
        | _, _ =>
          let (chosen, s) := s.consult agent o
          (.ok (some chosen), s)

/-! ### Selection -/

/-- Selects the path for the next packet. -/
def select (s : Scheduler) (paths : PathSet) (demand : Demand) (now : Instant) :
    Except Error (Option PathId) × Scheduler :=
  if paths.size ≤ 1 then (.ok (paths.single demand.retransmission), s)
  else
    match s.config.strategy with
    | .roundRobin => (.ok (s.roundRobin paths demand.retransmission), s)
    | .lowestRtt => (.ok (s.lowestRtt paths demand), s)
    | .random =>
      let (chosen, s) := s.random paths demand.retransmission
      (.ok chosen, s)
    | .firstAvailable => (.ok paths.firstAvailable, s)
    | .learnedPolicy => s.learned paths demand now

end Scheduler

end Multipath
