import Multipath.Connection.Flush
import Multipath.Connection.Recovery

/-!
# The send loop

Sends whatever there is to send, packet by packet. Each round takes back what has to be sent
again, selects a path, attaches acknowledgement and control frames, has the packet built and
sends it. The loop ends when no path can be selected or nothing is left to send; then the paths
are flushed.

* A handshake packet that was taken back goes out as it is, and takes the round.
* A packet sent on an unmeasured path is hedged: if another path that may send has carried fewer
  packets, a copy is queued, for the next round to move there.
* The window updates due at the start are queued before the first round, and a second time for
  the path of the first packet that the loop builds and sends.
* `send` runs at most a given number of rounds and says whether the loop came to its end.
-/

namespace Multipath

/-- How a run of the send loop ended. -/
inductive SendOutcome where
  /-- There is nothing more to send. -/
  | finished
  /-- The allowed number of rounds was used up. -/
  | outOfRounds
deriving DecidableEq, Repr, Inhabited

namespace Connection

variable {σ : Type} (S : Session σ)

/-! ### The steps of a round -/

/-- Selects the path for the next packet. Where a training episode must stop, the connection is
closed. -/
def choose (demand : Demand) : Act σ (Option PathId) := do
  let c ← get
  let (result, scheduler) := c.scheduler.select c.paths demand (S.now c.session)
  set { c with scheduler }
  match result with
  | .ok chosen => return chosen
  | .error e =>
    match e with
    | .zeroTolerance _ => close S e
    | _ => pure ()
    throw e

/-- Sends a handshake packet again. -/
def resendHandshake (id : PathId) (lost : Packet) : Act σ Unit := do
  queueStopWaiting S id true
  let packet ← packHandshake S id lost
  transmit S id packet

/-- Queues for a path its acknowledgement if one is due, a stop-waiting notice if there is need
for one, and the pending frames about paths and addresses. -/
def attachControl (id : PathId) (hasReturnedStreams : Bool) : Act σ Unit := do
  let c ← get
  let frame ← takeAck id (S.now c.session)
  match frame with
  | some frame => queue S (some id) (.ack frame)
  | none => pure ()
  if frame.isSome || hasReturnedStreams then
    queueStopWaiting S id hasReturnedStreams
  let frames ← takePathControl S
  frames.forM (queue S (some id))

/-- What follows from the last packet of a stream: a training episode ends, with a reward for the
whole transfer, or the recorded decisions are written. A record that cannot be written is lost. -/
def finishStream : Act σ Unit := do
  let c ← get
  let s := c.scheduler
  if s.isLearning then
    if s.config.training then
      let worst := (c.paths.toList.map (·.rtt)).foldl Duration.longer .zero
      let reward := Reward.final ((S.now c.session).since s.start) worst
      set { c with scheduler := s.endEpisode reward }
    else
      let recorder := s.recorder.map fun r => (Recorder.close r s.connection).2
      set { c with scheduler := { s with recorder } }

/-- Builds and sends the next packet of a path, if there is anything to send. -/
def sendNext (updates : List WindowUpdate) (id : PathId) : Act σ (Option Packet) := do
  let c ← get
  if (c.path id).telemetry.retransmittableDue then queue S (some id) .ping
  match ← pack S id with
  | none => return none
  | some packet =>
    transmit S id packet
    queueUpdates S (some id) updates
    modify fun c => { c with scheduler := c.scheduler.bumpQuota id }
    packet.finishedStreams.forM fun _ => finishStream S
    return some packet

/-- A full record of sent packets ends a training episode. -/
def endEpisodeOnOverflow (e : Error) : Act σ Unit :=
  modify fun c =>
    if e = .tooManyTrackedPackets ∧ c.scheduler.isLearning ∧ c.scheduler.config.training then
      { c with scheduler := c.scheduler.endEpisode Reward.penalty }
    else c

/-- Whether a packet just sent on path `id` is worth a copy: the path is unmeasured, and another
additional path that may send has carried fewer packets. -/
def needsHedge (c : Connection σ) (id : PathId) : Bool :=
  !(c.path id).isMeasured
    && c.paths.toList.any fun p =>
      !p.isInitial && p.id != id && c.scheduler.quota p.id < c.scheduler.quota id
        && p.sendingAllowed

/-- Queues a copy of a packet just sent, if it needs one. -/
def hedge (id : PathId) (packet : Packet) : Act σ Unit := do
  let c ← get
  if c.needsHedge id then
    updatePath id (·.queueCopy packet)
    note (.hedged id packet)

/-- Asks for a sign of life on the path the last packet was taken from, if it may have failed. -/
def probe : Option PathId → Act σ Unit
  | some origin => do
    let c ← get
    if (c.path origin).suspect then ping S origin
  | none => pure ()

/-! ### The loop -/

/-- One round, with the window updates that are still to be queued a second time. The answer is
`none` at the end of the loop, and otherwise the updates for the next round. -/
def sendRound (updates : List WindowUpdate) : Act σ (Option (List WindowUpdate)) := do
  let recovery ← takeBack S
  let c ← get
  let hasReturnedStreams := S.hasReturnedStreams c.session
  let chosen ← choose S
    { retransmission := recovery.any
      stream := hasReturnedStreams
      origin := recovery.origin.map c.path }
  match chosen, recovery.handshake with
  | none, _ =>
    let due ← askUpdates S false
    flush S due
    return none
  | some id, some lost =>
    resendHandshake S id lost
    return some updates
  | some id, none =>
    attachControl S id hasReturnedStreams
    match ← onError (sendNext S updates id) endEpisodeOnOverflow with
    | none =>
      flush S []
      return none
    | some packet =>
      hedge id packet
      probe S recovery.origin
      return some []

/-- Runs at most `n` rounds. -/
def sendRounds : Nat → List WindowUpdate → Act σ SendOutcome
  | 0, _ => return .outOfRounds
  | n + 1, updates => do
    match ← sendRound S updates with
    | none => return .finished
    | some updates => sendRounds n updates

/-- Sends everything there is to send, in at most `n` rounds. -/
def send (n : Nat) : Act σ SendOutcome := do
  modify fun c => { c with paths := c.paths.updateAll Path.publish }
  let updates ← askUpdates S false
  queueUpdates S none updates
  sendRounds S n updates

end Connection

end Multipath
