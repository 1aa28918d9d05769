import Multipath.Receiver.History

/-!
# The receiving side of a path

A `Receiver` remembers which packets have arrived on a path and decides when the next
acknowledgement is due. Two things can make it due: a queued acknowledgement goes out with the
next packet, an alarm makes one due later. Queueing always disarms the alarm, so at most one of
the two is in force.

* `receive`: takes in a packet. Duplicates and packets at or below the floor change nothing,
  and neither does a packet that is refused.
* `ack`: the acknowledgement, if one is due; it covers everything received above the floor.
* `closePath`: the same summary for a path that is being closed.
* `judge`: compares a packet's deadline with its arrival, and counts the outcome once for the
  next acknowledgement and once for the path's lifetime.
* `raiseFloor`: packets up to the new floor are neither acknowledged nor taken in any more.

The counts that go out with an acknowledgement stop at the end of their 16 bits. The other counts
have no end here; each of them grows by at most one with a call, so a word of 64 bits holds it for
the first `2 ^ 64 - 1` calls.
-/

namespace Multipath

/-- What governs the next acknowledgement of a path. -/
inductive AckTrigger where
  /-- None is due. -/
  | idle
  /-- One goes out with the next packet. -/
  | queued
  /-- One is due from `time` on. -/
  | alarm (time : Instant)
deriving DecidableEq, Repr, Inhabited

/-- How a packet's deadline compares with its arrival. -/
inductive DeadlineOutcome where
  | noDeadline
  | met
  | missed
deriving DecidableEq, Repr, Inhabited

/-- What has arrived on a path over its lifetime. -/
structure ReceiveStatistics where
  /-- Packets taken in: new, and above the floor. -/
  packets : Nat
  /-- Packets that carried a deadline. -/
  withDeadline : Nat
  /-- Packets that arrived before their deadline. -/
  deadlineMet : Nat
  /-- Packets that arrived at their deadline or after it. -/
  deadlineMissed : Nat
deriving DecidableEq, Repr, Inhabited

/-- The receiving side of one path. -/
structure Receiver where
  version : Version
  /-- How long an acknowledgement may wait for company. -/
  ackDelay : Duration
  history : History
  /-- The greatest packet number taken in. -/
  largest : PacketNumber
  /-- When `largest` arrived. -/
  largestAt : Option Instant
  /-- Packets up to this number are no longer of interest. -/
  floor : PacketNumber
  /-- Packets taken in since the last acknowledgement. -/
  unacked : Nat
  /-- Those of them that ask for an acknowledgement. -/
  unackedAsking : Nat
  /-- An acknowledgement is due now. -/
  ackQueued : Bool
  /-- An acknowledgement is due from then on. -/
  ackAlarm : Option Instant
  /-- The acknowledgement sent last. -/
  lastAck : Option AckFrame
  statistics : ReceiveStatistics
  /-- Deadlines met since the last acknowledgement, up to `2 ^ 16 - 1`. -/
  metSinceAck : UInt16
  /-- Deadlines missed since the last acknowledgement, up to `2 ^ 16 - 1`. -/
  missedSinceAck : UInt16
  /-- Reported with every acknowledgement. -/
  notSent : UInt16
  /-- Reported with every acknowledgement. -/
  alpha : UInt16
deriving DecidableEq, Repr

namespace Receiver

/-- The delay of an acknowledgement that nothing hurries, unless configured otherwise. -/
def defaultAckDelay : Duration := .ofMillis 25

/-- The exploration weight reported until another is set. -/
def defaultAlpha : UInt16 := 10

/-- Packets after which versions with periodic acknowledgements send one. -/
def packetsBeforeAck : Nat := 20

/-- Packets asking for an acknowledgement after which one is sent at once. -/
def askingPacketsBeforeAck : Nat := 2

/-- A path on which nothing has arrived. -/
def new (version : Version) (ackDelay : Duration) : Receiver where
  version
  ackDelay
  history := .empty History.maxRanges
  largest := .zero
  largestAt := none
  floor := .zero
  unacked := 0
  unackedAsking := 0
  ackQueued := false
  ackAlarm := none
  lastAck := none
  statistics := default
  metSinceAck := 0
  missedSinceAck := 0
  notSent := 0
  alpha := defaultAlpha

instance : Inhabited Receiver := ⟨new default defaultAckDelay⟩

/-- The sum of two 16-bit counts, or the greatest such count if the sum exceeds it. -/
def saturatingAdd (a b : UInt16) : UInt16 := UInt16.ofNat (min (a.toNat + b.toNat) 65535)

/-! ### Taking in packets -/

/-- Whether packet `n`, just taken in, is news to a peer that knows the last acknowledgement:
it fills a gap reported there, or a gap has opened above it. The first packet is always news. -/
def isNews (r : Receiver) (n : PacketNumber) : Bool :=
  match r.lastAck with
  | none => true
  | some ack => n < ack.largest || r.history.highest?.any (ack.largest < ·.first)

/-- Whether the version's periodic acknowledgement has come round. -/
def periodElapsed (r : Receiver) : Bool :=
  r.version.forcesPeriodicAck && packetsBeforeAck ≤ r.unacked

/-- Enters packet `n` into the books; `history` already holds it. -/
def enter (r : Receiver) (history : History) (n : PacketNumber) (asks : Bool) (now : Instant) :
    Receiver :=
  { r with
    history
    statistics := { r.statistics with packets := r.statistics.packets + 1 }
    largest := if r.largest < n then n else r.largest
    largestAt := if r.largest < n then some now else r.largestAt
    unacked := r.unacked + 1
    unackedAsking := if asks then r.unackedAsking + 1 else r.unackedAsking }

/-- Settles when the next acknowledgement is due, now that packet `n` is entered. -/
def settle (r : Receiver) (n : PacketNumber) (asks : Bool) (now : Instant) : Receiver :=
  if r.ackQueued || r.isNews n || r.periodElapsed
      || (asks && askingPacketsBeforeAck ≤ r.unackedAsking) then
    { r with ackQueued := true, ackAlarm := none }
  else if asks && r.ackAlarm.isNone then
    { r with ackAlarm := some (now + r.ackDelay) }
  else r

/-- Takes in packet `n`. `asks` says whether the packet asks for an acknowledgement. -/
def receive (r : Receiver) (n : PacketNumber) (asks : Bool) (now : Instant) :
    Except Error Receiver :=
  if n = .zero then .error (.invalidPacketNumber n)
  else if n ≤ r.floor then .ok r
  else
    match r.history.record n with
    | .error e => .error e
    | .ok (false, _) => .ok r
    | .ok (true, history) => .ok ((r.enter history n asks now).settle n asks now)

/-- Gives up every packet up to `n`. A floor is never lowered. -/
def raiseFloor (r : Receiver) (n : PacketNumber) : Receiver :=
  if n ≤ r.floor then r else { r with floor := n, history := r.history.forgetUpTo n }

/-! ### Acknowledging -/

/-- What governs the next acknowledgement. -/
def trigger (r : Receiver) : AckTrigger :=
  if r.ackQueued then .queued
  else match r.ackAlarm with
    | some time => .alarm time
    | none => .idle

/-- Whether an acknowledgement may go out at `now`. -/
def isDue (r : Receiver) (now : Instant) : Bool := r.ackQueued || r.ackAlarm.any (· ≤ now)

/-- The blocks to report: none if all that arrived is a single block. -/
def reportedRanges (r : Receiver) : List AckRange :=
  if 1 < r.history.size then r.history.ranges else []

/-- The lowest packet number to report. -/
def lowest? (r : Receiver) : Option PacketNumber := r.history.ranges.getLast?.map (·.first)

/-- The acknowledgement that reports what has arrived, `lowest` being its lower end. -/
def frame (r : Receiver) (lowest : PacketNumber) (now : Instant) : AckFrame where
  largest := r.largest
  lowest
  receivedAt := r.largestAt.getD now
  ranges := r.reportedRanges
  metDeadline := r.metSinceAck
  hadDeadline := saturatingAdd r.metSinceAck r.missedSinceAck
  notSent := r.notSent
  alpha := r.alpha

/-- The acknowledgement due at `now`, if any. Sending it begins a new count of packets and of
deadlines. If there is nothing to report, whatever made it due is dropped. -/
def ack (r : Receiver) (now : Instant) : Option AckFrame × Receiver :=
  if r.isDue now then
    match r.lowest? with
    | none => (none, { r with ackQueued := false, ackAlarm := none })
    | some lowest =>
      let frame := r.frame lowest now
      (some frame,
        { r with
          lastAck := some frame
          ackQueued := false
          ackAlarm := none
          unacked := 0
          unackedAsking := 0
          metSinceAck := 0
          missedSinceAck := 0 })
  else (none, r)

/-- What to tell the peer when the path is closed; nothing if nothing is there to report. -/
def closePath (r : Receiver) (path : PathId) : Option ClosePathFrame :=
  r.lowest?.map fun lowest => ⟨path, r.largest, lowest, r.reportedRanges⟩

/-! ### Deadlines and diagnostics -/

/-- Compares a packet's deadline with its arrival and counts the outcome. A packet that arrives
exactly at its deadline is late. -/
def judge (r : Receiver) (deadline : Option Instant) (arrival : Instant) :
    DeadlineOutcome × Receiver :=
  match deadline with
  | none => (.noDeadline, r)
  | some deadline =>
    if arrival < deadline then
      (.met,
        { r with
          metSinceAck := saturatingAdd r.metSinceAck 1
          statistics :=
            { r.statistics with
              withDeadline := r.statistics.withDeadline + 1
              deadlineMet := r.statistics.deadlineMet + 1 } })
    else
      (.missed,
        { r with
          missedSinceAck := saturatingAdd r.missedSinceAck 1
          statistics :=
            { r.statistics with
              withDeadline := r.statistics.withDeadline + 1
              deadlineMissed := r.statistics.deadlineMissed + 1 } })

def setNotSent (r : Receiver) (count : UInt16) : Receiver := { r with notSent := count }

/-- Zero keeps the weight as it is. -/
def setAlpha (r : Receiver) (alpha : UInt16) : Receiver :=
  if alpha = 0 then r else { r with alpha }

end Receiver

end Multipath
