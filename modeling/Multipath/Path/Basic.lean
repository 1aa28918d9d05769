import Multipath.Packet
import Multipath.Receiver.Basic

/-!
# Paths

One network path of a connection: what its congestion controller and round-trip estimator last
reported (`Telemetry`), the sender's own books, and the receiving side.

* `Telemetry.spareWindow` reads both byte counts as signed, `remainingPackets` counts whole
  packets and never falls below zero.
* `queueLost` and `queueCopy` put a packet into the queue of packets to send again; only a lost
  one counts as a retransmission.
* `stopWaiting` announces the published least unacknowledged number, once for each value unless
  forced.
-/

namespace Multipath

/-! ### Telemetry -/

/-- The latest report on a path. -/
structure Telemetry where
  /-- The congestion controller lets another packet out. -/
  sendingAllowed : Bool := true
  /-- The smoothed round-trip time; zero while unmeasured. -/
  rtt : Duration := .zero
  /-- The congestion window. -/
  window : ByteCount := 32 * defaultSegmentSize
  inFlight : ByteCount := 0
  /-- The next packet has to be one that the peer acknowledges. -/
  retransmittableDue : Bool := false
  /-- The lowest packet number the peer has not acknowledged. -/
  leastUnacked : PacketNumber := .one
  /-- What the estimate of the one-way delay is scaled by. -/
  alpha : Float := 1.0
deriving Repr, Inhabited

namespace Telemetry

/-- The congestion window less the bytes in flight, all as signed 64-bit numbers; negative on a
path that is overcommitted. -/
def spareWindow (t : Telemetry) : Int64 := t.window.toInt64 - t.inFlight.toInt64

/-- Whole packets that still fit into the window. -/
def remainingPackets (t : Telemetry) : UInt64 := packetsInWindow t.window t.inFlight

/-- The used fraction of the window. -/
def utilization (t : Telemetry) : Float :=
  if t.window = 0 then 0.0 else t.inFlight.toFloat / t.window.toFloat

/-- Whether the round-trip time has been measured. -/
def isMeasured (t : Telemetry) : Bool := !t.rtt.isZero

/-- The estimated one-way delay in milliseconds: half the round-trip time. -/
def oneWayDelay (t : Telemetry) : Float := t.rtt.millis / 2.0

end Telemetry

/-! ### The sender's books -/

/-- What has been sent on a path, in words that begin again at zero where they overflow. -/
structure SendStatistics where
  packets : UInt64 := 0
  /-- Packets queued because they were lost. -/
  retransmissions : UInt64 := 0
  losses : UInt64 := 0
  bytes : ByteCount := 0
deriving DecidableEq, Repr, Inhabited

/-- A word stands for the number it shows. -/
instance wordToNat : Coe UInt64 Nat := ⟨UInt64.toNat⟩

/-- One network path. -/
structure Path where
  id : PathId
  telemetry : Telemetry
  /-- The path may have failed; it has to prove itself before it is used again. -/
  suspect : Bool
  /-- The least unacknowledged packet number, as last published to the packer. -/
  published : PacketNumber
  sent : SendStatistics
  /-- Packets to send again, oldest first. -/
  queue : List Packet
  /-- The number in the stop-waiting notice sent last. -/
  announced : Option PacketNumber
  receiver : Receiver
deriving Repr, Inhabited

namespace Path

/-- A path on which nothing has been sent yet. -/
def new (id : PathId) (telemetry : Telemetry) (receiver : Receiver) : Path where
  id
  telemetry
  suspect := false
  published := telemetry.leastUnacked
  sent := {}
  queue := []
  announced := none
  receiver

def isInitial (p : Path) : Bool := p.id.isInitial

def sendingAllowed (p : Path) : Bool := p.telemetry.sendingAllowed

def rtt (p : Path) : Duration := p.telemetry.rtt

def isMeasured (p : Path) : Bool := p.telemetry.isMeasured

/-- The path's window is not overcommitted. -/
def isCommitted (p : Path) : Bool := p.telemetry.inFlight ≤ p.telemetry.window

def setTelemetry (p : Path) (telemetry : Telemetry) : Path := { p with telemetry }

def setSuspect (p : Path) (suspect : Bool) : Path := { p with suspect }

/-! ### Counting -/

/-- Enters a packet of `length` bytes that was sent. -/
def recordSent (p : Path) (length : ByteCount) : Path :=
  { p with
    sent := { p.sent with packets := p.sent.packets + 1, bytes := p.sent.bytes + length } }

def recordLoss (p : Path) : Path :=
  { p with sent := { p.sent with losses := p.sent.losses + 1 } }

/-! ### Packets to send again -/

/-- Queues a lost packet. -/
def queueLost (p : Path) (packet : Packet) : Path :=
  { p with
    sent := { p.sent with retransmissions := p.sent.retransmissions + 1 }
    queue := p.queue ++ [packet] }

/-- Queues a copy of a packet that is still on its way. -/
def queueCopy (p : Path) (packet : Packet) : Path := { p with queue := p.queue ++ [packet] }

/-- The packet queued first, and the path without it. -/
def dequeue? (p : Path) : Option (Packet × Path) :=
  match p.queue with
  | [] => none
  | packet :: queue => some (packet, { p with queue })

/-! ### Stop waiting -/

/-- Publishes the least unacknowledged number reported by the telemetry. -/
def publish (p : Path) : Path := { p with published := p.telemetry.leastUnacked }

/-- The number for a stop-waiting notice. Without `force` there is none if the last notice
carried the same number. -/
def stopWaiting (p : Path) (force : Bool) : Option PacketNumber × Path :=
  if !force && p.announced == some p.published then (none, p)
  else (some p.published, { p with announced := some p.published })

/-! ### The receiving side -/

def setReceiver (p : Path) (receiver : Receiver) : Path := { p with receiver }

/-- The acknowledgement due at `now`, if any. -/
def ack (p : Path) (now : Instant) : Option AckFrame × Path :=
  let (frame, receiver) := p.receiver.ack now
  (frame, p.setReceiver receiver)

/-! ### Showing -/

/-- A one-line description, without queue and receiver. -/
def describe (p : Path) : String :=
  "Path \x7b id: PathId(" ++ toString p.id ++ "), sending_allowed: " ++ toString p.sendingAllowed
    ++ ", srtt: " ++ p.rtt.display ++ ", cwnd: " ++ toString p.telemetry.window.toNat
    ++ ", in_flight: " ++ toString p.telemetry.inFlight.toNat
    ++ ", potentially_failed: " ++ toString p.suspect ++ " \x7d"

end Path

end Multipath
