import Multipath.Journal
import Multipath.Session.Basic

/-!
# Scripted sessions

A session that is a value from end to end: the data it has to send, the answers it gives and the
calls that fail are all laid down in its state. It packs one batch of stream frames to a packet
and prefers pieces of streams that were returned. Its clock stands at zero.

Every kind of call that builds or sends a packet is counted, and the calls past `Script.callLimit`
fail, so no loop over a scripted session runs for ever.
-/

namespace Multipath

/-- A call that is to fail. -/
structure ScriptedFailure where
  call : PacketCall
  /-- Which call of its kind, from 1. -/
  nth : Nat
  error : Error
deriving DecidableEq, Repr, Inhabited

/-- A piece of data to send. -/
structure DataFrame where
  stream : StreamId
  length : ByteCount
  fin : Bool
deriving DecidableEq, Repr, Inhabited

/-- The state of a scripted session. -/
structure Script where
  handshakeComplete : Bool := true
  /-- The frames of the packets still to be sent. -/
  data : List (List DataFrame) := []
  /-- The number of the next packet. -/
  nextNumber : PacketNumber := .one
  /-- The encryption level of new packets. -/
  level : EncryptionLevel := .forwardSecure
  /-- Packets that are sent fill the window of their path. -/
  congestion : Bool := false
  /-- The receive windows of the open streams; the last entry for a stream counts. -/
  windows : List (StreamId × ByteCount) := []
  /-- The window updates that are always due. -/
  updates : List WindowUpdate := []
  /-- The window updates that could wait. -/
  forced : List WindowUpdate := []
  /-- Asking for the window updates settles those that are always due. -/
  once : Bool := false
  peerBlocked : Bool := false
  /-- The pending frames about paths and addresses. -/
  pathControl : List Frame := []
  failures : List ScriptedFailure := []
  /-- The control frames queued, with the path they are for. -/
  control : List (Option PathId × Frame) := []
  /-- The pieces of streams to be sent again, oldest first. -/
  returned : List StreamFrame := []
  /-- The length of all data handed out so far. -/
  offset : ByteCount := 0
  /-- The calls made so far. -/
  calls : List PacketCall := []
deriving DecidableEq, Repr, Inhabited

namespace Script

/-- The calls of each kind that do not fail for being too many. -/
def callLimit : Nat := 300

/-- Rounds of the send loop after which the calls of some kind have reached the limit: each round
but the last has a packet built in one of two ways. -/
def roundLimit : Nat := 2 * callLimit + 2

/-- Counts a call, and finds out whether it fails. -/
def register (s : Script) (call : PacketCall) : Option Error × Script :=
  let s := { s with calls := call :: s.calls }
  let n := s.calls.countP (· == call)
  let error :=
    match s.failures.find? fun f => f.call == call && f.nth == n with
    | some failure => some failure.error
    | none => if callLimit < n then some (.sending "call limit") else none
  (error, s)

/-- Whether a queued control frame may go out on a path. -/
def isFor (path : PathId) (entry : Option PathId × Frame) : Bool :=
  entry.1 == none || entry.1 == some path

/-- Takes the control frames queued for a path or for any path. -/
def takeControl (s : Script) (path : PathId) : List Frame × Script :=
  ((s.control.filter (isFor path)).map (·.2),
    { s with control := s.control.filter (!isFor path ·) })

/-- Adds up the data of stream frames. -/
def dataLength (frames : List Frame) : ByteCount :=
  frames.foldr (fun
    | .stream f, sum => f.length + sum
    | _, sum => sum) 0

/-- Builds a packet out of frames. -/
def build (s : Script) (frames : List Frame) (level : EncryptionLevel) : Packet × Script :=
  ({ number := s.nextNumber
     frames
     length := 100 + dataLength frames
     level
     deadline := none },
    { s with nextNumber := s.nextNumber.next })

/-- Lays data frames end to end behind what was handed out before. -/
def layOut (offset : ByteCount) : List DataFrame → List Frame × ByteCount
  | [] => ([], offset)
  | d :: rest =>
    let (frames, next) := layOut (offset + d.length) rest
    (.stream ⟨d.stream, offset, d.length, d.fin⟩ :: frames, next)

/-- The stream frames of the next packet, if there are any: the oldest returned piece, or else the
next batch of data. -/
def takeStreams (s : Script) : Option (List Frame × Script) :=
  match s.returned, s.data with
  | f :: returned, _ => some ([.stream f], { s with returned })
  | [], batch :: data =>
    let (frames, offset) := layOut s.offset batch
    some (frames, { s with data, offset })
  | [], [] => none

/-- Packs the control frames for a path, and stream frames if there are any. Frames that call for
no acknowledgement do not make a packet by themselves, and are lost then. -/
def packNext (s : Script) (path : PathId) : Option Packet × Script :=
  let (control, s) := s.takeControl path
  match s.takeStreams with
  | some (streams, s) =>
    let (packet, s) := s.build (control ++ streams) s.level
    (some packet, s)
  | none =>
    if control.any (·.isRetransmittable) then
      let (packet, s) := s.build control s.level
      (some packet, s)
    else (none, s)

/-- The telemetry of a path after a packet was sent on it. -/
def telemetryAfter (s : Script) (packet : Packet) (t : Telemetry) : Telemetry :=
  let t := { t with
    retransmittableDue :=
      t.retransmittableDue && !packet.frames.any (·.isRetransmittable) }
  if s.congestion then
    let inFlight := t.inFlight + packet.length
    { t with inFlight, sendingAllowed := inFlight < t.window }
  else t

/-- A call on a path: it is counted first, and if it does not fail, `operation` gives the answer,
the state and the telemetry after it. -/
def call {α : Type} (kind : PacketCall) (s : Script) (path : Path)
    (operation : Script → α × Script × Telemetry) : Reply Script α :=
  match s.register kind with
  | (some error, s) => ⟨s, path.telemetry, .error error⟩
  | (none, s) =>
    let (a, s, telemetry) := operation s
    ⟨s, telemetry, .ok a⟩

/-- The window updates due. -/
def windowUpdates (s : Script) (force : Bool) : List WindowUpdate × Script :=
  (if force then s.updates ++ s.forced else s.updates,
    if s.once then { s with updates := [] } else s)

/-- The operations of scripted sessions. -/
def session : Session Script where
  now _ := ⟨0⟩
  handshakeComplete := (·.handshakeComplete)
  queueControl s frame target := { s with control := s.control ++ [(target, frame)] }
  pack s path := call .pack s path fun s =>
    let (packet, s) := s.packNext path.id
    (packet, s, path.telemetry)
  packHandshake s lost path := call .packHandshake s path fun s =>
    let (control, s) := s.takeControl path.id
    let (packet, s) := s.build (control ++ lost.frames) lost.level
    (packet, s, path.telemetry)
  packAck s path := call .packAck s path fun s =>
    let (control, s) := s.takeControl path.id
    let (packet, s) := s.build control s.level
    (packet, s, path.telemetry)
  send s packet path := call .send s path fun s =>
    ((), s, s.telemetryAfter packet path.telemetry)
  ping s path := call .ping s path fun s => ((), s, path.telemetry)
  returnStream s frame := { s with returned := s.returned ++ [frame] }
  hasReturnedStreams s := !s.returned.isEmpty
  receiveWindow s stream := (s.windows.reverse.find? (·.1 == stream)).map (·.2)
  schedulePaths s := s
  windowUpdates := windowUpdates
  peerBlocked := (·.peerBlocked)
  clearPeerBlocked s := { s with peerBlocked := false }
  takePathControl s := (s.pathControl, { s with pathControl := [] })
  close s _ := s

/-- Replaces the failures to come; the counts of calls start again. -/
def setFailures (s : Script) (failures : List ScriptedFailure) : Script :=
  { s with failures, calls := [] }

end Script

end Multipath
