import Multipath.Error
import Multipath.Path.Basic

/-!
# Sessions

The rest of a connection, as its scheduler sees it: packer, stream framer, flow control and the
socket. A `Session` is a set of operations on a state of a type of its own, about which nothing
else is known.

An operation on a path may change the path's telemetry, since a packet that goes out fills the
window; it changes nothing else about the path. An operation that fails may have changed the
session and the telemetry all the same.
-/

namespace Multipath

/-- The outcome of an operation on a path. -/
structure Reply (σ α : Type) where
  /-- The session afterwards. -/
  session : σ
  /-- The path's telemetry afterwards. -/
  telemetry : Telemetry
  result : Except Error α

/-- The operations a scheduler needs, on sessions with states in `σ`. -/
structure Session (σ : Type) where
  /-- The time on the session's clock. -/
  now : σ → Instant
  handshakeComplete : σ → Bool
  /-- Queues a control frame for the next packet of a path, or of any path. -/
  queueControl : σ → Frame → Option PathId → σ
  /-- Builds the next packet of a path, if there is anything to send. -/
  pack : σ → Path → Reply σ (Option Packet)
  /-- Builds a lost handshake packet again. -/
  packHandshake : σ → Packet → Path → Reply σ Packet
  /-- Builds a packet for the acknowledgement queued for a path. -/
  packAck : σ → Path → Reply σ Packet
  /-- Sends a packet. Fails with `Error.tooManyTrackedPackets` if the path's record of sent
  packets is full. -/
  send : σ → Packet → Path → Reply σ Unit
  /-- Sends a packet that only asks for a sign of life. -/
  ping : σ → Path → Reply σ Unit
  /-- Takes back a piece of a stream that has to be sent again. -/
  returnStream : σ → StreamFrame → σ
  /-- Whether returned pieces wait to be sent. -/
  hasReturnedStreams : σ → Bool
  /-- The receive window of a stream, while the stream is open. -/
  receiveWindow : σ → StreamId → Option ByteCount
  /-- Schedules a new announcement of the active paths. -/
  schedulePaths : σ → σ
  /-- The window updates due; with `force`, those too that could wait. -/
  windowUpdates : σ → (force : Bool) → List WindowUpdate × σ
  /-- The peer is held up by flow control. -/
  peerBlocked : σ → Bool
  clearPeerBlocked : σ → σ
  /-- Hands out the pending frames about paths and addresses. -/
  takePathControl : σ → List Frame × σ
  /-- Closes the connection. -/
  close : σ → Error → σ

end Multipath
