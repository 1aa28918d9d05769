import Multipath.Frame

/-!
# Packets

A packet as it leaves the packer. The record of it that is kept once it was sent has the same
fields, so both are one type: a `Packet` lives until it is acknowledged or given up, and may be
queued again for its own path or as a copy for another one.
-/

namespace Multipath

/-- An outgoing packet. -/
structure Packet where
  number : PacketNumber
  frames : List Frame
  /-- Encoded length. -/
  length : ByteCount
  level : EncryptionLevel
  /-- When the packet has to be delivered, if the application said so. -/
  deadline : Option Instant
deriving DecidableEq, Repr, Inhabited

namespace Packet

/-- Whether some frame of the packet ends a stream. -/
def closesStream (p : Packet) : Bool := p.frames.any (·.closesStream)

/-- Whether the packet belongs to the handshake. -/
def isHandshake (p : Packet) : Bool := p.level.isHandshake

/-- The frames to send again if the packet is lost. -/
def framesToResend (p : Packet) : List Frame := p.frames.filter (·.isRetransmittable)

/-- The streams the packet ends, once for each frame that does. -/
def finishedStreams (p : Packet) : List StreamId :=
  p.frames.filterMap fun
    | .stream f => if f.fin then some f.stream else none
    | _ => none

end Packet

end Multipath
