import Multipath.Identifier
import Multipath.Time

/-!
# Frames

What an outgoing packet is made of, down to the fields that scheduling reads or fills in; the
wire encoding belongs to whoever packs the packets.

* `AckRange`: an inclusive block of packet numbers.
* `AckFrame.acks`: the packets a frame acknowledges. A frame without ranges acknowledges
  everything between its ends.
* `Frame.isRetransmittable`: acknowledgements and stop-waiting notices are built anew, never
  sent again.
-/

namespace Multipath

/-! ### Acknowledgements -/

/-- All packet numbers from `first` to `last`. -/
structure AckRange where
  first : PacketNumber
  last : PacketNumber
deriving DecidableEq, Repr, Inhabited

namespace AckRange

/-- The range of one number. -/
def single (n : PacketNumber) : AckRange := ⟨n, n⟩

def contains (r : AckRange) (n : PacketNumber) : Bool := r.first ≤ n && n ≤ r.last

end AckRange

/-- An acknowledgement for one path. The last four fields carry 16-bit counts; the receiving
side of the frame reads them as statistics. -/
structure AckFrame where
  largest : PacketNumber
  lowest : PacketNumber
  /-- When `largest` arrived. -/
  receivedAt : Instant
  /-- The received blocks, highest first; empty if there is no gap. -/
  ranges : List AckRange
  /-- Packets since the previous acknowledgement that met their deadline. -/
  metDeadline : UInt16
  /-- Packets since the previous acknowledgement that carried a deadline. -/
  hadDeadline : UInt16
  /-- Packets now waiting to be sent. -/
  notSent : UInt16
  /-- The current exploration weight. -/
  alpha : UInt16
deriving DecidableEq, Repr, Inhabited

namespace AckFrame

/-- Whether the frame reports a gap. -/
def hasGaps (f : AckFrame) : Bool := !f.ranges.isEmpty

/-- Whether the frame acknowledges packet `n`. -/
def acks (f : AckFrame) (n : PacketNumber) : Bool :=
  f.lowest ≤ n && n ≤ f.largest && (!f.hasGaps || f.ranges.any (·.contains n))

end AckFrame

/-! ### The other frames -/

/-- A piece of a stream, without its bytes. -/
structure StreamFrame where
  stream : StreamId
  offset : ByteCount
  length : ByteCount
  /-- This piece is the stream's last. -/
  fin : Bool
deriving DecidableEq, Repr, Inhabited

/-- A stream's receive window has moved to `offset`. -/
structure WindowUpdate where
  stream : StreamId
  offset : ByteCount
deriving DecidableEq, Repr, Inhabited

/-- The receive-side summary of a path that is being closed. -/
structure ClosePathFrame where
  path : PathId
  largest : PacketNumber
  lowest : PacketNumber
  /-- As in `AckFrame.ranges`. -/
  ranges : List AckRange
deriving DecidableEq, Repr, Inhabited

/-- Any frame of an outgoing packet. -/
inductive Frame where
  | stream (frame : StreamFrame)
  | windowUpdate (frame : WindowUpdate)
  | ack (frame : AckFrame)
  /-- The peer may forget the packets below `leastUnacked`. -/
  | stopWaiting (leastUnacked : PacketNumber)
  | ping
  /-- The sender is held up by flow control on `stream`. -/
  | blocked (stream : StreamId)
  | resetStream (stream : StreamId) (offset : ByteCount)
  | closePath (frame : ClosePathFrame)
  /-- A further network address of the sender. -/
  | addAddress (address : String)
  /-- The sender's active paths and the round-trip times it sees. -/
  | paths (active : List PathId) (rtts : List Duration)
deriving DecidableEq, Repr, Inhabited

namespace Frame

/-- Whether the frame has to be sent again if its packet is lost. -/
def isRetransmittable : Frame → Bool
  | .ack _ => false
  | .stopWaiting _ => false
  | _ => true

/-- Whether the frame ends a stream. -/
def closesStream : Frame → Bool
  | .stream f => f.fin
  | _ => false

end Frame

end Multipath
