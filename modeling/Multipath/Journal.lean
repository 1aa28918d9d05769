import Multipath.Learning.Agent

/-!
# The journal

Everything a scheduler does to the world around it, in the order in which it happens: the calls
to the session and to the agent, with their answers, and the moments at which a packet, an
acknowledgement or a copy changes hands. Questions that change nothing are left out.
-/

namespace Multipath

/-- A call to the session that builds or sends a packet. -/
inductive PacketCall where
  /-- Build the next packet of a path. -/
  | pack
  /-- Build a handshake packet again. -/
  | packHandshake
  /-- Build a packet for an acknowledgement. -/
  | packAck
  /-- Send a packet. -/
  | send
  /-- Send a packet that only asks for a sign of life. -/
  | ping
deriving DecidableEq, Repr, Inhabited

/-- An entry of the journal. -/
inductive Event where
  /-- A packet was taken from a path's queue to be sent again. -/
  | drained (path : PathId) (packet : Packet)
  /-- A path handed out an acknowledgement. -/
  | acknowledged (path : PathId) (frame : AckFrame)
  /-- A copy of a packet just sent was queued on its path. -/
  | hedged (path : PathId) (packet : Packet)
  /-- A control frame was queued for a path, or for whichever path comes first. -/
  | queued (target : Option PathId) (frame : Frame)
  /-- The session was asked for the next packet of a path. -/
  | packed (path : PathId) (packet : Option Packet)
  /-- The session built the packet `packet` out of a lost handshake packet. -/
  | packedHandshake (path : PathId) (lost packet : Packet)
  /-- The session built a packet for an acknowledgement. -/
  | packedAck (path : PathId) (packet : Packet)
  /-- The session sent a packet. -/
  | sent (path : PathId) (packet : Packet)
  /-- The session sent a sign of life. -/
  | pinged (path : PathId)
  /-- A call to the session failed. -/
  | failed (call : PacketCall) (path : PathId) (error : Error)
  /-- A piece of a stream was handed back to be sent again. -/
  | streamReturned (frame : StreamFrame)
  /-- A new announcement of the active paths was asked for. -/
  | pathsScheduled
  /-- The session was asked which window updates are due. -/
  | updatesAsked (force : Bool) (updates : List WindowUpdate)
  /-- The session was told that its peer is no longer held up. -/
  | unblocked
  /-- The session was told to close the connection. -/
  | closed (error : Error)
  /-- The agent was called. -/
  | agent (call : AgentCall)
deriving DecidableEq, Repr, Inhabited

/-- What a scheduler has done so far, oldest first. -/
abbrev Journal := Array Event

namespace Journal

/-- The calls to the agent. -/
def agentCalls (j : Journal) : List AgentCall :=
  j.toList.filterMap fun
    | .agent call => some call
    | _ => none

end Journal

end Multipath
