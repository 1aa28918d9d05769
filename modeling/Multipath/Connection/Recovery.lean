import Multipath.Connection.Basic

/-!
# Taking back packets

Before anything new is sent, the packets queued to be sent again are taken from the paths, the
lowest path first and the oldest packet first.

* A packet of application data is taken apart. Pieces of streams go back to the session, window
  updates are queued again while they still mean something, and the other control frames are
  queued again for the path they came from. Acknowledgements are dropped.
* A handshake packet is to be sent again as it is; taking back stops there. Once the handshake is
  complete such a packet is dropped.
-/

namespace Multipath

/-- What was taken back. -/
structure Recovery where
  /-- Some packet was taken back. -/
  any : Bool := false
  /-- A handshake packet to be sent again. -/
  handshake : Option Packet := none
  /-- The path the last packet was taken from. -/
  origin : Option PathId := none
deriving DecidableEq, Repr, Inhabited

namespace Connection

variable {σ : Type} (S : Session σ)

/-- Sees to it that a frame of a packet taken from path `origin` is sent again. -/
def redistribute (origin : PathId) : Frame → Act σ Unit
  | .stream f => returnStream S f
  | .windowUpdate f => do
    let c ← get
    if (S.receiveWindow c.session f.stream).any (· ≤ f.offset) then
      queue S (some origin) (.windowUpdate f)
  | .paths _ _ => schedulePaths S
  | frame => queue S (some origin) frame

/-- Takes back at most `n` packets. -/
def takeBackUpTo : Nat → Recovery → Act σ Recovery
  | 0, found => return found
  | n + 1, found => do
    let c ← get
    match c.paths.dequeue? with
    | none => return found
    | some (id, packet, paths) =>
      set { c with paths, scheduler := c.scheduler.countDrained id }
      note (.drained id packet)
      let found := { found with any := true, origin := some id }
      if packet.isHandshake then
        let c ← get
        if S.handshakeComplete c.session then takeBackUpTo n found
        else return { found with handshake := some packet }
      else
        packet.framesToResend.forM (redistribute S id)
        takeBackUpTo n found

/-- Takes back every queued packet, or those up to the first handshake packet to be sent. -/
def takeBack : Act σ Recovery := do
  let c ← get
  takeBackUpTo S c.paths.pending {}

end Connection

end Multipath
