import Multipath.Connection.Basic

/-!
# Flushing

When nothing more can be sent, whatever acknowledgements and window updates are still due go out
on every path: an acknowledgement in a packet built for it, window updates alone in an ordinary
packet. The initial path is left alone unless it has an acknowledgement due.
-/

namespace Multipath.Connection

variable {σ : Type} (S : Session σ)

/-- Queues window updates for a path, or for any path. -/
def queueUpdates (target : Option PathId) (updates : List WindowUpdate) : Act σ Unit :=
  updates.forM fun f => queue S target (.windowUpdate f)

/-- The packet with which a path is flushed, if there is one. -/
def packFlush (id : PathId) : Option AckFrame → Act σ (Option Packet)
  | some frame => do
    queue S (some id) (.ack frame)
    some <$> packAck S id
  | none => pack S id

/-- Flushes one path. -/
def flushPath (updates : List WindowUpdate) (now : Instant) (id : PathId) : Act σ Unit := do
  let frame ← takeAck id now
  queueUpdates S (some id) updates
  if frame.isNone && (updates.isEmpty || id.isInitial) then return
  queueStopWaiting S id false
  match ← packFlush S id frame with
  | some packet => transmit S id packet
  | none => pure ()

/-- Flushes every path, with the given window updates; without any, the session is asked once
more, and pressed if its peer is held up. -/
def flush (updates : List WindowUpdate) : Act σ Unit := do
  let c ← get
  let updates ← if updates.isEmpty then askUpdates S (S.peerBlocked c.session) else pure updates
  let c ← get
  c.paths.ids.forM (flushPath S updates (S.now c.session))
  unblock S

end Multipath.Connection
