import Multipath.Scheduler.Selection
import Multipath.Session.Basic

/-!
# Connections

A connection is a scheduler, its paths and its session. What the scheduler does to the other two
is an action: it changes the connection and ends in a value or in an error, and a change made
before an error stays. This module holds the single steps, each with its entry in the journal.
-/

namespace Multipath

/-- A connection with a session whose states are in `σ`. -/
structure Connection (σ : Type) where
  scheduler : Scheduler
  paths : PathSet
  session : σ

/-- An action on a connection. -/
abbrev Act (σ α : Type) := EStateM Error (Connection σ) α

namespace Connection

variable {σ α : Type} (S : Session σ)

/-- The path with this number. -/
def path (c : Connection σ) (id : PathId) : Path := c.paths.get id

/-- Enters an event into the journal. -/
def note (event : Event) : Act σ Unit :=
  modify fun c => { c with scheduler := c.scheduler.note event }

/-- Changes a path to another state of the same path. -/
def updatePath (id : PathId) (f : Path → Path)
    (keepsId : ∀ p, (f p).id = p.id := by intro p; rfl) : Act σ Unit :=
  modify fun c => { c with paths := c.paths.update id f keepsId }

/-! ### Steps of the session -/

/-- Queues a control frame. -/
def queue (target : Option PathId) (frame : Frame) : Act σ Unit := do
  modify fun c => { c with session := S.queueControl c.session frame target }
  note (.queued target frame)

/-- Hands back a piece of a stream. -/
def returnStream (frame : StreamFrame) : Act σ Unit := do
  modify fun c => { c with session := S.returnStream c.session frame }
  note (.streamReturned frame)

/-- Asks for a new announcement of the active paths. -/
def schedulePaths : Act σ Unit := do
  modify fun c => { c with session := S.schedulePaths c.session }
  note .pathsScheduled

/-- Asks which window updates are due. -/
def askUpdates (force : Bool) : Act σ (List WindowUpdate) := do
  let c ← get
  let (updates, session) := S.windowUpdates c.session force
  set { c with session }
  note (.updatesAsked force updates)
  return updates

/-- Takes the pending frames about paths and addresses. -/
def takePathControl : Act σ (List Frame) := do
  let c ← get
  let (frames, session) := S.takePathControl c.session
  set { c with session }
  return frames

/-- Tells the session that its peer is no longer held up. -/
def unblock : Act σ Unit := do
  modify fun c => { c with session := S.clearPeerBlocked c.session }
  note .unblocked

/-- Closes the connection. -/
def close (error : Error) : Act σ Unit := do
  modify fun c => { c with session := S.close c.session error }
  note (.closed error)

/-- Has the session do something to a path. The journal tells what came of it. -/
def callOn (call : PacketCall) (id : PathId) (operation : σ → Path → Reply σ α)
    (event : α → Event) : Act σ α := do
  let c ← get
  let reply := operation c.session (c.path id)
  set { c with session := reply.session }
  updatePath id (·.setTelemetry reply.telemetry)
  match reply.result with
  | .ok a =>
    note (event a)
    return a
  | .error e =>
    note (.failed call id e)
    throw e

/-- Builds the next packet of a path. -/
def pack (id : PathId) : Act σ (Option Packet) := callOn .pack id S.pack (.packed id)

/-- Builds a lost handshake packet again. -/
def packHandshake (id : PathId) (lost : Packet) : Act σ Packet :=
  callOn .packHandshake id (S.packHandshake · lost ·) (.packedHandshake id lost)

/-- Builds a packet for an acknowledgement. -/
def packAck (id : PathId) : Act σ Packet := callOn .packAck id S.packAck (.packedAck id)

/-- Sends a packet, and enters it into the path's books if that succeeds. -/
def transmit (id : PathId) (packet : Packet) : Act σ Unit := do
  callOn .send id (S.send · packet ·) fun _ => .sent id packet
  updatePath id (·.recordSent packet.length)

/-- Sends a sign of life. -/
def ping (id : PathId) : Act σ Unit := callOn .ping id S.ping fun _ => .pinged id

/-! ### Steps of a path -/

/-- Takes the acknowledgement of a path that is due at `now`. -/
def takeAck (id : PathId) (now : Instant) : Act σ (Option AckFrame) := do
  let c ← get
  let (frame, _) := (c.path id).ack now
  updatePath id fun p => (p.ack now).2
  match frame with
  | some frame => note (.acknowledged id frame)
  | none => pure ()
  return frame

/-- Queues a stop-waiting notice for a path, unless the last one said the same. -/
def queueStopWaiting (id : PathId) (force : Bool) : Act σ Unit := do
  let c ← get
  let (number, _) := (c.path id).stopWaiting force
  updatePath id (fun p => (p.stopWaiting force).2) fun p => by
    unfold Path.stopWaiting; split <;> rfl
  match number with
  | some number => queue S (some id) (.stopWaiting number)
  | none => pure ()

/-! ### Errors -/

/-- Runs an action, and if it fails, `cleanUp` before the error goes on its way. -/
def onError (action : Act σ α) (cleanUp : Error → Act σ Unit) : Act σ α :=
  tryCatch action fun e => do
    cleanUp e
    throw e

end Connection

end Multipath
