import Mathlib.Data.List.Count
import Mathlib.Data.List.Perm.Basic
import Multipath.Proofs.Session.Packing

/-!
# The last pieces of streams

A session that has the last piece of a stream to send hands it out in one packet.  If the packet is
lost or copied, the piece comes back, and goes out in one more.

* `Frame.finished?`: the stream whose last piece a frame carries.
* `DealsOut S last`: each last piece that the session `S` has or is given goes out in one packet,
  `last` being those that it still has.
* `Script.dealsOut_session`: so it is with scripted sessions.
-/

namespace Multipath

/-- The stream whose last piece the frame carries. -/
def Frame.finished? : Frame → Option StreamId
  | .stream f => if f.fin then some f.stream else none
  | _ => none

theorem Frame.isRetransmittable_of_finished? {frame : Frame} {stream : StreamId}
    (h : frame.finished? = some stream) : frame.isRetransmittable = true := by
  cases frame <;> first | rfl | cases h

/-- The last pieces that come with the answer to a call; none if the call failed. -/
def Reply.pieces {σ α : Type} (pieces : α → List StreamId) (reply : Reply σ α) : List StreamId :=
  match reply.result with
  | .ok a => pieces a
  | .error _ => []

/-- The last pieces in a packet, if there is one. -/
def Packet.pieces? (built : Option Packet) : List StreamId :=
  built.toList.flatMap (·.finishedStreams)

theorem Reply.pieces_nil {σ α : Type} (reply : Reply σ α) : reply.pieces (fun _ => []) = [] := by
  unfold Reply.pieces
  split <;> rfl

variable {σ : Type}

/-- Each last piece goes out in one packet: what the session hands out, together with what it has
afterwards, is what it had, together with what it was given. -/
structure DealsOut (S : Session σ) (last : σ → List StreamId) : Prop where
  queueControl : ∀ s frame target,
    (last (S.queueControl s frame target)).Perm (last s ++ frame.finished?.toList)
  returnStream : ∀ s frame,
    (last (S.returnStream s frame)).Perm (last s ++ (Frame.stream frame).finished?.toList)
  pack : ∀ s path, ((S.pack s path).pieces Packet.pieces? ++
    last (S.pack s path).session).Perm (last s)
  packAck : ∀ s path, ((S.packAck s path).pieces (·.finishedStreams) ++
    last (S.packAck s path).session).Perm (last s)
  packHandshake : ∀ s lost path, ((S.packHandshake s lost path).pieces (·.finishedStreams) ++
    last (S.packHandshake s lost path).session).Perm
      (last s ++ (S.packHandshake s lost path).pieces fun _ => lost.finishedStreams)
  send : ∀ s packet path, last (S.send s packet path).session = last s
  ping : ∀ s path, last (S.ping s path).session = last s
  schedulePaths : ∀ s, last (S.schedulePaths s) = last s
  windowUpdates : ∀ s force, last (S.windowUpdates s force).2 = last s
  clearPeerBlocked : ∀ s, last (S.clearPeerBlocked s) = last s
  takePathControl : ∀ s, last (S.takePathControl s).2 = last s
  close : ∀ s e, last (S.close s e) = last s

namespace Script

/-- The stream that a piece of data ends. -/
def ended? (d : DataFrame) : Option StreamId := if d.fin then some d.stream else none

/-- The last pieces that a scripted session has to send. -/
def lastPieces (s : Script) : List StreamId :=
  s.control.filterMap (fun entry : Option PathId × Frame => entry.2.finished?) ++
    (s.returned.filterMap (fun f => (Frame.stream f).finished?) ++ s.data.flatten.filterMap ended?)

variable {s s' : Script} {α : Type}

theorem pieces_takeControl (s : Script) (id : PathId) :
    ((s.takeControl id).1.filterMap Frame.finished? ++ (s.takeControl id).2.lastPieces).Perm
      s.lastPieces := by
  have hsplit := (List.filter_append_perm (isFor id) s.control).filterMap
    fun entry : Option PathId × Frame => entry.2.finished?
  rw [List.filterMap_append] at hsplit
  simp only [lastPieces, takeControl, List.filterMap_map, ← List.append_assoc]
  exact (hsplit.append_right _).append_right _

theorem pieces_layOut (offset : ByteCount) (batch : List DataFrame) :
    (layOut offset batch).1.filterMap Frame.finished? = batch.filterMap ended? := by
  induction batch generalizing offset with
  | nil => rfl
  | cons d rest ih =>
      simp only [layOut, List.filterMap_cons, Frame.finished?, ended?, ih]

theorem pieces_takeStreams {streams : List Frame} (h : s.takeStreams = some (streams, s')) :
    (streams.filterMap Frame.finished? ++ s'.lastPieces).Perm s.lastPieces := by
  unfold takeStreams at h
  split at h
  · rename_i _ f returned hreturned
    cases h
    rw [lastPieces, lastPieces, show s.returned = [f] ++ returned from hreturned,
      List.filterMap_append, List.append_assoc]
    exact List.perm_append_comm_assoc _ _ _
  · rename_i batch data hreturned hdata
    cases h
    simp only [lastPieces, hreturned, hdata, pieces_layOut, List.flatten_cons,
      List.filterMap_append, List.filterMap_nil, List.nil_append]
    exact List.perm_append_comm_assoc _ _ _
  · cases h

theorem pieces_build (s : Script) (frames : List Frame) (level : EncryptionLevel) :
    (s.build frames level).1.finishedStreams = frames.filterMap Frame.finished? ∧
      (s.build frames level).2.lastPieces = s.lastPieces := ⟨rfl, rfl⟩

/-- Frames that do not make a packet carry no piece of a stream. -/
theorem pieces_idle {frames : List Frame} (h : ¬ frames.any (·.isRetransmittable) = true) :
    frames.filterMap Frame.finished? = [] := by
  refine List.filterMap_eq_nil_iff.mpr fun frame hframe => ?_
  cases hfinished : frame.finished? with
  | none => rfl
  | some stream =>
      exact absurd (List.any_eq_true.mpr ⟨frame, hframe,
        Frame.isRetransmittable_of_finished? hfinished⟩) h

theorem pieces_packNext (s : Script) (id : PathId) :
    (Packet.pieces? (s.packNext id).1 ++ (s.packNext id).2.lastPieces).Perm s.lastPieces := by
  have hcontrol := s.pieces_takeControl id
  unfold packNext
  generalize s.takeControl id = taken at hcontrol ⊢
  obtain ⟨control, s₁⟩ := taken
  dsimp only at hcontrol ⊢
  cases hstreams : s₁.takeStreams with
  | some both =>
      obtain ⟨streams, s₂⟩ := both
      have hpieces := pieces_takeStreams hstreams
      simp only [Packet.pieces?, Option.toList_some, List.flatMap_singleton, pieces_build,
        List.filterMap_append, List.append_assoc]
      exact (hpieces.append_left _).trans hcontrol
  | none =>
      dsimp only
      split
      · simpa only [Packet.pieces?, Option.toList_some, List.flatMap_singleton, pieces_build]
          using hcontrol
      · rename_i hidle
        rw [pieces_idle hidle] at hcontrol
        exact hcontrol

/-- What holds of an operation holds of a call of it, which changes nothing else. -/
theorem pieces_call {kind : PacketCall} {path : Path}
    {operation : Script → α × Script × Telemetry} (out given : α → List StreamId)
    (h : ∀ s, (out (operation s).1 ++ (operation s).2.1.lastPieces).Perm
      (s.lastPieces ++ given (operation s).1)) :
    ((call kind s path operation).pieces out ++
      (call kind s path operation).session.lastPieces).Perm
        (s.lastPieces ++ (call kind s path operation).pieces given) := by
  obtain ⟨calls, ⟨e, hcall⟩ | hcall⟩ := call_cases kind s path operation
  · rw [hcall]
    exact .of_eq (by simp [Reply.pieces, lastPieces])
  · rw [hcall]
    exact h { s with calls }

/-- An operation that is given nothing. -/
theorem pieces_call_out {kind : PacketCall} {path : Path}
    {operation : Script → α × Script × Telemetry} (out : α → List StreamId)
    (h : ∀ s, (out (operation s).1 ++ (operation s).2.1.lastPieces).Perm s.lastPieces) :
    ((call kind s path operation).pieces out ++
      (call kind s path operation).session.lastPieces).Perm s.lastPieces := by
  have hcall : ((call kind s path operation).pieces out ++
      (call kind s path operation).session.lastPieces).Perm
        (s.lastPieces ++ (call kind s path operation).pieces fun _ => []) :=
    pieces_call out (fun _ => []) fun s => (h s).trans (.of_eq (List.append_nil _).symm)
  rwa [Reply.pieces_nil, List.append_nil] at hcall

theorem filterMap_singleton {β γ : Type} (f : β → Option γ) (b : β) :
    [b].filterMap f = (f b).toList := by
  cases h : f b <;> simp [h]

theorem lastPieces_call {kind : PacketCall} {path : Path}
    {operation : Script → α × Script × Telemetry}
    (h : ∀ s, (operation s).2.1.lastPieces = s.lastPieces) :
    (call kind s path operation).session.lastPieces = s.lastPieces := by
  obtain ⟨calls, ⟨e, hcall⟩ | hcall⟩ := call_cases kind s path operation
  · rw [hcall]
    rfl
  · rw [hcall]
    exact h _

/-- **A scripted session deals out each last piece once.** -/
theorem dealsOut_session : DealsOut session lastPieces where
  queueControl s frame target := by
    simp only [session, lastPieces, List.filterMap_append, filterMap_singleton]
    rw [List.append_assoc, List.append_assoc]
    exact List.perm_append_comm.append_left _
  returnStream s frame := by
    simp only [session, lastPieces, List.filterMap_append, filterMap_singleton, List.append_assoc]
    exact (List.perm_append_comm.append_left _).append_left _
  pack s path := pieces_call_out Packet.pieces? fun s => s.pieces_packNext path.id
  packAck s path := pieces_call_out Packet.finishedStreams fun s => s.pieces_takeControl path.id
  packHandshake s lost path := pieces_call Packet.finishedStreams (fun _ => lost.finishedStreams)
      fun s => by
    have hcontrol := (s.pieces_takeControl path.id).append_right lost.finishedStreams
    refine List.Perm.trans ?_ hcontrol
    rw [(pieces_build _ _ _).1, (pieces_build _ _ _).2, List.filterMap_append, List.append_assoc,
      List.append_assoc]
    exact List.perm_append_comm.append_left _
  send s packet path := lastPieces_call fun _ => rfl
  ping s path := lastPieces_call fun _ => rfl
  schedulePaths _ := rfl
  windowUpdates s force := by
    show (windowUpdates s force).2.lastPieces = s.lastPieces
    unfold windowUpdates
    dsimp only
    split <;> rfl
  clearPeerBlocked _ := rfl
  takePathControl _ := rfl
  close _ _ := rfl

end Script

end Multipath
