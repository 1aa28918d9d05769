import Multipath.Proofs.Session.Packing

/-!
# Sessions whose handshake goes on

* `Unfinished`: the handshake of a session is not complete, and nothing a scheduler does to the
  session completes it.
* `Script.unfinished_session`: this is so for scripted sessions from the start.
-/

namespace Multipath

/-- The handshake is not complete in any state of `I`, and no operation leads out of `I`. -/
structure Unfinished (S : Session σ) (I : σ → Prop) : Prop where
  incomplete : ∀ {s}, I s → S.handshakeComplete s = false
  queueControl : ∀ {s frame target}, I s → I (S.queueControl s frame target)
  pack : ∀ {s path}, I s → I (S.pack s path).session
  packHandshake : ∀ {s lost path}, I s → I (S.packHandshake s lost path).session
  packAck : ∀ {s path}, I s → I (S.packAck s path).session
  send : ∀ {s packet path}, I s → I (S.send s packet path).session
  ping : ∀ {s path}, I s → I (S.ping s path).session
  returnStream : ∀ {s frame}, I s → I (S.returnStream s frame)
  schedulePaths : ∀ {s}, I s → I (S.schedulePaths s)
  windowUpdates : ∀ {s force}, I s → I (S.windowUpdates s force).2
  clearPeerBlocked : ∀ {s}, I s → I (S.clearPeerBlocked s)
  takePathControl : ∀ {s}, I s → I (S.takePathControl s).2
  close : ∀ {s e}, I s → I (S.close s e)

namespace Script

variable {s : Script} {α : Type}

theorem handshakeComplete_call {kind : PacketCall} {path : Path}
    {operation : Script → α × Script × Telemetry}
    (h : ∀ s, (operation s).2.1.handshakeComplete = s.handshakeComplete) :
    (call kind s path operation).session.handshakeComplete = s.handshakeComplete := by
  obtain ⟨calls, ⟨e, hcall⟩ | hcall⟩ := call_cases kind s path operation
  · rw [hcall]
  · rw [hcall]
    exact h _

theorem handshakeComplete_packNext (s : Script) (id : PathId) :
    (s.packNext id).2.handshakeComplete = s.handshakeComplete := by
  unfold packNext
  dsimp only
  split
  · rename_i streams s' hstreams
    unfold takeStreams at hstreams
    split at hstreams <;> cases hstreams <;> rfl
  · split <;> rfl

/-- **A scripted session does not change its mind about the handshake.** -/
theorem unfinished_session : Unfinished session (·.handshakeComplete = false) where
  incomplete h := h
  queueControl h := h
  pack h := (handshakeComplete_call fun s => s.handshakeComplete_packNext _).trans h
  packHandshake h := (handshakeComplete_call fun _ => rfl).trans h
  packAck h := (handshakeComplete_call fun _ => rfl).trans h
  send h := (handshakeComplete_call fun _ => rfl).trans h
  ping h := (handshakeComplete_call fun _ => rfl).trans h
  returnStream h := h
  schedulePaths h := h
  windowUpdates {s force} h := by
    show (windowUpdates s force).2.handshakeComplete = false
    unfold windowUpdates
    dsimp only
    split <;> exact h
  clearPeerBlocked h := h
  takePathControl h := h
  close h := h

end Script

end Multipath
