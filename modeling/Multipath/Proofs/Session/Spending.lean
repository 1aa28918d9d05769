import Mathlib.Algebra.GroupWithZero.Nat
import Multipath.Proofs.Session.Packing

/-!
# Sessions with only so much to send

A session has finitely much to send: data, returned pieces of streams and control frames.  What is
handed to it adds to that, and each packet it builds takes its frames out of it.

* `Spends S load`: `load` bounds what the session `S` still has to send, in frames.
* `Steady S`: no operation changes the telemetry of a path.
* `Script.tireless`: scripted sessions without failures, limits and congestion.
* `Script.spends_tireless`, `Script.steady_tireless`: they are of both kinds.
-/

namespace Multipath

/-- Whether the frame has to be sent again if it is lost, as a number. -/
def Frame.weight (f : Frame) : Nat := if f.isRetransmittable then 1 else 0

theorem Frame.sum_weight (frames : List Frame) :
    (frames.map Frame.weight).sum = frames.countP (·.isRetransmittable) := by
  induction frames with
  | nil => rfl
  | cons f rest ih =>
      rw [List.map_cons, List.sum_cons, ih, List.countP_cons, Nat.add_comm, Frame.weight]

/-- The number of frames to send again if the packet is lost; a packet without any counts too. -/
def Packet.weight (p : Packet) : Nat := max 1 p.framesToResend.length

theorem Packet.one_le_weight (p : Packet) : 1 ≤ p.weight := Nat.le_max_left _ _

theorem Packet.length_framesToResend_le (p : Packet) : p.framesToResend.length ≤ p.weight :=
  Nat.le_max_right _ _

variable {σ : Type}

/-- What the session has to send is bounded by `load`: a frame handed to it adds no more than
itself, and a packet takes out as much as it could bring back. -/
structure Spends (S : Session σ) (load : σ → Nat) : Prop where
  queueControl : ∀ s frame target, load (S.queueControl s frame target) ≤ load s + frame.weight
  returnStream : ∀ s frame, load (S.returnStream s frame) ≤ load s + 1
  schedulePaths : ∀ s, load (S.schedulePaths s) ≤ load s + 1
  takePathControl : ∀ s,
    load (S.takePathControl s).2 + (S.takePathControl s).1.countP (·.isRetransmittable) ≤ load s
  pack : ∀ {s path packet}, (S.pack s path).result = .ok (some packet) →
    load (S.pack s path).session + packet.weight ≤ load s
  packHandshake : ∀ s lost path, load (S.packHandshake s lost path).session ≤ load s
  send : ∀ s packet path, load (S.send s packet path).session ≤ load s
  ping : ∀ s path, load (S.ping s path).session ≤ load s

/-- The telemetry of the paths is fixed. -/
structure Steady (S : Session σ) : Prop where
  pack : ∀ s path, (S.pack s path).telemetry = path.telemetry
  packHandshake : ∀ s lost path, (S.packHandshake s lost path).telemetry = path.telemetry
  packAck : ∀ s path, (S.packAck s path).telemetry = path.telemetry
  send : ∀ s packet path, (S.send s packet path).telemetry = path.telemetry
  ping : ∀ s path, (S.ping s path).telemetry = path.telemetry

namespace Script

/-- Scripted sessions in which no call fails and no window fills. -/
def tireless : Session Script :=
  { session with
    pack s path :=
      let (packet, s) := s.packNext path.id
      ⟨s, path.telemetry, .ok packet⟩
    packHandshake s lost path :=
      let (control, s) := s.takeControl path.id
      let (packet, s) := s.build (control ++ lost.frames) lost.level
      ⟨s, path.telemetry, .ok packet⟩
    packAck s path :=
      let (control, s) := s.takeControl path.id
      let (packet, s) := s.build control s.level
      ⟨s, path.telemetry, .ok packet⟩
    send s _ path := ⟨s, path.telemetry, .ok ()⟩
    ping s path := ⟨s, path.telemetry, .ok ()⟩ }

/-- All that a scripted session has to send; an empty batch of data makes a packet too. -/
def load (s : Script) : Nat :=
  s.control.countP (·.2.isRetransmittable) + s.returned.length
    + (s.data.map fun batch => max 1 batch.length).sum + s.pathControl.countP (·.isRetransmittable)

variable {s s' : Script} {id : PathId} {streams : List Frame}

theorem load_takeControl (s : Script) (id : PathId) :
    (s.takeControl id).2.load + (s.takeControl id).1.countP (·.isRetransmittable) = s.load := by
  have hsplit := List.countP_eq_countP_filter_add s.control (·.2.isRetransmittable) (isFor id)
  have htaken : (s.takeControl id).1.countP (·.isRetransmittable) =
      (s.control.filter (isFor id)).countP (·.2.isRetransmittable) := List.countP_map
  have hleft : (s.takeControl id).2.load + s.control.countP (·.2.isRetransmittable) =
      s.load + (s.control.filter (!isFor id ·)).countP (·.2.isRetransmittable) := by
    simp only [load, takeControl]
    omega
  omega

theorem countP_layOut (offset : ByteCount) (batch : List DataFrame) :
    (layOut offset batch).1.countP (·.isRetransmittable) = batch.length := by
  induction batch generalizing offset with
  | nil => rfl
  | cons d rest ih =>
      rw [layOut, List.countP_cons_of_pos rfl, ih, List.length_cons]

theorem load_takeStreams (h : s.takeStreams = some (streams, s')) :
    s'.load + max 1 (streams.countP (·.isRetransmittable)) = s.load := by
  unfold takeStreams at h
  split at h
  · rename_i f returned _ hreturned
    cases h
    rw [List.countP_cons_of_pos rfl, List.countP_nil]
    simp only [load, hreturned, List.length_cons]
    omega
  · rename_i batch data hreturned hdata
    cases h
    simp only [load, hdata, List.map_cons, List.sum_cons, countP_layOut]
    omega
  · cases h

theorem weight_build (s : Script) (frames : List Frame) (level : EncryptionLevel) :
    (s.build frames level).1.weight = max 1 (frames.countP (·.isRetransmittable)) := by
  rw [Packet.weight, Packet.framesToResend, ← List.countP_eq_length_filter]
  rfl

theorem load_packNext {packet : Packet} (h : (s.packNext id).1 = some packet) :
    (s.packNext id).2.load + packet.weight ≤ s.load := by
  have hcontrol := s.load_takeControl id
  unfold packNext at h ⊢
  generalize s.takeControl id = taken at h hcontrol ⊢
  obtain ⟨control, s₁⟩ := taken
  dsimp only at h hcontrol ⊢
  cases hstreams : s₁.takeStreams with
  | some both =>
      obtain ⟨streams, s₂⟩ := both
      have hload := load_takeStreams hstreams
      rw [hstreams] at h
      obtain rfl := Option.some.inj h
      rw [weight_build, List.countP_append]
      show s₂.load + _ ≤ s.load
      omega
  | none =>
      rw [hstreams] at h
      dsimp only at h ⊢
      split at h
      · rename_i hany
        obtain rfl := Option.some.inj h
        have hpos : 0 < control.countP (·.isRetransmittable) :=
          List.countP_pos_iff.mpr (List.any_eq_true.mp hany)
        rw [if_pos hany, weight_build]
        show s₁.load + _ ≤ s.load
        omega
      · cases h

/-- **A scripted session has only so much to send.** -/
theorem spends_tireless : Spends tireless load where
  queueControl s frame target := by
    show load { s with control := s.control ++ [(target, frame)] } ≤ _
    simp only [load, List.countP_append, List.countP_singleton, Frame.weight]
    omega
  returnStream s frame := by
    show load { s with returned := s.returned ++ [frame] } ≤ _
    simp only [load, List.length_append, List.length_singleton]
    omega
  schedulePaths s := Nat.le_succ _
  takePathControl s := by
    show load { s with pathControl := [] } + s.pathControl.countP _ ≤ _
    simp [load]
  pack h := load_packNext (Except.ok.inj h)
  packHandshake s lost path := Nat.le.intro (s.load_takeControl path.id)
  send _ _ _ := Nat.le_refl _
  ping _ _ := Nat.le_refl _

theorem steady_tireless : Steady tireless where
  pack _ _ := rfl
  packHandshake _ _ _ := rfl
  packAck _ _ := rfl
  send _ _ _ := rfl
  ping _ _ := rfl

end Script

end Multipath
