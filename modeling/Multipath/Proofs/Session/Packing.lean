import Multipath.Session.Scripted

/-!
# What a packer does with acknowledgements

A frame is queued for the next packet of its path.  So an acknowledgement that waits for a path
goes into the packet that is built for it next, and no packet carries an acknowledgement that does
not wait.  What becomes of the waiting ones when the packer finds nothing to send is left open: a
packer may keep them or forget them.

* `Packs S waiting`: the session `S` packs in this way, `waiting` being the acknowledgements that
  wait for each path.
* `Forgets S waiting`: what waits for a path is gone once no packet is built for it.
* `packs_script`, `forgets_script`: scripted sessions do both.
-/

namespace Multipath

variable {σ : Type}

/-- Acknowledgements wait for the next packet of their path and go out with it. -/
structure Packs (S : Session σ) (waiting : σ → PathId → AckFrame → Prop) : Prop where
  queue : ∀ s id frame, waiting (S.queueControl s (.ack frame) (some id)) id frame
  queue_kept : ∀ {s id frame control target}, waiting s id frame →
    waiting (S.queueControl s control target) id frame
  queue_new : ∀ {s id frame control target}, waiting (S.queueControl s control target) id frame →
    waiting s id frame ∨ control = .ack frame ∧ ∀ other, target = some other → other = id
  takeControl_kept : ∀ {s id frame}, waiting s id frame → waiting (S.takePathControl s).2 id frame
  updates_new : ∀ {s id frame force}, waiting (S.windowUpdates s force).2 id frame →
    waiting s id frame
  pack_frames : ∀ {s path packet frame}, (S.pack s path).result = .ok (some packet) →
    (.ack frame ∈ packet.frames ↔ waiting s path.id frame)
  pack_new : ∀ {s path id frame}, waiting (S.pack s path).session id frame → waiting s id frame
  packAck_frames : ∀ {s path packet frame}, (S.packAck s path).result = .ok packet →
    (.ack frame ∈ packet.frames ↔ waiting s path.id frame)
  packAck_new : ∀ {s path id frame}, waiting (S.packAck s path).session id frame →
    waiting s id frame
  send_new : ∀ {s packet path id frame}, waiting (S.send s packet path).session id frame →
    waiting s id frame

/-- What waits for a path is gone once no packet is built for it. -/
def Forgets (S : Session σ) (waiting : σ → PathId → AckFrame → Prop) : Prop :=
  ∀ s path frame, (S.pack s path).result = .ok none → ¬ waiting (S.pack s path).session path.id frame

namespace Script

/-- The acknowledgement is queued for the path or for any path. -/
def Waiting (s : Script) (id : PathId) (frame : AckFrame) : Prop :=
  ∃ entry ∈ s.control, isFor id entry = true ∧ entry.2 = .ack frame

variable {s : Script} {id : PathId} {frame : AckFrame} {α : Type}

/-- A call is counted, and then it fails or is carried out. -/
theorem call_cases (kind : PacketCall) (s : Script) (path : Path)
    (operation : Script → α × Script × Telemetry) :
    ∃ calls, ((∃ e, call kind s path operation = ⟨{ s with calls }, path.telemetry, .error e⟩) ∨
      call kind s path operation = ⟨(operation { s with calls }).2.1,
        (operation { s with calls }).2.2, .ok (operation { s with calls }).1⟩) := by
  refine ⟨kind :: s.calls, ?_⟩
  unfold call
  cases h : s.register kind with
  | mk error s' =>
      obtain rfl : s' = { s with calls := kind :: s.calls } := (congrArg Prod.snd h).symm
      cases error with
      | none => exact .inr rfl
      | some e => exact .inl ⟨e, rfl⟩

/-- The control frames for a path are those that wait for it. -/
theorem mem_takeControl : .ack frame ∈ (s.takeControl id).1 ↔ s.Waiting id frame := by
  simp only [takeControl, Waiting, List.mem_map, List.mem_filter, and_assoc]

theorem waiting_congr {s' : Script} (h : s'.control = s.control) :
    s'.Waiting id frame ↔ s.Waiting id frame := by
  simp only [Waiting, h]

theorem Waiting.of_takeControl {path : PathId} (h : (s.takeControl path).2.Waiting id frame) :
    s.Waiting id frame := by
  obtain ⟨entry, hmem, hfor⟩ := h
  exact ⟨entry, (List.mem_filter.mp hmem).1, hfor⟩

/-- Once its control frames are taken, nothing waits for a path. -/
theorem not_waiting_takeControl : ¬ (s.takeControl id).2.Waiting id frame := by
  rintro ⟨entry, hmem, hfor, -⟩
  exact absurd hfor (by simpa using (List.mem_filter.mp hmem).2)

theorem ack_not_mem_layOut {offset : ByteCount} {batch : List DataFrame} :
    .ack frame ∉ (layOut offset batch).1 := by
  induction batch generalizing offset with
  | nil => simp [layOut]
  | cons d rest ih => simp [layOut, ih]

theorem takeStreams_control {streams : List Frame} {s' : Script}
    (h : s.takeStreams = some (streams, s')) : s'.control = s.control := by
  unfold takeStreams at h
  split at h <;> cases h <;> rfl

theorem ack_not_mem_takeStreams {streams : List Frame} {s' : Script}
    (h : s.takeStreams = some (streams, s')) : .ack frame ∉ streams := by
  unfold takeStreams at h
  split at h
  · cases h
    simp
  · cases h
    exact ack_not_mem_layOut
  · cases h

/-- Stream frames have to be sent again if they are lost. -/
theorem isRetransmittable_takeStreams (hdata : ∀ batch ∈ s.data, batch ≠ [])
    {streams : List Frame} {s' : Script} (h : s.takeStreams = some (streams, s')) :
    streams.any (·.isRetransmittable) = true := by
  unfold takeStreams at h
  split at h
  · cases h
    rfl
  · rename_i batch data _ hbatch
    cases h
    cases batch with
    | nil => exact absurd rfl (hdata [] (by simp [hbatch]))
    | cons d rest => simp [layOut, Frame.isRetransmittable]
  · cases h

/-- A packet takes the control frames of its path, and so does a packet that is not built. -/
theorem packNext_cases (s : Script) (path : PathId) :
    (s.packNext path).2.control = (s.takeControl path).2.control ∧
      ∀ packet, (s.packNext path).1 = some packet →
        ∀ frame, .ack frame ∈ packet.frames ↔ .ack frame ∈ (s.takeControl path).1 := by
  simp only [packNext]
  cases hstreams : (s.takeControl path).2.takeStreams with
  | some taken =>
      -- the stream frames hold no acknowledgement, so only the control frames count
      obtain ⟨streams, s'⟩ := taken
      have hcontrol : s'.control = _ := takeStreams_control hstreams
      refine ⟨hcontrol, ?_⟩
      rintro packet hpacket frame
      cases hpacket
      have hnot : .ack frame ∉ streams := ack_not_mem_takeStreams hstreams
      simp [build, hnot]
  | none =>
      dsimp only
      split
      · refine ⟨rfl, ?_⟩
        rintro packet hpacket frame
        cases hpacket
        exact Iff.rfl
      · exact ⟨rfl, fun _ h => by cases h⟩

theorem pack_cases (s : Script) (path : Path) :
    ∃ calls, ((∃ e, session.pack s path = ⟨{ s with calls }, path.telemetry, .error e⟩) ∨
      session.pack s path = ⟨(packNext { s with calls } path.id).2, path.telemetry,
        .ok (packNext { s with calls } path.id).1⟩) :=
  call_cases .pack s path fun s => ((s.packNext path.id).1, (s.packNext path.id).2, path.telemetry)

theorem packAck_cases (s : Script) (path : Path) :
    (∃ e calls, session.packAck s path = ⟨{ s with calls }, path.telemetry, .error e⟩) ∨
      ∃ packet s', session.packAck s path = ⟨s', path.telemetry, .ok packet⟩ ∧
        packet.frames = (s.takeControl path.id).1 ∧
        s'.control = (s.takeControl path.id).2.control := by
  obtain ⟨calls, ⟨e, h⟩ | h⟩ := call_cases .packAck s path fun s =>
    let built := (s.takeControl path.id).2.build (s.takeControl path.id).1 s.level
    (built.1, built.2, path.telemetry)
  · exact .inl ⟨e, calls, h⟩
  · exact .inr ⟨_, _, h, rfl, rfl⟩

/-- **Scripted sessions pack acknowledgements.** -/
theorem packs_script : Packs session Waiting where
  queue s id frame := ⟨(some id, .ack frame), by simp [session], by simp [isFor], rfl⟩
  queue_kept := by
    rintro s id frame control target ⟨entry, hmem, hfor⟩
    exact ⟨entry, List.mem_append_left _ hmem, hfor⟩
  queue_new := by
    rintro s id frame control target ⟨entry, hmem, hfor, heq⟩
    rcases List.mem_append.mp hmem with hmem | hmem
    · exact .inl ⟨entry, hmem, hfor, heq⟩
    · obtain rfl := List.mem_singleton.mp hmem
      refine .inr ⟨heq, fun other hother => ?_⟩
      simpa [isFor, hother] using hfor
  takeControl_kept h := h
  updates_new := by
    intro s id frame force h
    simp only [session, windowUpdates] at h
    split at h <;> exact h
  pack_frames := by
    intro s path packet frame h
    obtain ⟨calls, ⟨e, hpack⟩ | hpack⟩ := s.pack_cases path
    · rw [hpack] at h
      cases h
    · rw [hpack] at h
      rw [(packNext_cases _ path.id).2 packet (Except.ok.inj h)]
      exact mem_takeControl
  pack_new := by
    intro s path id frame h
    obtain ⟨calls, ⟨e, hpack⟩ | hpack⟩ := s.pack_cases path
    · rw [hpack] at h
      exact h
    · rw [hpack] at h
      exact ((waiting_congr (packNext_cases _ path.id).1).mp h).of_takeControl
  packAck_frames := by
    intro s path packet frame h
    obtain ⟨e, calls, hpack⟩ | ⟨packet', s', hpack, hframes, -⟩ := s.packAck_cases path
    · rw [hpack] at h
      cases h
    · rw [hpack] at h
      obtain rfl : packet' = packet := Except.ok.inj h
      rw [hframes]
      exact mem_takeControl
  packAck_new := by
    intro s path id frame h
    obtain ⟨e, calls, hpack⟩ | ⟨packet', s', hpack, -, hleft⟩ := s.packAck_cases path
    · rw [hpack] at h
      exact h
    · rw [hpack] at h
      exact ((waiting_congr hleft).mp h).of_takeControl
  send_new := by
    intro s packet path id frame h
    obtain ⟨calls, ⟨e, hsend⟩ | hsend⟩ := call_cases .send s path fun s =>
      ((), s, s.telemetryAfter packet path.telemetry)
    all_goals
      simp only [session, hsend] at h
      exact h

/-- **Scripted sessions forget what they did not send.** -/
theorem forgets_script : Forgets session Waiting := by
  intro s path frame h hwaiting
  obtain ⟨calls, ⟨e, hpack⟩ | hpack⟩ := s.pack_cases path
  · rw [hpack] at h
    cases h
  · rw [hpack] at hwaiting
    exact not_waiting_takeControl ((waiting_congr (packNext_cases _ path.id).1).mp hwaiting)

/-- As long as every batch holds data, no packet is built out of frames that call for no
acknowledgement. -/
theorem isRetransmittable_pack {path : Path} {packet : Packet}
    (hdata : ∀ batch ∈ s.data, batch ≠ [])
    (h : (session.pack s path).result = .ok (some packet)) :
    packet.frames.any (·.isRetransmittable) = true := by
  obtain ⟨calls, ⟨e, hpack⟩ | hpack⟩ := s.pack_cases path
  · rw [hpack] at h
    cases h
  · rw [hpack] at h
    have hpacket := Except.ok.inj h
    simp only [packNext] at hpacket
    cases hstreams : (takeControl { s with calls } path.id).2.takeStreams with
    | some taken =>
        obtain ⟨streams, s'⟩ := taken
        rw [hstreams] at hpacket
        cases hpacket
        simp [build, isRetransmittable_takeStreams (by exact hdata) hstreams]
    | none =>
        rw [hstreams] at hpacket
        dsimp only at hpacket
        split at hpacket
        · cases hpacket
          assumption
        · cases hpacket

end Script

end Multipath
