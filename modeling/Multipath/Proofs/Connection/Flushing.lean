import Multipath.Proofs.Connection.Answers
import Multipath.Proofs.Receiver.Triggers
import Multipath.Proofs.Session.Packing

/-!
# Taking acknowledgements and flushing

Taking an acknowledgement leaves its path idle: it hands out no other before new packets arrive.
The acknowledgement is queued, and it waits there for the next packet of its path.

* `Took`: an acknowledgement was taken and waits for a packet.  Queueing more frames keeps this
  (`Took.queues`), and a packet that is built and sent answers it (`Took.answers`).
* `flush_answers`: a flush answers every acknowledgement it takes.
* `flush_idle`: what a flush sends on a path that was idle before.
-/

namespace Multipath

namespace Connection

variable {σ : Type} {S : Session σ} {W : σ → PathId → AckFrame → Prop}

/-- The path hands out no acknowledgement before new packets arrive. -/
def IsIdle (c : Connection σ) (id : PathId) : Prop := (c.path id).receiver.trigger = .idle

theorem path_id (c : Connection σ) (id : PathId) : (c.path id).id = id := PathSet.get_id

theorem IsIdle.congr {c c' : Connection σ} {id : PathId}
    (h : (c'.path id).receiver = (c.path id).receiver) : c'.IsIdle id ↔ c.IsIdle id := by
  unfold IsIdle
  rw [h]

/-- A path is idle after an update if the update makes it so, or concerns another path. -/
theorem isIdle_update {c : Connection σ} {id j : PathId} {f : Path → Path}
    {k : ∀ p, (f p).id = p.id} {scheduler : Scheduler} {session : σ}
    (hself : id = j → (f (c.path id)).receiver.trigger = .idle)
    (hother : id ≠ j → c.IsIdle id) : IsIdle ⟨scheduler, c.paths.update j f k, session⟩ id := by
  unfold IsIdle path
  by_cases hj : id = j
  · subst hj
    rcases PathSet.get_update_self (s := c.paths) (i := id) (f := f) (k := k) with hfound | hfresh
    · rw [hfound]
      exact hself rfl
    · -- a path that is not there is taken for a fresh one
      rw [hfresh]
      rfl
  · rw [PathSet.get_update_ne hj]
    exact hother hj

/-- A path stays idle while nobody touches its receiver. -/
theorem IsIdle.update {c : Connection σ} {id j : PathId} {f : Path → Path}
    (hf : ∀ p, (f p).receiver = p.receiver) (k : ∀ p, (f p).id = p.id) (scheduler : Scheduler)
    (session : σ) (h : c.IsIdle id) :
    IsIdle ⟨scheduler, c.paths.update j f k, session⟩ id := by
  refine isIdle_update (fun _ => ?_) fun _ => h
  rw [hf]
  exact h

/-! ### Taking an acknowledgement -/

/-- What was handed out leaves the path idle. -/
theorem takeAck_some {id : PathId} {now : Instant} {frame : AckFrame} {c c' : Connection σ}
    (h : takeAck id now c = .ok (some frame) c') :
    c'.events = c.events ++ [.acknowledged id frame] ∧ c'.IsIdle id := by
  rw [takeAck_eq] at h
  dsimp only at h
  split at h
  · rename_i hack
    cases h
    exact ⟨events_note c _ _ _,
      isIdle_update (fun _ => Receiver.trigger_of_ack hack) fun hne => absurd rfl hne⟩
  · cases h

theorem takeAck_none {id : PathId} {now : Instant} {c c' : Connection σ}
    (h : takeAck id now c = .ok none c') : c'.events = c.events := by
  rw [takeAck_eq] at h
  dsimp only at h
  split at h
  · cases h
  · cases h
    rfl

theorem takeAck_idle {id : PathId} {now : Instant} {answer : Option AckFrame}
    {c c' : Connection σ} (hidle : c.IsIdle id) (h : takeAck id now c = .ok answer c') :
    answer = none := by
  cases answer with
  | none => rfl
  | some frame =>
      have hack : ((c.path id).ack now).1 = none :=
        congrArg Prod.fst (Receiver.ack_of_idle hidle now)
      rw [takeAck_eq] at h
      simp only [hack] at h
      cases h

/-! ### Queueing frames -/

/-- Frames are queued.  Idle paths stay idle, and what waits goes on waiting. -/
structure Queues (W : σ → PathId → AckFrame → Prop) (c c' : Connection σ) : Prop where
  grows : Grows (·.isQueued = true) c c'
  receiver : ∀ id, (c'.path id).receiver = (c.path id).receiver
  waiting : ∀ {id frame}, W c.session id frame → W c'.session id frame

theorem accrues_queues : Accrues (Queues W) where
  refl _ := ⟨.of_eq rfl, fun _ => rfl, fun h => h⟩
  trans h h' := ⟨accrues_grows.trans h.grows h'.grows,
    fun id => (h'.receiver id).trans (h.receiver id), fun hw => h'.waiting (h.waiting hw)⟩

theorem queues_queue (hS : Packs S W) (target : Option PathId) (frame : Frame) :
    Keeps (Queues W) (queue S target frame) := fun c =>
  ⟨.one (events_note c _ _ _) rfl, fun _ => rfl, hS.queue_kept⟩

theorem queues_updates (hS : Packs S W) (target : Option PathId) (updates : List WindowUpdate) :
    Keeps (Queues W) (queueUpdates S target updates) :=
  keeps_forM accrues_queues fun _ _ => queues_queue hS _ _

theorem stopWaiting_receiver (force : Bool) (p : Path) :
    (p.stopWaiting force).2.receiver = p.receiver := by
  unfold Path.stopWaiting
  split <;> rfl

theorem queues_stopWaiting (hS : Packs S W) (id : PathId) (force : Bool) :
    Keeps (Queues W) (queueStopWaiting S id force) := by
  intro c
  rw [queueStopWaiting_eq]
  have hpaths : Queues W c { c with
      paths := c.paths.update id (fun p => (p.stopWaiting force).2) (stopWaiting_id force) } :=
    ⟨.of_eq rfl, fun j => PathSet.get_update_eq Path.receiver (stopWaiting_receiver force)
      (stopWaiting_id force), fun h => h⟩
  refine accrues_queues.trans hpaths ?_
  cases ((c.path id).stopWaiting force).1 with
  | none => exact accrues_queues.refl _
  | some number => exact queues_queue hS _ _ _

/-! ### Sending a packet -/

theorem transmit_ok {id : PathId} {packet : Packet} {c c' : Connection σ}
    (h : transmit S id packet c = .ok () c') :
    c'.session = (S.send c.session packet (c.path id)).session ∧
      c'.events = c.events ++ [.sent id packet] ∧
      ∀ j, (c'.path j).receiver = (c.path j).receiver := by
  obtain ⟨⟨⟩, c₁, hsend, h⟩ := bind_ok h
  obtain ⟨-, hsession, hevents, hreceiver⟩ := callOn_ok hsend
  cases h
  refine ⟨hsession, hevents, fun j => ?_⟩
  rw [← hreceiver j]
  exact PathSet.get_update_eq Path.receiver (by intro p; rfl)

/-! ### Answered acknowledgements -/

/-- Every acknowledgement that was taken has been answered. -/
def Answers (c c' : Connection σ) : Prop :=
  ∃ evs, c'.events = c.events ++ evs ∧ Each Answered evs

theorem accrues_answers : Accrues (Answers (σ := σ)) where
  refl _ := ⟨[], by simp, each_of_quiet fun _ h => absurd h List.not_mem_nil⟩
  trans := by
    rintro c c₁ c₂ ⟨evs₁, h₁, heach₁⟩ ⟨evs₂, h₂, heach₂⟩
    exact ⟨evs₁ ++ evs₂, by rw [h₂, h₁, List.append_assoc], heach₁.append Answered.append heach₂⟩

theorem Grows.answers {c c' : Connection σ} (h : Quiet c c') : Answers c c' := by
  obtain ⟨evs, hevents, hquiet⟩ := h
  exact ⟨evs, hevents, each_of_quiet hquiet⟩

theorem Queues.quiet {c c' : Connection σ} (h : Queues W c c') : Quiet c c' :=
  h.grows.mono fun _ => not_isAcknowledged_of_isQueued

/-! ### An acknowledgement that waits -/

/-- The acknowledgement was taken and waits for a packet.  Since it was taken, frames were queued
and nothing else was done. -/
structure Took (W : σ → PathId → AckFrame → Prop) (id : PathId) (frame : AckFrame)
    (c c' : Connection σ) : Prop where
  events : ∃ queued, c'.events = c.events ++ .acknowledged id frame :: queued ∧
    ∀ e ∈ queued, e.isQueued = true
  waiting : W c'.session id frame
  idle : c'.IsIdle id

section Took

variable {id : PathId} {frame : AckFrame} {packet : Packet} {c c₁ c₂ c₃ : Connection σ}

/-- An acknowledgement waits once it is queued, be it after other frames. -/
theorem took_of_queue (hS : Packs S W) {now : Instant}
    (htake : takeAck id now c = .ok (some frame) c₁) (hqueues : Queues W c₁ c₂)
    (hqueue : queue S (some id) (.ack frame) c₂ = .ok () c₃) : Took W id frame c c₃ := by
  obtain ⟨hevents, hidle⟩ := takeAck_some htake
  have hall : Queues W c₁ c₃ := accrues_queues.trans hqueues ((queues_queue hS _ _).ok hqueue)
  obtain ⟨queued, hqueued, hkind⟩ := hall.grows
  refine ⟨⟨queued, ?_, hkind⟩, ?_, (IsIdle.congr (hall.receiver id)).mpr hidle⟩
  · rw [hqueued, hevents, List.append_assoc]
    rfl
  · cases hqueue
    exact hS.queue _ _ _

theorem Took.queues (h : Took W id frame c c₁) (hqueues : Queues W c₁ c₂) :
    Took W id frame c c₂ := by
  obtain ⟨queued, hevents, hqueued⟩ := h.events
  obtain ⟨more, hmore, hkind⟩ := hqueues.grows
  refine ⟨⟨queued ++ more, ?_, fun e he => ?_⟩, hqueues.waiting h.waiting,
    (IsIdle.congr (hqueues.receiver id)).mpr h.idle⟩
  · rw [hmore, hevents]
    simp
  · rcases List.mem_append.mp he with he | he
    · exact hqueued e he
    · exact hkind e he

/-- The next packet carries the acknowledgement, and it is sent. -/
theorem Took.answers (h : Took W id frame c c₁) {built : Event}
    (hbuilt : built = .packed id (some packet) ∨ built = .packedAck id packet)
    (hevents : c₂.events = c₁.events ++ [built]) (hframe : .ack frame ∈ packet.frames)
    (hsend : transmit S id packet c₂ = .ok () c₃) : Answers c c₃ := by
  obtain ⟨queued, htaken, hqueued⟩ := h.events
  obtain ⟨-, hsent, -⟩ := transmit_ok hsend
  refine ⟨.acknowledged id frame :: (queued ++ [built, .sent id packet]), ?_,
    each_cons ?_ (each_of_quiet fun e he => ?_)⟩
  · rw [hsent, hevents, htaken]
    simp
  · exact ⟨queued, built, packet, [], rfl, hqueued, hbuilt, hframe⟩
  · rcases List.mem_append.mp he with he | he
    · exact not_isAcknowledged_of_isQueued (hqueued e he)
    · rcases List.mem_cons.mp he with rfl | he
      · rcases hbuilt with rfl | rfl <;> rfl
      · obtain rfl := List.mem_singleton.mp he
        rfl

end Took

/-! ### Flushing -/

/-- Two steps build the packet of an acknowledgement. -/
theorem packFlush_some {id : PathId} {frame : AckFrame} {answer : Option Packet}
    {c c' : Connection σ} (h : packFlush S id (some frame) c = .ok answer c') :
    ∃ packet c₁, answer = some packet ∧ queue S (some id) (.ack frame) c = .ok () c₁ ∧
      packAck S id c₁ = .ok packet c' := by
  obtain ⟨⟨⟩, c₁, hqueue, h⟩ := bind_ok h
  obtain ⟨packet, hpack, rfl⟩ := map_ok h
  exact ⟨packet, c₁, rfl, hqueue, hpack⟩

/-- Flushing a path answers the acknowledgement it takes. -/
theorem flushPath_answers (hS : Packs S W) {updates : List WindowUpdate} {now : Instant}
    {id : PathId} {c c' : Connection σ} (h : flushPath S updates now id c = .ok () c') :
    Answers c c' := by
  obtain ⟨answer, c₁, htake, h⟩ := bind_ok h
  obtain ⟨⟨⟩, c₂, hupdates, h⟩ := bind_ok h
  have hqueues := (queues_updates hS _ _).ok hupdates
  cases answer with
  | none =>
      -- a packet may still be built, for window updates
      have hquiet : Quiet c c₂ := accrues_grows.trans (.of_eq (takeAck_none htake)) hqueues.quiet
      split at h
      · obtain ⟨-, rfl⟩ := pure_ok h
        exact hquiet.answers
      · obtain ⟨⟨⟩, c₃, hstop, h⟩ := bind_ok h
        obtain ⟨built, c₄, hpack, h⟩ := bind_ok h
        have hquiet' : Quiet c c₄ := accrues_grows.trans hquiet
          (accrues_grows.trans ((tame_quiet S).queueStopWaiting _ _ |>.ok hstop)
            ((tame_quiet S).pack id |>.ok hpack))
        cases built with
        | none =>
            obtain ⟨-, rfl⟩ := pure_ok h
            exact hquiet'.answers
        | some packet =>
            exact (accrues_grows.trans hquiet' ((tame_quiet S).transmit id packet |>.ok h)).answers
  | some frame =>
      -- a packet is built in any case
      simp only [Option.isNone_some, Bool.false_and] at h
      obtain ⟨⟨⟩, c₃, hstop, h⟩ := bind_ok h
      obtain ⟨built, c₄, hbuild, h⟩ := bind_ok h
      obtain ⟨packet, c₅, rfl, hqueue, hpack⟩ := packFlush_some hbuild
      have htook : Took W id frame c c₅ := took_of_queue hS htake
        (accrues_queues.trans hqueues ((queues_stopWaiting hS _ _).ok hstop)) hqueue
      obtain ⟨hresult, -, hbuilt, -⟩ := callOn_ok hpack
      have hframe : .ack frame ∈ packet.frames := by
        rw [hS.packAck_frames hresult, path_id]
        exact htook.waiting
      exact htook.answers (.inr rfl) hbuilt hframe h

/-- A flush asks for window updates unless there are some, and goes through the paths. -/
theorem flush_ok {updates : List WindowUpdate} {c c' : Connection σ}
    (h : flush S updates c = .ok () c') :
    ∃ due c₁ c₂, (updates = [] ∧ askUpdates S (S.peerBlocked c.session) c = .ok due c₁ ∨
        updates ≠ [] ∧ due = updates ∧ c₁ = c) ∧
      c₁.paths.ids.forM (flushPath S due (S.now c₁.session)) c₁ = .ok () c₂ ∧
      unblock S c₂ = .ok () c' := by
  have hpaths : ∀ {due c₁}, (do
      let c ← get
      c.paths.ids.forM (flushPath S due (S.now c.session))
      unblock S : Act σ Unit) c₁ = .ok () c' →
      ∃ c₂, c₁.paths.ids.forM (flushPath S due (S.now c₁.session)) c₁ = .ok () c₂ ∧
        unblock S c₂ = .ok () c' := by
    intro due c₁ h
    rw [get_bind] at h
    obtain ⟨⟨⟩, c₂, hpaths, h⟩ := bind_ok h
    exact ⟨c₂, hpaths, h⟩
  unfold flush at h
  rw [get_bind] at h
  by_cases hempty : updates = []
  · subst hempty
    obtain ⟨due, c₁, hask, h⟩ := bind_ok h
    obtain ⟨c₂, hpaths, hunblock⟩ := hpaths h
    exact ⟨due, c₁, c₂, .inl ⟨rfl, hask⟩, hpaths, hunblock⟩
  · rw [if_neg (by simpa using hempty), pure_bind] at h
    obtain ⟨c₂, hpaths, hunblock⟩ := hpaths h
    exact ⟨updates, c, c₂, .inr ⟨hempty, rfl, rfl⟩, hpaths, hunblock⟩

/-- A flush answers every acknowledgement it takes. -/
theorem flush_answers (hS : Packs S W) {updates : List WindowUpdate} {c c' : Connection σ}
    (h : flush S updates c = .ok () c') : Answers c c' := by
  obtain ⟨due, c₁, c₂, hdue, hpaths, hunblock⟩ := flush_ok h
  have hasked : Quiet c c₁ := by
    rcases hdue with ⟨-, hask⟩ | ⟨-, -, rfl⟩
    · exact ((tame_quiet S).askUpdates _).ok hask
    · exact accrues_grows.refl _
  have hflushed : Answers c₁ c₂ :=
    forM_ok accrues_answers (fun id _ _ _ => flushPath_answers hS) hpaths
  exact accrues_answers.trans hasked.answers
    (accrues_answers.trans hflushed (Grows.answers ((tame_quiet S).unblock.ok hunblock)))

/-! ### Flushing an idle path -/

/-- Path `id` stays idle, nothing new waits for it, and a packet that is sent on it meets `A` and
carries what waited. -/
def Rests (W : σ → PathId → AckFrame → Prop) (id : PathId) (A : Prop) (c c' : Connection σ) :
    Prop :=
  c.IsIdle id → c'.IsIdle id ∧ (∀ frame, W c'.session id frame → W c.session id frame) ∧
    ∃ evs, c'.events = c.events ++ evs ∧ ∀ packet, .sent id packet ∈ evs →
      A ∧ ∀ frame, .ack frame ∈ packet.frames → W c.session id frame

section Rests

variable {id : PathId} {A : Prop}

theorem accrues_rests : Accrues (Rests W id A) where
  refl c hidle := ⟨hidle, fun _ h => h, [], by simp, fun _ h => absurd h List.not_mem_nil⟩
  trans := by
    intro c c₁ c₂ h h' hidle
    obtain ⟨hidle₁, hnew₁, evs₁, hevents₁, hsent₁⟩ := h hidle
    obtain ⟨hidle₂, hnew₂, evs₂, hevents₂, hsent₂⟩ := h' hidle₁
    refine ⟨hidle₂, fun frame hw => hnew₁ frame (hnew₂ frame hw), evs₁ ++ evs₂, ?_, ?_⟩
    · rw [hevents₂, hevents₁, List.append_assoc]
    · intro packet hsent
      rcases List.mem_append.mp hsent with hsent | hsent
      · exact hsent₁ packet hsent
      · obtain ⟨ha, hframes⟩ := hsent₂ packet hsent
        exact ⟨ha, fun frame hframe => hnew₁ frame (hframes frame hframe)⟩

/-- A step that leaves the path alone. -/
theorem Rests.of_aside {c c' : Connection σ} (hidle : c.IsIdle id → c'.IsIdle id)
    (hnew : ∀ frame, W c'.session id frame → W c.session id frame)
    (hgrows : Grows (fun e => ∀ packet, e ≠ .sent id packet) c c') : Rests W id A c c' := by
  intro h
  obtain ⟨evs, hevents, hother⟩ := hgrows
  exact ⟨hidle h, hnew, evs, hevents, fun packet hsent => absurd rfl (hother _ hsent packet)⟩

theorem rests_queue (hS : Packs S W) {target : Option PathId} {control : Frame}
    (h : ∀ frame, control = .ack frame → ∃ j, target = some j ∧ j ≠ id) :
    Keeps (Rests W id A) (queue S target control) := by
  intro c
  refine .of_aside (fun hidle => hidle) (fun frame hw => ?_)
    (.one (events_note c _ _ _) fun _ => by simp)
  rcases hS.queue_new hw with hw | ⟨rfl, htarget⟩
  · exact hw
  · obtain ⟨j, rfl, hj⟩ := h frame rfl
    exact absurd (htarget j rfl) hj

theorem rests_updates (hS : Packs S W) (target : Option PathId) (updates : List WindowUpdate) :
    Keeps (Rests W id A) (queueUpdates S target updates) :=
  keeps_forM accrues_rests fun _ _ => rests_queue hS fun _ h => by cases h

theorem rests_stopWaiting (hS : Packs S W) (j : PathId) (force : Bool) :
    Keeps (Rests W id A) (queueStopWaiting S j force) := by
  intro c
  rw [queueStopWaiting_eq]
  have hpaths : Rests W id A c { c with
      paths := c.paths.update j (fun p => (p.stopWaiting force).2) (stopWaiting_id force) } :=
    .of_aside (.update (stopWaiting_receiver force) (stopWaiting_id force) _ _) (fun _ h => h)
      (.of_eq rfl)
  refine accrues_rests.trans hpaths ?_
  cases ((c.path j).stopWaiting force).1 with
  | none => exact accrues_rests.refl _
  | some number => exact rests_queue hS (fun _ h => by cases h) _

/-- An idle path hands out nothing, and what another path hands out does not concern it. -/
theorem rests_takeAck (j : PathId) (now : Instant) :
    Keeps (Rests W id A) (takeAck j now : Act σ (Option AckFrame)) := by
  intro c hidle
  have hstays : ∀ scheduler, IsIdle
      ⟨scheduler, c.paths.update j fun p => (p.ack now).2, c.session⟩ id := by
    intro scheduler
    refine isIdle_update (fun _ => ?_) fun _ => hidle
    show ((c.path id).receiver.ack now).2.trigger = .idle
    rw [Receiver.ack_of_idle hidle now]
    exact hidle
  have hother : Grows (fun e => ∀ packet, e ≠ .sent id packet) c (left (takeAck j now c)) :=
    grows_takeAck (fun _ _ _ => by simp) j now c
  refine Rests.of_aside (fun _ => ?_) (fun frame hw => ?_) hother hidle
  · rw [takeAck_eq]
    dsimp only
    split <;> exact hstays _
  · rw [takeAck_eq] at hw
    dsimp only at hw
    split at hw <;> exact hw

theorem rests_callOn {α : Type} {call : PacketCall} {j : PathId}
    {operation : σ → Path → Reply σ α} {event : α → Event}
    (hnew : ∀ {s path frame}, W (operation s path).session id frame → W s id frame)
    (hevent : ∀ a packet, event a ≠ .sent id packet) :
    Keeps (Rests W id A) (callOn call j operation event) := by
  intro c
  rw [callOn_eq]
  dsimp only
  split
  · exact .of_aside (.update (by intro p; rfl) _ _ _) (fun _ => hnew)
      (.one (events_note c _ _ _) (hevent _))
  · exact .of_aside (.update (by intro p; rfl) _ _ _) (fun _ => hnew)
      (.one (events_note c _ _ _) fun _ => by simp)

/-- Flushing another path. -/
theorem rests_flushPath (hS : Packs S W) {j : PathId} (hj : j ≠ id) (updates : List WindowUpdate)
    (now : Instant) : Keeps (Rests W id A) (flushPath S updates now j) := by
  have hbuild : ∀ answer, Keeps (Rests W id A) (packFlush S j answer) := by
    intro answer
    cases answer with
    | none => exact rests_callOn hS.pack_new fun _ _ h => by cases h
    | some frame =>
        refine keeps_bind accrues_rests (rests_queue hS fun _ _ => ⟨j, rfl, hj⟩) fun _ => ?_
        exact keeps_map (rests_callOn hS.packAck_new fun _ _ h => by cases h)
  have hsend : ∀ packet, Keeps (Rests W id A) (transmit S j packet) := by
    intro packet
    refine keeps_bind accrues_rests (rests_callOn hS.send_new fun _ _ h => ?_) fun _ => ?_
    · exact hj (Event.sent.inj h).1
    · exact keeps_modify fun c =>
        .of_aside (.update (by intro p; rfl) _ _ _) (fun _ h => h) (.of_eq rfl)
  refine keeps_bind accrues_rests (rests_takeAck j now) fun answer =>
    keeps_bind accrues_rests (rests_updates hS _ _) fun _ => ?_
  split
  · exact keeps_pure accrues_rests _
  · refine keeps_bind accrues_rests (rests_stopWaiting hS _ _) fun _ =>
      keeps_bind accrues_rests (hbuild answer) fun built => ?_
    cases built with
    | none => exact keeps_pure accrues_rests _
    | some packet => exact hsend packet

/-- A packet that is built and sent on the path carries what waited, and nothing new waits. -/
theorem rests_sent (hS : Packs S W) (hA : A) {packet : Packet} {c c₁ c₂ : Connection σ}
    (hpack : pack S id c = .ok (some packet) c₁) (hsend : transmit S id packet c₁ = .ok () c₂) :
    Rests W id A c c₂ := by
  intro hidle
  obtain ⟨hresult, hsession₁, hevents₁, hreceiver₁⟩ := callOn_ok hpack
  obtain ⟨hsession₂, hevents₂, hreceiver₂⟩ := transmit_ok hsend
  have hreceiver := (hreceiver₂ id).trans (hreceiver₁ id)
  refine ⟨(IsIdle.congr hreceiver).mpr hidle, fun frame hw => ?_,
    [.packed id (some packet), .sent id packet], ?_, fun sent hmem => ?_⟩
  · rw [hsession₂] at hw
    have hw₁ := hS.send_new hw
    rw [hsession₁] at hw₁
    exact hS.pack_new hw₁
  · rw [hevents₂, hevents₁, List.append_assoc]
    rfl
  · obtain rfl : sent = packet := by simpa using hmem
    refine ⟨hA, fun frame hframe => ?_⟩
    have hwaits := (hS.pack_frames hresult).mp hframe
    rwa [path_id] at hwaits

/-- Flushing the path itself.  A packet is built for window updates only, and not on the initial
path. -/
theorem flushPath_self (hS : Packs S W) {updates : List WindowUpdate} {now : Instant}
    {c c' : Connection σ} (h : flushPath S updates now id c = .ok () c') :
    Rests W id (updates ≠ [] ∧ id ≠ .initial) c c' := by
  intro hidle
  obtain ⟨answer, c₁, htake, h⟩ := bind_ok h
  obtain ⟨⟨⟩, c₂, hupdates, h⟩ := bind_ok h
  have hrests : Rests W id (updates ≠ [] ∧ id ≠ .initial) c c₂ :=
    accrues_rests.trans ((rests_takeAck id now).ok htake) ((rests_updates hS _ _).ok hupdates)
  obtain rfl := takeAck_idle hidle htake
  split at h
  · obtain ⟨-, rfl⟩ := pure_ok h
    exact hrests hidle
  · rename_i hcond
    have hA : updates ≠ [] ∧ id ≠ .initial := by
      simpa [PathId.isInitial] using hcond
    obtain ⟨⟨⟩, c₃, hstop, h⟩ := bind_ok h
    obtain ⟨built, c₄, hpack, h⟩ := bind_ok h
    have hrests₃ := accrues_rests.trans hrests ((rests_stopWaiting hS _ _).ok hstop)
    cases built with
    | none =>
        obtain ⟨-, rfl⟩ := pure_ok h
        have hpacked : Rests W id (updates ≠ [] ∧ id ≠ .initial) c₃ c₄ :=
          (rests_callOn hS.pack_new fun _ _ h => by cases h).ok hpack
        exact accrues_rests.trans hrests₃ hpacked hidle
    | some packet => exact accrues_rests.trans hrests₃ (rests_sent hS hA hpack h) hidle

end Rests

/-- What a flush without window updates in hand sends on an idle path waited for it, and is sent
because window updates are due. -/
theorem flush_idle (hS : Packs S W) {id : PathId} {c c' : Connection σ} (hidle : c.IsIdle id)
    (h : flush S [] c = .ok () c') :
    ∃ post, c'.events = c.events ++ post ∧ ∀ frame, SentIn id frame post →
      W c.session id frame ∧ id ≠ .initial ∧
        ∃ force updates, .updatesAsked force updates ∈ post ∧ updates ≠ [] := by
  obtain ⟨due, c₁, c₂, hdue, hpaths, hunblock⟩ := flush_ok h
  rcases hdue with ⟨-, hask⟩ | ⟨hne, -⟩
  · have hasked : c₁.events = c.events ++ [.updatesAsked (S.peerBlocked c.session) due] ∧
        c₁.IsIdle id ∧ ∀ frame, W c₁.session id frame → W c.session id frame := by
      rw [askUpdates_eq] at hask
      cases hask
      exact ⟨events_note c _ _ _, hidle, fun _ => hS.updates_new⟩
    obtain ⟨hevents₁, hidle₁, hnew₁⟩ := hasked
    have hrests : Rests W id (due ≠ [] ∧ id ≠ .initial) c₁ c₂ := by
      refine forM_ok accrues_rests (fun j _ _ _ hj => ?_) hpaths
      by_cases hji : j = id
      · subst hji
        exact flushPath_self hS hj
      · exact (rests_flushPath hS hji _ _).ok hj
    obtain ⟨-, -, evs, hevents₂, hsent⟩ := hrests hidle₁
    have hevents : c'.events = c₂.events ++ [.unblocked] := by
      cases hunblock
      exact events_note c₂ _ _ _
    refine ⟨.updatesAsked (S.peerBlocked c.session) due :: (evs ++ [.unblocked]), ?_, ?_⟩
    · rw [hevents, hevents₂, hevents₁]
      simp
    · rintro frame ⟨packet, hmem, hframe⟩
      have hin : .sent id packet ∈ evs := by simpa using hmem
      obtain ⟨⟨hdue, hinitial⟩, hframes⟩ := hsent packet hin
      exact ⟨hnew₁ frame (hframes frame hframe), hinitial, _, due, List.mem_cons_self, hdue⟩
  · exact absurd rfl hne

end Connection

end Multipath
