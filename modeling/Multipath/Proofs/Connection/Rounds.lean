import Multipath.Proofs.Connection.Steps
import Multipath.Proofs.Path.Queues

/-!
# Rounds taken apart

What a successful run of one round of the send loop consists of.  The parts are relations between
connections with one case for each way to go on, so that a property of rounds is proved case by
case.

* `TakesBack`: packets taken back one after the other, each dropped, kept to be sent again, or
  taken apart.
* `Proceeds`: what a round does once its path is chosen.
* `round_ok`, `sendNext_eq`, `sendNext_cases`: a successful round is of this kind.
* `send_eq`: a run opens, and goes on with its rounds.
-/

namespace Multipath

namespace Connection

variable {σ : Type} {S : Session σ}

/-! ### Taking back -/

/-- A packet has left its queue, `paths` being the paths without it. -/
def drained (c : Connection σ) (id : PathId) (packet : Packet) (paths : PathSet) : Connection σ :=
  ⟨(c.scheduler.countDrained id).note (.drained id packet), paths, c.session⟩

@[simp] theorem events_drained (c : Connection σ) (id : PathId) (packet : Packet)
    (paths : PathSet) : (c.drained id packet paths).events = c.events ++ [.drained id packet] :=
  events_note ⟨c.scheduler.countDrained id, paths, c.session⟩ _ _ _

@[simp] theorem session_drained (c : Connection σ) (id : PathId) (packet : Packet)
    (paths : PathSet) : (c.drained id packet paths).session = c.session := rfl

@[simp] theorem paths_drained (c : Connection σ) (id : PathId) (packet : Packet)
    (paths : PathSet) : (c.drained id packet paths).paths = paths := rfl

/-- Packets are taken back, from what was found so far and the connection before to what is found
in the end and the connection after. -/
inductive TakesBack (S : Session σ) :
    Recovery → Connection σ → Recovery → Connection σ → Prop
  | stop {found c} : c.paths.dequeue? = none → TakesBack S found c found c
  | drop {found c id packet paths recovery c'} :
      c.paths.dequeue? = some (id, packet, paths) → packet.isHandshake = true →
      S.handshakeComplete c.session = true →
      TakesBack S { found with any := true, origin := some id } (c.drained id packet paths)
        recovery c' →
      TakesBack S found c recovery c'
  | handshake {found c id packet paths} :
      c.paths.dequeue? = some (id, packet, paths) → packet.isHandshake = true →
      S.handshakeComplete c.session = false →
      TakesBack S found c { any := true, origin := some id, handshake := some packet }
        (c.drained id packet paths)
  | apart {found c id packet paths c₁ recovery c'} :
      c.paths.dequeue? = some (id, packet, paths) → packet.isHandshake = false →
      packet.framesToResend.forM (redistribute S id) (c.drained id packet paths) = .ok () c₁ →
      TakesBack S { found with any := true, origin := some id } c₁ recovery c' →
      TakesBack S found c recovery c'

theorem keeps_paths_redistribute (id : PathId) (frame : Frame) :
    Keeps (fun c c' => c'.paths = c.paths) (redistribute S id frame) := by
  unfold redistribute
  split
  · exact fun c => rfl
  · refine keeps_get_bind fun c => ?_
    split <;> rfl
  · exact fun c => rfl
  · exact fun c => rfl

theorem accrues_paths : Accrues fun c c' : Connection σ => c'.paths = c.paths where
  refl _ := rfl
  trans h h' := h'.trans h

/-- With enough turns for all that waits, taking back comes to its end. -/
theorem takesBack_of_ok {n : Nat} {found recovery : Recovery} {c c' : Connection σ}
    (h : takeBackUpTo S n found c = .ok recovery c') (hn : c.paths.pending ≤ n) :
    TakesBack S found c recovery c' := by
  induction n generalizing found c with
  | zero =>
      obtain ⟨rfl, rfl⟩ := pure_ok h
      refine .stop ?_
      cases hdequeue : c.paths.dequeue? with
      | none => rfl
      | some taken =>
          have hqueued := PathSet.queued_of_dequeue? hdequeue
          simp [PathSet.pending, hqueued] at hn
  | succ n ih =>
      unfold takeBackUpTo at h
      rw [get_bind] at h
      cases hdequeue : c.paths.dequeue? with
      | none =>
          rw [hdequeue] at h
          obtain ⟨rfl, rfl⟩ := pure_ok h
          exact .stop hdequeue
      | some taken =>
          obtain ⟨id, packet, paths⟩ := taken
          simp only [hdequeue, set_bind, note_bind] at h
          have hrest : paths.pending ≤ n := by
            simp only [PathSet.pending, PathSet.queued_of_dequeue? hdequeue,
              List.length_cons] at hn
            exact Nat.le_of_succ_le_succ hn
          cases hlevel : packet.isHandshake with
          | true =>
              simp only [hlevel, if_true, get_bind] at h
              cases hcomplete : S.handshakeComplete c.session with
              | true =>
                  simp only [hcomplete, if_true] at h
                  exact .drop hdequeue hlevel hcomplete (ih h hrest)
              | false =>
                  simp only [hcomplete] at h
                  obtain ⟨rfl, rfl⟩ := pure_ok h
                  exact .handshake hdequeue hlevel hcomplete
          | false =>
              simp only [hlevel] at h
              obtain ⟨⟨⟩, c₁, hframes, h⟩ := bind_ok h
              have hpaths : c₁.paths = paths := (keeps_forM accrues_paths fun frame _ =>
                keeps_paths_redistribute id frame).ok hframes
              exact .apart hdequeue hlevel hframes (ih h (hpaths ▸ hrest))

/-- Taking back leaves nothing behind but what comes after a handshake packet. -/
theorem takeBack_ok {recovery : Recovery} {c c' : Connection σ}
    (h : takeBack S c = .ok recovery c') : TakesBack S {} c recovery c' :=
  takesBack_of_ok h (Nat.le_refl _)

namespace TakesBack

variable {found recovery : Recovery} {c c' : Connection σ}

/-- The path of the last packet taken back is one of the set. -/
theorem origin_mem (h : TakesBack S found c recovery c')
    (hfound : ∀ id, found.origin = some id → id ∈ c.paths.ids) {id : PathId}
    (hid : recovery.origin = some id) : id ∈ c'.paths.ids := by
  induction h with
  | stop => exact hfound id hid
  | drop hdequeue _ _ _ ih =>
      refine ih (fun j hj => ?_) hid
      obtain rfl := Option.some.inj hj
      exact PathSet.ids_of_dequeue? hdequeue ▸ PathSet.mem_ids_of_dequeue? hdequeue
  | handshake hdequeue =>
      obtain rfl := Option.some.inj hid
      exact PathSet.ids_of_dequeue? hdequeue ▸ PathSet.mem_ids_of_dequeue? hdequeue
  | apart hdequeue _ hframes _ ih =>
      refine ih (fun j hj => ?_) hid
      obtain rfl := Option.some.inj hj
      rw [(keeps_forM accrues_paths fun frame _ => keeps_paths_redistribute _ frame).ok hframes]
      exact PathSet.ids_of_dequeue? hdequeue ▸ PathSet.mem_ids_of_dequeue? hdequeue

/-- Whoever finds a handshake packet has taken something back. -/
theorem any_of_handshake (h : TakesBack S found c recovery c') (hfound : found.handshake = none)
    {lost : Packet} (hlost : recovery.handshake = some lost) : recovery.any = true := by
  induction h with
  | stop => exact absurd (hfound.symm.trans hlost) nofun
  | drop _ _ _ _ ih => exact ih hfound hlost
  | handshake => rfl
  | apart _ _ _ _ ih => exact ih hfound hlost

end TakesBack

theorem redistribute_total (origin : PathId) (frames : List Frame) (c : Connection σ) :
    ∃ c', frames.forM (redistribute S origin) c = .ok () c' := by
  have hone : ∀ (frame : Frame) (c : Connection σ),
      ∃ c', redistribute S origin frame c = .ok () c' := by
    intro frame c
    unfold redistribute
    split
    · exact ⟨_, rfl⟩
    · rw [get_bind]
      split <;> exact ⟨_, rfl⟩
    · exact ⟨_, rfl⟩
    · exact ⟨_, rfl⟩
  induction frames generalizing c with
  | nil => exact ⟨c, rfl⟩
  | cons frame frames ih =>
      obtain ⟨c₁, h⟩ := hone frame c
      obtain ⟨c', h'⟩ := ih c₁
      exact ⟨c', (bind_of_ok h).trans h'⟩

/-- Taking back cannot fail. -/
theorem takeBackUpTo_total (n : Nat) (found : Recovery) (c : Connection σ) :
    ∃ recovery c', takeBackUpTo S n found c = .ok recovery c' := by
  induction n generalizing found c with
  | zero => exact ⟨found, c, rfl⟩
  | succ n ih =>
      unfold takeBackUpTo
      rw [get_bind]
      cases c.paths.dequeue? with
      | none => exact ⟨found, c, rfl⟩
      | some taken =>
          obtain ⟨id, packet, paths⟩ := taken
          simp only [set_bind, note_bind]
          split
          · rw [get_bind]
            split
            · exact ih _ _
            · exact ⟨_, _, rfl⟩
          · obtain ⟨c₁, hframes⟩ := redistribute_total (S := S) id packet.framesToResend
              (c.drained id packet paths)
            obtain ⟨recovery, c', hrest⟩ := ih { found with any := true, origin := some id } c₁
            exact ⟨recovery, c', (bind_of_ok hframes).trans hrest⟩

theorem takeBack_total (c : Connection σ) :
    ∃ recovery c', takeBack S c = .ok recovery c' := takeBackUpTo_total c.paths.pending {} c

/-! ### Choosing a path -/

/-- What a round asks a path for, given what it has taken back. -/
def demand (S : Session σ) (c : Connection σ) (recovery : Recovery) : Demand where
  retransmission := recovery.any
  stream := S.hasReturnedStreams c.session
  origin := recovery.origin.map c.path

theorem TakesBack.origin_id_mem {found recovery : Recovery} {c c' : Connection σ}
    (h : TakesBack S found c recovery c')
    (hfound : ∀ id, found.origin = some id → id ∈ c.paths.ids) (origin : Path)
    (horigin : (c'.demand S recovery).origin = some origin) : origin.id ∈ c'.paths.ids := by
  obtain ⟨id, hid, rfl⟩ := Option.map_eq_some_iff.mp horigin
  rw [path, PathSet.get_id]
  exact h.origin_mem hfound hid

theorem choose_ok {wanted : Demand} {chosen : Option PathId} {c c' : Connection σ}
    (h : choose S wanted c = .ok chosen c') :
    (c.scheduler.select c.paths wanted (S.now c.session)).1 = .ok chosen ∧
      c' = { c with
        scheduler := (c.scheduler.select c.paths wanted (S.now c.session)).2 } := by
  rw [choose_eq] at h
  dsimp only at h
  split at h
  · cases h
    exact ⟨‹_›, rfl⟩
  · split at h <;> cases h

/-! ### What follows -/

/-- What a round does for the path it chose, if it found one.  `returned` says that pieces of
streams wait to be sent again. -/
inductive Proceeds (S : Session σ) (updates : List WindowUpdate) (recovery : Recovery)
    (returned : Bool) (c : Connection σ) :
    Option PathId → Option (List WindowUpdate) → Connection σ → Prop
  | idle {due c₁ c'} :
      askUpdates S false c = .ok due c₁ → flush S due c₁ = .ok () c' →
      Proceeds S updates recovery returned c none none c'
  | resend {id lost c'} :
      recovery.handshake = some lost → resendHandshake S id lost c = .ok () c' →
      Proceeds S updates recovery returned c (some id) (some updates) c'
  | decline {id c₁ c₂ c'} :
      recovery.handshake = none → attachControl S id returned c = .ok () c₁ →
      sendNext S updates id c₁ = .ok none c₂ → flush S [] c₂ = .ok () c' →
      Proceeds S updates recovery returned c (some id) none c'
  | carry {id packet c₁ c₂ c₃ c'} :
      recovery.handshake = none → attachControl S id returned c = .ok () c₁ →
      sendNext S updates id c₁ = .ok (some packet) c₂ → hedge id packet c₂ = .ok () c₃ →
      probe S recovery.origin c₃ = .ok () c' →
      Proceeds S updates recovery returned c (some id) (some []) c'

/-- **A successful round takes back, chooses and proceeds.** -/
theorem round_ok {updates : List WindowUpdate} {answer : Option (List WindowUpdate)}
    {c c' : Connection σ} (h : sendRound S updates c = .ok answer c') :
    ∃ recovery c₁ chosen c₂, takeBack S c = .ok recovery c₁ ∧
      choose S (c₁.demand S recovery) c₁ = .ok chosen c₂ ∧
      Proceeds S updates recovery (S.hasReturnedStreams c₁.session) c₂ chosen answer c' := by
  unfold sendRound at h
  obtain ⟨recovery, c₁, hback, h⟩ := bind_ok h
  rw [get_bind] at h
  obtain ⟨chosen, c₂, hchoose, h⟩ := bind_ok h
  refine ⟨recovery, c₁, chosen, c₂, hback, hchoose, ?_⟩
  cases chosen with
  | none =>
      obtain ⟨due, c₃, hask, h⟩ := bind_ok h
      obtain ⟨⟨⟩, c₄, hflush, h⟩ := bind_ok h
      obtain ⟨rfl, rfl⟩ := pure_ok h
      exact .idle hask hflush
  | some id =>
      cases hlost : recovery.handshake with
      | some lost =>
          simp only [hlost] at h
          obtain ⟨⟨⟩, c₃, hresend, h⟩ := bind_ok h
          obtain ⟨rfl, rfl⟩ := pure_ok h
          exact .resend hlost hresend
      | none =>
          simp only [hlost] at h
          obtain ⟨⟨⟩, c₃, hattach, h⟩ := bind_ok h
          obtain ⟨sent, c₄, hsend, h⟩ := bind_ok h
          cases sent with
          | none =>
              obtain ⟨⟨⟩, c₅, hflush, h⟩ := bind_ok h
              obtain ⟨rfl, rfl⟩ := pure_ok h
              exact .decline hlost hattach (onError_ok hsend) hflush
          | some packet =>
              obtain ⟨⟨⟩, c₅, hhedge, h⟩ := bind_ok h
              obtain ⟨⟨⟩, c₆, hprobe, h⟩ := bind_ok h
              obtain ⟨rfl, rfl⟩ := pure_ok h
              exact .carry hlost hattach (onError_ok hsend) hhedge hprobe

/-- What makes up a round that sends a packet makes it succeed. -/
theorem sendRound_of_carry {updates : List WindowUpdate} {recovery : Recovery} {id : PathId}
    {packet : Packet} {c c₁ c₂ c₃ c₄ c₅ c' : Connection σ}
    (hback : takeBack S c = .ok recovery c₁)
    (hchoose : choose S (c₁.demand S recovery) c₁ = .ok (some id) c₂)
    (hlost : recovery.handshake = none)
    (hattach : attachControl S id (S.hasReturnedStreams c₁.session) c₂ = .ok () c₃)
    (hsend : sendNext S updates id c₃ = .ok (some packet) c₄)
    (hhedge : hedge id packet c₄ = .ok () c₅)
    (hprobe : probe S recovery.origin c₅ = .ok () c') :
    sendRound S updates c = .ok (some []) c' := by
  rw [demand] at hchoose
  have hsent : onError (sendNext S updates id) endEpisodeOnOverflow c₃ = _ := onError_of_ok hsend
  have hget : ∀ c : Connection σ, (get : Act σ (Connection σ)) c = .ok c c := fun _ => rfl
  simp only [sendRound, bind, EStateM.bind, hback, hget, hchoose, hlost, hattach, hsent, hhedge,
    hprobe]
  rfl

/-- A handshake packet that goes out again: a stop-waiting notice, the packet built, sent. -/
theorem resendHandshake_ok {id : PathId} {lost : Packet} {c c' : Connection σ}
    (h : resendHandshake S id lost c = .ok () c') :
    ∃ packet c₁ c₂, queueStopWaiting S id true c = .ok () c₁ ∧
      packHandshake S id lost c₁ = .ok packet c₂ ∧ transmit S id packet c₂ = .ok () c' := by
  obtain ⟨⟨⟩, c₁, hstop, h⟩ := bind_ok h
  obtain ⟨packet, c₂, hpack, h⟩ := bind_ok h
  exact ⟨packet, c₁, c₂, hstop, hpack, h⟩

/-- A sign of life is queued for a path on which one is due. -/
def signOfLife (S : Session σ) (id : PathId) : Act σ Unit := do
  let c ← get
  if (c.path id).telemetry.retransmittableDue then queue S (some id) .ping

/-- What a round does with the packet that was built for a path, if there is one. -/
def passOn (S : Session σ) (updates : List WindowUpdate) (id : PathId) :
    Option Packet → Act σ (Option Packet)
  | none => return none
  | some packet => do
    transmit S id packet
    queueUpdates S (some id) updates
    modify fun c => { c with scheduler := c.scheduler.bumpQuota id }
    packet.finishedStreams.forM fun _ => finishStream S
    return some packet

/-- A round queues a sign of life if one is due, has a packet built and passes it on. -/
theorem sendNext_eq (updates : List WindowUpdate) (id : PathId) (c : Connection σ) :
    sendNext S updates id c = (do
      signOfLife S id
      let built ← pack S id
      passOn S updates id built : Act σ (Option Packet)) c := by
  unfold sendNext
  rw [get_bind]
  cases hdue : (c.path id).telemetry.retransmittableDue with
  | true =>
      have hsign : signOfLife S id c = queue S (some id) .ping c := by
        rw [signOfLife, get_bind, if_pos hdue]
      simp only [if_true, bind, EStateM.bind, hsign]
      rfl
  | false =>
      have hsign : signOfLife S id c = .ok () c := by
        rw [signOfLife, get_bind, if_neg (by simp [hdue])]
        rfl
      rw [bind_of_ok hsign]
      rfl

theorem signOfLife_ok {id : PathId} {c c' : Connection σ} (h : signOfLife S id c = .ok () c') :
    (c.path id).telemetry.retransmittableDue = false ∧ c' = c ∨
      (c.path id).telemetry.retransmittableDue = true ∧ queue S (some id) .ping c = .ok () c' := by
  rw [signOfLife, get_bind] at h
  split at h
  · exact .inr ⟨‹_›, h⟩
  · obtain ⟨-, rfl⟩ := pure_ok h
    exact .inl ⟨Bool.not_eq_true _ ▸ ‹_›, rfl⟩

/-- A round queues a sign of life if one is due, and then a packet is built and sent, or not
built. -/
theorem sendNext_cases {updates : List WindowUpdate} {id : PathId} {answer : Option Packet}
    {c c' : Connection σ} (h : sendNext S updates id c = .ok answer c') :
    ∃ c₁ c₂, ((c.path id).telemetry.retransmittableDue = false ∧ c₁ = c ∨
        (c.path id).telemetry.retransmittableDue = true ∧
          queue S (some id) .ping c = .ok () c₁) ∧
      pack S id c₁ = .ok answer c₂ ∧
      (answer = none ∧ c' = c₂ ∨ ∃ packet c₃ c₄, answer = some packet ∧
        transmit S id packet c₂ = .ok () c₃ ∧ queueUpdates S (some id) updates c₃ = .ok () c₄ ∧
        packet.finishedStreams.forM (fun _ => finishStream S)
          { c₄ with scheduler := c₄.scheduler.bumpQuota id } = .ok () c') := by
  rw [sendNext_eq] at h
  obtain ⟨⟨⟩, c₁, hsign, h⟩ := bind_ok h
  obtain ⟨built, c₂, hpack, h⟩ := bind_ok h
  cases built with
  | none =>
      obtain ⟨rfl, rfl⟩ := pure_ok h
      exact ⟨c₁, c₂, signOfLife_ok hsign, hpack, .inl ⟨rfl, rfl⟩⟩
  | some packet =>
      obtain ⟨⟨⟩, c₃, hsend, h⟩ := bind_ok h
      obtain ⟨⟨⟩, c₄, hupdates, h⟩ := bind_ok h
      obtain ⟨⟨⟩, c₅, hbump, h⟩ := bind_ok h
      obtain ⟨⟨⟩, c₆, hfinish, h⟩ := bind_ok h
      obtain ⟨rfl, rfl⟩ := pure_ok h
      cases hbump
      exact ⟨c₁, c₂, signOfLife_ok hsign, hpack,
        .inr ⟨packet, c₃, c₄, rfl, hsend, hupdates, hfinish⟩⟩

theorem hedge_eq (id : PathId) (packet : Packet) (c : Connection σ) :
    hedge id packet c = .ok () (if c.needsHedge id then
      ⟨c.scheduler.note (.hedged id packet), c.paths.update id (·.queueCopy packet), c.session⟩
      else c) := by
  unfold hedge
  rw [get_bind]
  split <;> rfl

/-! ### The queues of packets to send again -/

/-- The queues are as they were. -/
abbrev SameQueues (c c' : Connection σ) : Prop := c'.paths.queues = c.paths.queues

theorem accrues_sameQueues : Accrues (SameQueues (σ := σ)) where
  refl _ := rfl
  trans h h' := h'.trans h

theorem sameQueues_callOn {α : Type} {call : PacketCall} {id : PathId}
    {operation : σ → Path → Reply σ α} {event : α → Event} :
    Keeps SameQueues (callOn call id operation event) := by
  intro c
  rw [callOn_eq]
  dsimp only
  split <;> exact PathSet.queues_update

/-- The calm steps leave the queues alone. -/
theorem calm_sameQueues (S : Session σ) : Calm S SameQueues where
  toAccrues := accrues_sameQueues
  queue _ _ _ := rfl
  returnStream _ _ := rfl
  schedulePaths _ := rfl
  askUpdates _ _ := rfl
  takePathControl _ := rfl
  unblock _ := rfl
  pack _ := sameQueues_callOn
  packAck _ := sameQueues_callOn
  transmit _ _ := keeps_bind accrues_sameQueues sameQueues_callOn fun _ =>
    keeps_modify fun _ => PathSet.queues_update
  ping _ := sameQueues_callOn
  announce _ _ _ := 
    PathSet.queues_update (by intro p; unfold Path.stopWaiting; split <;> rfl) (stopWaiting_id _)
  choose _ _ := by
    rw [choose_eq]
    dsimp only
    split
    · rfl
    · split <;> rfl
  finishStream := by
    refine keeps_get_bind fun c => ?_
    dsimp only
    split
    · split <;> rfl
    · rfl

theorem sameQueues_takeAck (id : PathId) (now : Instant) :
    Keeps (SameQueues (σ := σ)) (takeAck id now) := by
  intro c
  rw [takeAck_eq]
  dsimp only
  split <;> exact PathSet.queues_update

theorem sameQueues_publish (c : Connection σ) :
    SameQueues c { c with paths := c.paths.updateAll Path.publish } :=
  PathSet.queues_updateAll

/-! ### Runs -/

theorem sendRounds_of_continue {n : Nat} {updates updates' : List WindowUpdate}
    {c c' : Connection σ} (h : sendRound S updates c = .ok (some updates') c') :
    sendRounds S (n + 1) updates c = sendRounds S n updates' c' := by
  simp only [sendRounds, bind, EStateM.bind, h]

theorem sendRounds_of_stop {n : Nat} {updates : List WindowUpdate} {c c' : Connection σ}
    (h : sendRound S updates c = .ok none c') :
    sendRounds S (n + 1) updates c = .ok .finished c' := by
  simp only [sendRounds, bind, EStateM.bind, h]
  rfl

theorem id_publish (p : Path) : p.publish.id = p.id := rfl

/-- What a run does before its first round. -/
def opening (S : Session σ) : Act σ (List WindowUpdate) := do
  modify fun c => { c with paths := c.paths.updateAll Path.publish id_publish }
  let updates ← askUpdates S false
  queueUpdates S none updates
  return updates

theorem queueUpdates_total (target : Option PathId) (updates : List WindowUpdate)
    (c : Connection σ) : ∃ c', queueUpdates S target updates c = .ok () c' := by
  induction updates generalizing c with
  | nil => exact ⟨c, rfl⟩
  | cons f rest ih => exact ih _

theorem events_queueUpdates {target : Option PathId} {updates : List WindowUpdate}
    {c c' : Connection σ} (h : queueUpdates S target updates c = .ok () c') :
    c'.events = c.events ++ updates.map fun f => .queued target (.windowUpdate f) := by
  induction updates generalizing c with
  | nil =>
      obtain ⟨-, rfl⟩ := pure_ok h
      exact (List.append_nil _).symm
  | cons f updates ih =>
      obtain ⟨⟨⟩, c₁, hqueue, h⟩ := bind_ok h
      cases hqueue
      rw [ih h, events_note, List.append_assoc]
      rfl

/-- A run asks for the window updates that are due, and queues them for whichever path comes
first. -/
theorem events_opening {updates : List WindowUpdate} {c c' : Connection σ}
    (h : opening S c = .ok updates c') :
    updates = (S.windowUpdates c.session false).1 ∧
      c'.events = c.events ++ .updatesAsked false updates ::
        updates.map fun f => .queued none (.windowUpdate f) := by
  obtain ⟨⟨⟩, c₁, hpublish, h⟩ := bind_ok h
  cases hpublish
  rw [bind_of_ok (askUpdates_eq false _)] at h
  obtain ⟨⟨⟩, c₂, hqueue, h⟩ := bind_ok h
  obtain ⟨rfl, rfl⟩ := pure_ok h
  refine ⟨rfl, ?_⟩
  rw [events_queueUpdates hqueue, events_note, List.append_assoc]
  rfl

/-- A run opens, which cannot fail, and goes on with its rounds. -/
theorem send_eq (S : Session σ) (c : Connection σ) :
    ∃ updates c₁, opening S c = .ok updates c₁ ∧
      ∀ n, send S n c = sendRounds S n updates c₁ := by
  let c₁ : Connection σ := { c with paths := c.paths.updateAll Path.publish }
  let updates := (S.windowUpdates c₁.session false).1
  let c₂ : Connection σ := ⟨c₁.scheduler.note (.updatesAsked false updates), c₁.paths,
    (S.windowUpdates c₁.session false).2⟩
  obtain ⟨c₃, hqueue⟩ := queueUpdates_total (S := S) none updates c₂
  refine ⟨updates, c₃, ?_, fun n => ?_⟩
  · show ((do queueUpdates S none updates; return updates) : Act σ _) c₂ = _
    simp only [bind, EStateM.bind, hqueue]
    rfl
  · show ((do queueUpdates S none updates; sendRounds S n updates) : Act σ _) c₂ = _
    simp only [bind, EStateM.bind, hqueue]

/-- What the steps of a flush keep and publishing keeps, the opening of a run keeps. -/
theorem Flushes.opening {R : Connection σ → Connection σ → Prop} (h : Flushes S R)
    (hpublish : ∀ c, R c { c with paths := c.paths.updateAll Path.publish }) :
    Keeps R (opening S) :=
  keeps_bind h.toAccrues (keeps_modify hpublish) fun _ =>
    keeps_bind h.toAccrues (h.askUpdates false) fun updates =>
      keeps_bind h.toAccrues (h.queueUpdates none updates) fun _ => keeps_pure h.toAccrues _

/-- What was done in a run that came to its end. -/
def finishedEvents? : EStateM.Result Error (Connection σ) SendOutcome → Option (List Event)
  | .ok .finished c => some c.events
  | _ => none

theorem finishedEvents?_eq_some {r : EStateM.Result Error (Connection σ) SendOutcome}
    {evs : List Event} : finishedEvents? r = some evs ↔
      ∃ c, r = .ok .finished c ∧ c.events = evs := by
  constructor
  · intro h
    unfold finishedEvents? at h
    split at h
    · exact ⟨_, rfl, Option.some.inj h⟩
    · cases h
  · rintro ⟨c, rfl, rfl⟩
    rfl

end Connection

end Multipath
