import Multipath.Proofs.Connection.Flushing
import Multipath.Proofs.Connection.Rounds

/-!
# The acknowledgements of a run

A round of the send loop takes the acknowledgement of its path before it knows whether there is
anything to send.  If the packer then builds no packet, the loop ends, and the flush that follows
asks every path for its acknowledgement: the path of the last round has none any more.  What was
taken in that round waits for a packet that only window updates can bring about, and a packer that
forgets what it did not send has lost it.

* `round_cases`: a round answers every acknowledgement it takes, or it is the last one and the
  packer declines.
* `send_cases`: the same for a whole run.
* `acks_sent_iff`: the exact condition under which a run that ends sends what it took.
-/

namespace Multipath

namespace Connection

variable {σ : Type} {S : Session σ} {W : σ → PathId → AckFrame → Prop}

/-! ### The parts of a round -/

/-- The frames a round attaches besides the acknowledgement. -/
theorem queues_control (hS : Packs S W) (id : PathId) :
    Keeps (Queues W) (do
      let frames ← takePathControl S
      frames.forM (queue S (some id))) := by
  refine keeps_bind accrues_queues (fun c => ?_) fun frames =>
    keeps_forM accrues_queues fun frame _ => queues_queue hS _ frame
  exact ⟨.of_eq rfl, fun _ => rfl, hS.takeControl_kept⟩

/-- A round attaches frames only, or takes the acknowledgement that is due and attaches it. -/
theorem attachControl_ok (hS : Packs S W) {id : PathId} {hasReturnedStreams : Bool}
    {c c' : Connection σ} (h : attachControl S id hasReturnedStreams c = .ok () c') :
    Grows (·.isQueued = true) c c' ∨ ∃ frame, Took W id frame c c' := by
  unfold attachControl at h
  rw [get_bind] at h
  obtain ⟨answer, c₁, htake, h⟩ := bind_ok h
  cases answer with
  | none =>
      dsimp only at h
      refine .inl (accrues_grows.trans (.of_eq (takeAck_none htake)) ?_)
      split at h
      · obtain ⟨⟨⟩, c₂, hstop, h⟩ := bind_ok h
        exact (accrues_queues.trans ((queues_stopWaiting hS _ _).ok hstop)
          ((queues_control hS id).ok h)).grows
      · exact ((queues_control hS id).ok h).grows
  | some frame =>
      obtain ⟨⟨⟩, c₂, hqueue, h⟩ := bind_ok h
      have htook : Took W id frame c c₂ := took_of_queue hS htake (accrues_queues.refl c₁) hqueue
      simp only [Option.isSome_some, Bool.true_or, if_true] at h
      obtain ⟨⟨⟩, c₃, hstop, h⟩ := bind_ok h
      have hrest : Queues W c₂ c' := accrues_queues.trans ((queues_stopWaiting hS _ _).ok hstop)
        ((queues_control hS id).ok h)
      exact .inr ⟨frame, htook.queues hrest⟩

/-- A round queues a sign of life if one is due, and then a packet is built or not. -/
theorem sendNext_ok (hS : Packs S W) {updates : List WindowUpdate} {id : PathId}
    {answer : Option Packet} {c c' : Connection σ}
    (h : sendNext S updates id c = .ok answer c') :
    ∃ c₁, Queues W c c₁ ∧
      (answer = none ∧ pack S id c₁ = .ok none c' ∨
        ∃ packet c₂ c₃, answer = some packet ∧ pack S id c₁ = .ok (some packet) c₂ ∧
          transmit S id packet c₂ = .ok () c₃ ∧ Quiet c₃ c') := by
  obtain ⟨c₁, c₂, hdue, hpack, hrest⟩ := sendNext_cases h
  have hqueues : Queues W c c₁ := by
    rcases hdue with ⟨-, rfl⟩ | ⟨-, hqueue⟩
    · exact accrues_queues.refl c₁
    · exact (queues_queue hS _ _).ok hqueue
  refine ⟨c₁, hqueues, ?_⟩
  rcases hrest with ⟨rfl, rfl⟩ | ⟨packet, c₃, c₄, rfl, hsend, hupdates, hfinish⟩
  · exact .inl ⟨rfl, hpack⟩
  · -- only what follows the sending matters below, so the rest is taken as one step
    have hquiet : Quiet c₃ c' :=
      accrues_grows.trans (((tame_quiet S).queueUpdates _ _).ok hupdates)
        (accrues_grows.trans ((tame_quiet S).bump c₄ id)
          ((keeps_forM accrues_grows fun _ _ => (tame_quiet S).finishStream).ok hfinish))
    exact .inr ⟨packet, c₂, c₃, rfl, hpack, hsend, hquiet⟩

/-! ### Rounds and runs -/

/-- An acknowledgement is taken, no packet is built, and the paths are flushed. -/
def BreaksOff (S : Session σ) (W : σ → PathId → AckFrame → Prop) (c c' : Connection σ) : Prop :=
  ∃ id frame queued c₁ c₂, Answers c c₁ ∧
    c₂.events = c₁.events ++ .acknowledged id frame :: (queued ++ [.packed id none]) ∧
    (∀ e ∈ queued, e.isQueued = true) ∧ c₂.IsIdle id ∧
    (Forgets S W → ¬ W c₂.session id frame) ∧ flush S [] c₂ = .ok () c'

/-- What an ordinary round does on its path: the acknowledgement goes out with the packet, or no
packet is built. -/
theorem attach_send (hS : Packs S W) {updates : List WindowUpdate} {id : PathId}
    {hasReturnedStreams : Bool} {answer : Option Packet} {c c₁ c₂ : Connection σ}
    (hattach : attachControl S id hasReturnedStreams c = .ok () c₁)
    (hsend : sendNext S updates id c₁ = .ok answer c₂) :
    Answers c c₂ ∨ answer = none ∧ ∃ frame queued,
      c₂.events = c.events ++ .acknowledged id frame :: (queued ++ [.packed id none]) ∧
      (∀ e ∈ queued, e.isQueued = true) ∧ c₂.IsIdle id ∧
      (Forgets S W → ¬ W c₂.session id frame) := by
  obtain ⟨c₃, hqueues, hbuilt⟩ := sendNext_ok hS hsend
  rcases attachControl_ok hS hattach with hgrows | ⟨frame, htook⟩
  · -- nothing was taken
    have hquiet : Quiet c c₃ := accrues_grows.trans
      (hgrows.mono fun _ => not_isAcknowledged_of_isQueued) hqueues.quiet
    refine .inl (Grows.answers (accrues_grows.trans hquiet ?_))
    rcases hbuilt with ⟨-, hpack⟩ | ⟨packet, c₄, c₅, -, hpack, htransmit, hrest⟩
    · exact ((tame_quiet S).pack id).ok hpack
    · exact accrues_grows.trans (((tame_quiet S).pack id).ok hpack)
        (accrues_grows.trans (((tame_quiet S).transmit id packet).ok htransmit) hrest)
  · have htook₃ : Took W id frame c c₃ := htook.queues hqueues
    rcases hbuilt with ⟨rfl, hpack⟩ | ⟨packet, c₄, c₅, -, hpack, htransmit, hrest⟩
    · -- the packer declines
      obtain ⟨queued, hevents, hqueued⟩ := htook₃.events
      obtain ⟨hresult, hsession, hnone, hreceiver⟩ := callOn_ok hpack
      refine .inr ⟨rfl, frame, queued, ?_, hqueued,
        (IsIdle.congr (hreceiver id)).mpr htook₃.idle, fun hforgets => ?_⟩
      · rw [hnone, hevents]
        simp
      · have hgone := hforgets c₃.session (c₃.path id) frame hresult
        rwa [path_id, ← hsession] at hgone
    · obtain ⟨hresult, -, hpacked, -⟩ := callOn_ok hpack
      have hframe : .ack frame ∈ packet.frames := by
        rw [hS.pack_frames hresult, path_id]
        exact htook₃.waiting
      exact .inl (accrues_answers.trans (htook₃.answers (.inl rfl) hpacked hframe htransmit)
        hrest.answers)

/-- **A round answers what it takes, or it is the last one and nothing is sent.** -/
theorem round_cases (hS : Packs S W) {updates : List WindowUpdate}
    {answer : Option (List WindowUpdate)} {c c' : Connection σ}
    (h : sendRound S updates c = .ok answer c') :
    Answers c c' ∨ answer = none ∧ BreaksOff S W c c' := by
  obtain ⟨recovery, c₁, chosen, c₂, hback, hchoose, hproceeds⟩ := round_ok h
  have hquiet : Quiet c c₂ := accrues_grows.trans ((tame_quiet S).takeBack.ok hback)
    ((tame_quiet S).choose _ |>.ok hchoose)
  cases hproceeds with
  | idle hask hflush =>
      -- no path may send: the flush is all that happens
      have hasked := accrues_grows.trans hquiet ((tame_quiet S).askUpdates _ |>.ok hask)
      exact .inl (accrues_answers.trans hasked.answers (flush_answers hS hflush))
  | resend _ hresend =>
      exact .inl (Grows.answers
        (accrues_grows.trans hquiet ((tame_quiet S).resendHandshake _ _ |>.ok hresend)))
  | @decline id c₃ c₄ c' _ hattach hsend hflush =>
      -- the round ends the run, and an acknowledgement may be left over
      rcases attach_send hS hattach hsend with
        hanswers | ⟨-, frame, queued, hevents, hqueued, hidle, hgone⟩
      · exact .inl (accrues_answers.trans hquiet.answers
          (accrues_answers.trans hanswers (flush_answers hS hflush)))
      · exact .inr ⟨rfl, id, frame, queued, c₂, c₄, hquiet.answers, hevents, hqueued,
          hidle, hgone, hflush⟩
  | @carry id packet c₃ c₄ c₅ c' _ hattach hsend hhedge hprobe =>
      have hrest : Quiet c₄ c' :=
        accrues_grows.trans ((tame_quiet S).hedge _ _ |>.ok hhedge)
          ((tame_quiet S).probe _ |>.ok hprobe)
      rcases attach_send hS hattach hsend with hanswers | ⟨hnone, -⟩
      · exact .inl (accrues_answers.trans hquiet.answers
          (accrues_answers.trans hanswers (Grows.answers hrest)))
      · cases hnone

/-- A run that ends answers what it takes, up to its last round perhaps. -/
theorem rounds_cases (hS : Packs S W) {n : Nat} {updates : List WindowUpdate}
    {c c' : Connection σ} (h : sendRounds S n updates c = .ok .finished c') :
    Answers c c' ∨ BreaksOff S W c c' := by
  induction n generalizing updates c with
  | zero =>
      obtain ⟨hne, -⟩ := pure_ok h
      cases hne
  | succ n ih =>
      obtain ⟨answer, c₁, hround, h⟩ := bind_ok h
      rcases round_cases hS hround with hanswers | ⟨rfl, hbreaks⟩
      · cases answer with
        | none =>
            obtain ⟨-, rfl⟩ := pure_ok h
            exact .inl hanswers
        | some updates =>
            rcases ih h with hrest | ⟨id, frame, queued, c₂, c₃, hrest, hbreaks⟩
            · exact .inl (accrues_answers.trans hanswers hrest)
            · exact .inr ⟨id, frame, queued, c₂, c₃, accrues_answers.trans hanswers hrest, hbreaks⟩
      · obtain ⟨-, rfl⟩ := pure_ok h
        exact .inr hbreaks

/-- The same for a whole run. -/
theorem send_cases (hS : Packs S W) {n : Nat} {c c' : Connection σ}
    (h : send S n c = .ok .finished c') : Answers c c' ∨ BreaksOff S W c c' := by
  obtain ⟨⟨⟩, c₁, hpublish, h⟩ := bind_ok h
  obtain ⟨updates, c₂, hask, h⟩ := bind_ok h
  obtain ⟨⟨⟩, c₃, hupdates, h⟩ := bind_ok h
  have hquiet : Quiet c c₃ :=
    accrues_grows.trans ((keeps_modify (tame_quiet S).publish).ok hpublish)
      (accrues_grows.trans ((tame_quiet S).askUpdates _ |>.ok hask)
        ((tame_quiet S).queueUpdates _ _ |>.ok hupdates))
  rcases rounds_cases hS h with hrest | ⟨id, frame, queued, c₄, c₅, hrest, hbreaks⟩
  · exact .inl (accrues_answers.trans hquiet.answers hrest)
  · exact .inr ⟨id, frame, queued, c₄, c₅, accrues_answers.trans hquiet.answers hrest, hbreaks⟩

/-! ### A path with nothing but an acknowledgement -/

/-- The first packet has just arrived on the primary path, and `data` is there to send. -/
def firstArrival (data : List (List DataFrame)) : Connection Script where
  scheduler := .new {} {} ⟨1⟩ ⟨0⟩ none default default
  paths := (PathSet.empty.insert (.new .initial {} default)).insert
    (.new .primary { rtt := .ofMillis 10 }
      (Watched.run .v39 Receiver.defaultAckDelay [.receive .one true ⟨0⟩]).receiver)
  session := { data }

/-- The acknowledgement of the first packet. -/
def firstAck : AckFrame := ⟨.one, .one, ⟨0⟩, [], 0, 0, 0, Receiver.defaultAlpha⟩

/-- Without data, the acknowledgement is taken, no packet is built, and the flush sends nothing. -/
theorem finishedEvents?_firstArrival :
    finishedEvents? (send Script.session 1 (firstArrival [])) = some
      [.updatesAsked false [], .acknowledged .primary firstAck,
        .queued (some .primary) (.ack firstAck), .queued (some .primary) (.stopWaiting .one),
        .packed .primary none, .updatesAsked false [], .unblocked] := by
  decide +kernel

/-! ### What a run sends -/

/-- **The acknowledgements of a run that ends.**  For every session that packs what waits, all of
them are sent unless the packer declined one of them: that one is sent if a packet of the flush
carries it.  It takes window updates to bring such a packet about, and the initial path has none;
if the packer forgets what it declined, it does not carry the acknowledgement even then. -/
theorem acks_sent_iff (hS : Packs S W) {n : Nat} {c c' : Connection σ}
    (h : send S n c = .ok .finished c') :
    ∃ evs, c'.events = c.events ++ evs ∧
      (AllSent evs ↔ ∀ id frame post, Declined evs id frame post → SentIn id frame post) ∧
      (∀ id frame post, Declined evs id frame post → SentIn id frame post →
        id ≠ .initial ∧ ∃ force updates, .updatesAsked force updates ∈ post ∧ updates ≠ []) ∧
      (Forgets S W → (AllSent evs ↔ ∀ id frame post, ¬ Declined evs id frame post)) := by
  rcases send_cases hS h with ⟨evs, hevents, heach⟩ |
    ⟨id, frame, queued, c₁, c₂, ⟨pre, hpre, heach⟩, hdeclined, hqueued, hidle, hgone, hflush⟩
  · have hsent : AllSent evs := fun id frame post hsuffix => (heach id frame post hsuffix).sentIn
    refine ⟨evs, hevents, ?_, fun _ _ _ hd => absurd hd heach.not_declined, fun _ => ?_⟩
    · exact ⟨fun _ _ _ _ hd => absurd hd heach.not_declined, fun _ => hsent⟩
    · exact ⟨fun _ _ _ _ => heach.not_declined, fun _ => hsent⟩
  · obtain ⟨post, hpost, hidles⟩ := flush_idle hS hidle hflush
    have heach' : Each Answered post := by
      obtain ⟨evs, hevs, heach'⟩ := flush_answers hS hflush
      rw [hpost] at hevs
      rwa [List.append_cancel_left hevs]
    -- the acknowledgement of the last round is the only one that was declined
    let evs := pre ++ .acknowledged id frame :: (queued ++ .packed id none :: post)
    have hthis : Declined evs id frame post := ⟨queued, hqueued, List.suffix_append _ _⟩
    have hunique : ∀ {id' frame' post'}, Declined evs id' frame' post' →
        id' = id ∧ frame' = frame ∧ post' = post := declined_unique heach hqueued heach'
    have hiff : AllSent evs ↔ SentIn id frame post := allSent_iff heach hqueued heach'
    refine ⟨evs, ?_, ?_, ?_, fun hforgets => ?_⟩
    · rw [hpost, hdeclined, hpre]
      simp [evs]
    · rw [hiff]
      constructor
      · rintro hsent id' frame' post' hd
        obtain ⟨rfl, rfl, rfl⟩ := hunique hd
        exact hsent
      · exact fun hall => hall id frame post hthis
    · rintro id' frame' post' hd hsent
      obtain ⟨rfl, rfl, rfl⟩ := hunique hd
      exact (hidles _ hsent).2
    · rw [hiff]
      constructor
      · exact fun hsent => absurd (hidles frame hsent).1 (hgone hforgets)
      · exact fun hnone => absurd hthis (hnone id frame post)

/-- The condition for scripted sessions, at a run without data. -/
theorem acks_sent_iff_firstArrival :
    ∃ c', send Script.session 1 (firstArrival []) = .ok .finished c' ∧
      ∃ evs, c'.events = evs ∧
        (AllSent evs ↔ ∀ id frame post, ¬ Declined evs id frame post) := by
  obtain ⟨c', hrun, -⟩ := finishedEvents?_eq_some.mp finishedEvents?_firstArrival
  obtain ⟨evs, hevents, -, -, hiff⟩ := acks_sent_iff Script.packs_script hrun
  exact ⟨c', hrun, evs, hevents, hiff Script.forgets_script⟩

/-- **An acknowledgement is lost.**  A scripted session without data builds no packet out of
frames that call for no acknowledgement, and the acknowledgement of a first packet is taken in a
run that ends well and sends nothing at all. -/
theorem ack_lost_firstArrival :
    (∀ (s : Script) (path : Path) (packet : Packet), (∀ batch ∈ s.data, batch ≠ []) →
      (Script.session.pack s path).result = .ok (some packet) →
        packet.frames.any (·.isRetransmittable) = true) ∧
    ∃ c', send Script.session 1 (firstArrival []) = .ok .finished c' ∧
      .acknowledged .primary firstAck ∈ c'.events ∧ (∀ id packet, .sent id packet ∉ c'.events) ∧
      ¬ AllSent c'.events := by
  refine ⟨fun s path packet => Script.isRetransmittable_pack, ?_⟩
  obtain ⟨c', hrun, hevents⟩ := finishedEvents?_eq_some.mp finishedEvents?_firstArrival
  have hnone : ∀ id packet, .sent id packet ∉ c'.events := by
    intro id packet
    simp [hevents]
  refine ⟨c', hrun, by simp [hevents], hnone, fun hall => ?_⟩
  rw [hevents] at hnone hall
  obtain ⟨packet, hsent, -⟩ := hall .primary firstAck _ (List.suffix_cons _ _)
  exact hnone .primary packet (List.mem_cons_of_mem _ (List.mem_cons_of_mem _ hsent))

end Connection

end Multipath
