import Multipath.Proofs.Connection.Accounting
import Multipath.Proofs.Connection.Draining
import Multipath.Proofs.Scheduler.Best

/-!
# Strays

A packet that was taken back may go out on a path that may not send.  Once the handshake is
complete, handshake packets are only taken back to be discarded, but the round in which this happens
still selects a path as if there were something to send again.  If every additional path is
blocked, that is the one round in which round robin and the lowest round-trip time find a path; a
packet built there is a stray.

* `Settled`: sessions whose handshake is complete and stays so.
* `takeBack_discards`: handshake packets that wait are discarded, and nothing else happens.
* `HandsOut`: the session has a packet for the path that the first round selects.
* `Bystands`: no packet is built by the rounds, and what is sent all the same was due.
* `stray_iff`: on blocked paths there is a stray exactly if a handshake packet was discarded, a
  path is selected for it, and the session hands out a packet.
-/

namespace Multipath

/-- In the states of `I` the handshake is complete and no piece of a stream waits to be sent again,
and neither queueing a control frame nor asking for window updates leads out of `I`. -/
structure Settled {σ : Type} (S : Session σ) (I : σ → Prop) : Prop where
  complete : ∀ {s}, I s → S.handshakeComplete s = true
  returned : ∀ {s}, I s → S.hasReturnedStreams s = false
  queueControl : ∀ {s frame target}, I s → I (S.queueControl s frame target)
  windowUpdates : ∀ {s force}, I s → I (S.windowUpdates s force).2

/-- A scripted session stays settled. -/
theorem Script.settled_session :
    Settled session fun s => s.handshakeComplete = true ∧ s.returned = [] where
  complete h := h.1
  returned h := by simp [session, h.2]
  queueControl h := h
  windowUpdates {s force} h := by
    show (windowUpdates s force).2.handshakeComplete = true ∧
      (windowUpdates s force).2.returned = []
    unfold windowUpdates
    dsimp only
    split <;> exact h

namespace Connection

variable {σ : Type} {S : Session σ} {I : σ → Prop} {c c₁ c₂ c' : Connection σ} {id : PathId}

/-! ### Up to the first selection -/

/-- The settings, the quotas and what the paths show are as they were, and the session is in `I` if
it was. -/
def StillIn (I : σ → Prop) (c c' : Connection σ) : Prop :=
  Still c c' ∧ (I c.session → I c'.session)

theorem accrues_stillIn : Accrues (StillIn I) where
  refl c := ⟨accrues_still.refl c, fun h => h⟩
  trans h h' := ⟨accrues_still.trans h.1 h'.1, fun hI => h'.2 (h.2 hI)⟩

theorem stillIn_opening (hS : Settled S I) : Keeps (StillIn I) (opening S) :=
  keeps_bind accrues_stillIn (keeps_modify fun c => ⟨still_publish c, fun h => h⟩) fun _ =>
    keeps_bind accrues_stillIn (fun _ => ⟨⟨rfl, rfl, rfl⟩, hS.windowUpdates⟩) fun _ =>
      keeps_bind accrues_stillIn
        (keeps_forM accrues_stillIn fun _ _ _ => ⟨⟨rfl, rfl, rfl⟩, hS.queueControl⟩)
        fun _ => keeps_pure accrues_stillIn _

/-- **Handshake packets that wait are discarded** once the handshake is complete, and nothing else
happens; but something was taken back. -/
theorem takeBack_discards (hcomplete : S.handshakeComplete c.session = true)
    (hqueued : ∀ packet ∈ c.paths.queued, packet.isHandshake = true) :
    ∃ recovery c', takeBack S c = .ok recovery c' ∧ Still c c' ∧ c'.session = c.session ∧
      recovery.handshake = none ∧ (recovery.any = true ↔ c.paths.queued ≠ []) := by
  have hwaiting : ∀ e ∈ c.paths.waiting, e.2.isHandshake = true := by
    intro e he
    obtain ⟨p, hp, he⟩ := List.mem_flatMap.mp he
    obtain ⟨packet, hpacket, rfl⟩ := List.mem_map.mp he
    exact hqueued packet (List.mem_flatMap.mpr ⟨p, hp, hpacket⟩)
  have hnone : deliveries (S.receiveWindow c.session) (reached true c.paths.waiting) = [] := by
    rw [(reached_of_none (.inl rfl)).1, deliveries, List.flatMap_eq_nil_iff]
    intro e he
    rw [Packet.deliveries, if_pos (hwaiting e he)]
  have hlasts : Lasts S true (S.receiveWindow c.session) c.session
      (deliveries (S.receiveWindow c.session) (reached true c.paths.waiting)) := by
    intro made hmade
    obtain rfl : made = [] := List.prefix_nil.mp (hnone ▸ hmade)
    exact ⟨hcomplete, rfl⟩
  obtain ⟨recovery, c', rest, hback, -, hdrains⟩ := takeBack_drains hlasts
  refine ⟨recovery, c', hback, ⟨?_, ?_, ?_⟩, ?_, (hdrains.all (.inl rfl)).2, ?_⟩
  · rw [hdrains.scheduler]
  · rw [hdrains.scheduler]
  · rw [hdrains.paths]
    exact PathSet.faces_updateAll
  · rw [hdrains.session, hnone]
    rfl
  · rw [hdrains.any, PathSet.queued, ne_eq, List.flatMap_eq_nil_iff, Classical.not_forall]
    simp only [Classical.not_imp]
    exact Iff.rfl

/-- A run comes to its first selection, having opened and taken back what waits, and nothing has
changed that the selection reads. -/
structure Begins (S : Session σ) (c : Connection σ) (updates : List WindowUpdate)
    (c₁ : Connection σ) (recovery : Recovery) (c₂ : Connection σ) : Prop where
  opening : opening S c = .ok updates c₁
  rounds : ∀ n, send S n c = sendRounds S n updates c₁
  back : takeBack S c₁ = .ok recovery c₂
  still : Still c c₂
  returned : S.hasReturnedStreams c₂.session = false
  handshake : recovery.handshake = none

theorem exists_begins (hS : Settled S I) (hI : I c.session)
    (hqueued : ∀ packet ∈ c.paths.queued, packet.isHandshake = true) :
    ∃ updates c₁ recovery c₂, Begins S c updates c₁ recovery c₂ ∧
      (recovery.any = true ↔ c.paths.queued ≠ []) := by
  obtain ⟨updates, c₁, hopening, hsend⟩ := send_eq S c
  obtain ⟨hstill₁, hkeeps⟩ := (stillIn_opening hS).ok hopening
  have hqueues : SameQueues c c₁ := ((calm_sameQueues S).opening sameQueues_publish).ok hopening
  have hsame : c₁.paths.queued = c.paths.queued := by
    rw [PathSet.queued_eq_flatMap_queues, hqueues, ← PathSet.queued_eq_flatMap_queues]
  obtain ⟨recovery, c₂, hback, hstill₂, hsession, hhandshake, hany⟩ :=
    takeBack_discards (hS.complete (hkeeps hI)) (hsame ▸ hqueued)
  exact ⟨updates, c₁, recovery, c₂,
    { opening := hopening
      rounds := hsend
      back := hback
      still := accrues_still.trans hstill₁ hstill₂
      returned := hsession ▸ hS.returned (hkeeps hI)
      handshake := hhandshake }, hsame ▸ hany⟩

/-! ### Handing out a packet -/

/-- The session hands out a packet for the path, and it is sent. -/
def Hands (S : Session σ) (c : Connection σ) (id : PathId) : Prop :=
  ∃ packet c₁ c₂ c', signOfLife S id c = .ok () c₁ ∧ pack S id c₁ = .ok (some packet) c₂ ∧
    transmit S id packet c₂ = .ok () c'

/-- A packet that is sent raises the quota of its path. -/
theorem quota_passOn {packet : Packet} (updates : List WindowUpdate)
    (h : transmit S id packet c = .ok () c₁) :
    c.scheduler.quota id < (left (passOn S updates id (some packet) c)).scheduler.quota id := by
  rcases transmit_cases (S := S) id packet c with
    ⟨e, c', htransmit, -⟩ | ⟨c', htransmit, -, -, hquotas⟩
  · cases htransmit.symm.trans h
  · cases htransmit.symm.trans h
    have hpasses : passOn S updates id (some packet) c = _ := bind_of_ok h
    rw [hpasses, quota_congr (idles_afterTransmit updates id packet c₁).2,
      Scheduler.quota_bumpQuota, bumped_self, quota_congr hquotas]
    exact Nat.lt_succ_self _

/-- Without a packet that is sent, nothing is counted. -/
theorem idles_passOn (updates : List WindowUpdate) {built : Option Packet}
    (h : ∀ packet c', built = some packet → transmit S id packet c ≠ .ok () c') :
    Idles c (left (passOn S updates id built c)) ∧
      ∀ packet c', passOn S updates id built c ≠ .ok (some packet) c' := by
  cases built with
  | none => exact ⟨accrues_idles.refl c, fun packet c' h => by cases (pure_ok h).1⟩
  | some packet =>
      rcases transmit_cases (S := S) id packet c with
        ⟨e, c₁, htransmit, hevents, -, hquotas⟩ | ⟨c₁, htransmit, -⟩
      · have hfails : passOn S updates id (some packet) c = .error e c₁ := bind_of_error htransmit
        rw [hfails]
        refine ⟨.one hevents rfl hquotas, fun packet c' hok => ?_⟩
        cases hok
      · exact absurd htransmit (h packet c₁ rfl)

theorem quota_sendNext (updates : List WindowUpdate) (h : Hands S c id) :
    c.scheduler.quota id < (left (sendNext S updates id c)).scheduler.quota id := by
  obtain ⟨packet, c₁, c₂, c', hsign, hpack, hsend⟩ := h
  have hidles : Idles c c₂ :=
    accrues_idles.trans ((idles_signOfLife id).ok hsign) (((gentle_idles S).pack id).ok hpack)
  rw [sendNext_eq, bind_of_ok hsign, bind_of_ok hpack, ← quota_congr hidles.2]
  exact quota_passOn updates hsend

theorem idles_sendNext (updates : List WindowUpdate) (h : ¬ Hands S c id) :
    Idles c (left (sendNext S updates id c)) ∧
      ∀ packet c', sendNext S updates id c ≠ .ok (some packet) c' := by
  rw [sendNext_eq]
  have hidles := idles_signOfLife (S := S) id c
  cases hsign : signOfLife S id c with
  | error e c₁ =>
      rw [hsign] at hidles
      rw [bind_of_error hsign]
      refine ⟨hidles, fun packet c' hok => ?_⟩
      cases hok
  | ok a c₁ =>
      rw [hsign] at hidles
      have hidles' := (gentle_idles S).pack id c₁
      rw [bind_of_ok hsign]
      cases hpack : pack S id c₁ with
      | error e c₂ =>
          rw [hpack] at hidles'
          rw [bind_of_error hpack]
          refine ⟨accrues_idles.trans hidles hidles', fun packet c' hok => ?_⟩
          cases hok
      | ok built c₂ =>
          rw [hpack] at hidles'
          rw [bind_of_ok hpack]
          have hunsent : ∀ packet c', built = some packet → transmit S id packet c₂ ≠ .ok () c' :=
            fun packet c' hbuilt hsend => h ⟨packet, c₁, c₂, c', hsign, hbuilt ▸ hpack, hsend⟩
          obtain ⟨hpasses, hnone⟩ := idles_passOn updates hunsent
          exact ⟨accrues_idles.trans hidles (accrues_idles.trans hidles' hpasses), hnone⟩

/-! ### Packets that are due -/

/-- Window updates were due. -/
def OwesUpdates (evs : List Event) : Prop :=
  ∃ force updates, updates ≠ [] ∧ Event.updatesAsked force updates ∈ evs

/-- What was sent was built for an acknowledgement, unless window updates were due, or it was
`excused`. -/
def SendsDue (excused : Prop) (c c' : Connection σ) : Prop :=
  ∃ evs, c'.events = c.events ++ evs ∧ ∀ id packet, .sent id packet ∈ evs →
    .packedAck id packet ∈ evs ∨ OwesUpdates evs ∨ excused

variable {excused : Prop}

theorem accrues_sendsDue : Accrues (SendsDue (σ := σ) excused) where
  refl c := ⟨[], (List.append_nil _).symm, fun _ _ h => absurd h List.not_mem_nil⟩
  trans := by
    rintro c c₁ c₂ ⟨evs₁, h₁, hdue₁⟩ ⟨evs₂, h₂, hdue₂⟩
    have howes : ∀ evs, OwesUpdates evs → evs ⊆ evs₁ ++ evs₂ → OwesUpdates (evs₁ ++ evs₂) :=
      fun evs ⟨force, updates, hne, hmem⟩ hsub => ⟨force, updates, hne, hsub hmem⟩
    refine ⟨evs₁ ++ evs₂, by rw [h₂, h₁, List.append_assoc], fun id packet hsent => ?_⟩
    rcases List.mem_append.mp hsent with hsent | hsent
    · have hsub : evs₁ ⊆ evs₁ ++ evs₂ := List.subset_append_left _ _
      exact (hdue₁ id packet hsent).imp (hsub ·) (Or.imp_left (howes _ · hsub))
    · have hsub : evs₂ ⊆ evs₁ ++ evs₂ := List.subset_append_right _ _
      exact (hdue₂ id packet hsent).imp (hsub ·) (Or.imp_left (howes _ · hsub))

theorem Idles.sendsDue (h : Idles c c') : SendsDue excused c c' := by
  obtain ⟨⟨evs, hevents, hidle⟩, -⟩ := h
  refine ⟨evs, hevents, fun id packet hsent => ?_⟩
  cases (Event.isIdle_iff.mp (hidle _ hsent)).1

theorem Stays.sendsDue (h : Stays c c') (hexcused : excused) : SendsDue excused c c' := by
  obtain ⟨⟨evs, hevents, -⟩, -⟩ := h
  exact ⟨evs, hevents, fun _ _ _ => .inr (.inr hexcused)⟩

/-- A packet built for an acknowledgement is due. -/
theorem sendsDue_packFlush (frame : AckFrame) {next : Option Packet → Act σ Unit}
    (hnext : ∀ packet, next (some packet) = transmit S id packet) :
    Keeps (SendsDue excused) (packFlush S id (some frame) >>= next) := by
  intro c
  obtain ⟨c₁, hqueue⟩ : ∃ c₁, queue S (some id) (.ack frame) c = .ok () c₁ := ⟨_, rfl⟩
  have hqueued : Idles c c₁ := ((gentle_idles S).queue _ _).ok hqueue
  have hflush : packFlush S id (some frame) c = (some <$> packAck S id : Act σ _) c₁ :=
    bind_of_ok hqueue
  refine accrues_sendsDue.trans hqueued.sendsDue ?_
  rcases callOn_cases .packAck id S.packAck (.packedAck id) c₁ with
    ⟨e, c₂, hpack, hidles⟩ | ⟨packet, c₂, hpack, hevents, hquotas⟩
  · have hpack : packAck S id c₁ = .error e c₂ := hpack
    have hfails : packFlush S id (some frame) c = .error e c₂ := by
      simp only [hflush, Functor.map, EStateM.map, hpack]
    rw [bind_of_error hfails]
    exact hidles.sendsDue
  · have hpack : packAck S id c₁ = .ok packet c₂ := hpack
    have hbuilds : packFlush S id (some frame) c = .ok (some packet) c₂ := by
      simp only [hflush, Functor.map, EStateM.map, hpack]
    rw [bind_of_ok hbuilds, hnext]
    rcases transmit_cases (S := S) id packet c₂ with
      ⟨e, c₃, htransmit, hevents', -, hquotas'⟩ | ⟨c₃, htransmit, hevents', -⟩
    · rw [htransmit]
      exact (accrues_idles.trans (Idles.one hevents rfl hquotas)
        (Idles.one hevents' rfl hquotas')).sendsDue
    · rw [htransmit]
      refine ⟨[.packedAck id packet, .sent id packet], ?_, fun i sent hsent => .inl ?_⟩
      · rw [left, hevents', hevents, List.append_assoc]
        rfl
      · simp only [List.mem_cons, reduceCtorEq, Event.sent.injEq, List.not_mem_nil, or_false,
          false_or] at hsent
        obtain ⟨rfl, rfl⟩ := hsent
        exact List.mem_cons_self

/-- Without window updates, a path is flushed only for an acknowledgement. -/
theorem sendsDue_flushPath (updates : List WindowUpdate) (now : Instant) (id : PathId) :
    Keeps (SendsDue (updates ≠ [])) (flushPath S updates now id) := by
  by_cases hnone : updates = []
  · subst hnone
    refine keeps_bind accrues_sendsDue ((idles_takeAck id now).mono Idles.sendsDue) fun found =>
      keeps_bind accrues_sendsDue
        (((gentle_idles S).queueUpdates _ _).mono Idles.sendsDue) fun _ => ?_
    cases found with
    | none => exact keeps_pure accrues_sendsDue _
    | some frame =>
        exact keeps_bind accrues_sendsDue
          (((gentle_idles S).queueStopWaiting id false).mono Idles.sendsDue) fun _ =>
          sendsDue_packFlush frame fun _ => rfl
  · exact ((calm_stays S).flushPath stays_takeAck updates now id).mono (·.sendsDue hnone)

theorem sendsDue_flushPaths (updates : List WindowUpdate) : Keeps (SendsDue (updates ≠ [])) (do
    let c ← get
    c.paths.ids.forM (flushPath S updates (S.now c.session))
    unblock S : Act σ Unit) :=
  keeps_get_bind fun c => keeps_bind accrues_sendsDue
    (keeps_forM accrues_sendsDue fun id _ => sendsDue_flushPath updates _ id)
    (fun _ c => (Idles.one (events_note c _ _ _) rfl rfl).sendsDue) c

/-- The window updates that the session names when it is asked excuse what follows. -/
theorem sendsDue_askUpdates {α : Type} (force : Bool) {f : List WindowUpdate → Act σ α}
    (hf : ∀ updates, Keeps (SendsDue (updates ≠ [])) (f updates)) :
    Keeps (SendsDue excused) (askUpdates S force >>= f) := by
  intro c
  rw [bind_of_ok (askUpdates_eq force c)]
  generalize (S.windowUpdates c.session force).1 = updates
  obtain ⟨evs, hevents, hdue⟩ := hf updates
    ⟨c.scheduler.note (.updatesAsked force updates), c.paths, (S.windowUpdates c.session force).2⟩
  refine ⟨.updatesAsked force updates :: evs, ?_, fun id packet hsent => ?_⟩
  · rw [hevents, events_note, List.append_assoc]
    rfl
  · rcases hdue id packet ((List.mem_cons.mp hsent).resolve_left nofun) with
      hack | ⟨force', updates', hne, hmem⟩ | hne
    · exact .inl (List.mem_cons_of_mem _ hack)
    · exact .inr (.inl ⟨force', updates', hne, List.mem_cons_of_mem _ hmem⟩)
    · exact .inr (.inl ⟨force, updates, hne, List.mem_cons_self⟩)

/-- A flush without window updates of its own asks for them first. -/
theorem sendsDue_flush_nil : Keeps (SendsDue excused) (flush S []) :=
  keeps_get_bind fun c => sendsDue_askUpdates _ sendsDue_flushPaths c

theorem sendsDue_flush (updates : List WindowUpdate) :
    Keeps (SendsDue (updates ≠ [])) (flush S updates) := by
  by_cases hnone : updates = []
  · subst hnone
    exact sendsDue_flush_nil
  · exact ((calm_stays S).flush stays_takeAck updates).mono (·.sendsDue hnone)

/-! ### Runs without a stray -/

/-- The rounds built no packet that was sent, and what was sent all the same was due. -/
def Bystands (c c' : Connection σ) : Prop :=
  SendsDue False c c' ∧ c'.scheduler.quotas = c.scheduler.quotas

theorem accrues_bystands : Accrues (Bystands (σ := σ)) where
  refl c := ⟨accrues_sendsDue.refl c, rfl⟩
  trans h h' := ⟨accrues_sendsDue.trans h.1 h'.1, h'.2.trans h.2⟩

theorem Idles.bystands (h : Idles c c') : Bystands c c' := ⟨h.sendsDue, h.2⟩

theorem bystands_opening {updates : List WindowUpdate} (h : opening S c = .ok updates c') :
    Bystands c c' := by
  obtain ⟨evs, hevents, hunsent, hquotas⟩ :=
    opening_events (P := (·.isSent = false)) (fun _ => rfl) h
  refine ⟨⟨_, hevents, fun id packet hsent => ?_⟩, hquotas⟩
  have hmem := (List.mem_cons.mp hsent).resolve_left nofun
  cases hunsent _ hmem

theorem bystands_flush_nil : Keeps Bystands (flush S []) := fun c =>
  ⟨sendsDue_flush_nil c, ((calm_stays S).flush stays_takeAck [] c).2⟩

/-- The last round of a run that finds no path. -/
theorem bystands_close : Keeps Bystands (do
    let due ← askUpdates S false
    flush S due
    return none : Act σ (Option (List WindowUpdate))) := by
  intro c
  have hflush : ∀ due, Keeps Stays (do
      flush S due
      return none : Act σ (Option (List WindowUpdate))) := fun due =>
    keeps_bind accrues_stays ((calm_stays S).flush stays_takeAck due) fun _ =>
      keeps_pure accrues_stays _
  refine ⟨sendsDue_askUpdates false (fun due => ?_) c, ?_⟩
  · exact keeps_bind accrues_sendsDue (sendsDue_flush due) fun _ => keeps_pure accrues_sendsDue _
  · exact (keeps_bind accrues_stays ((calm_stays S).askUpdates false) hflush c).2

/-! ### The first round -/

variable {updates : List WindowUpdate} {recovery : Recovery} {choice : Option PathId}

/-- What a round does once it was passed on what there was. -/
def afterSend (S : Session σ) (id : PathId) (origin : Option PathId) :
    Option Packet → Act σ (Option (List WindowUpdate))
  | none => do
    flush S []
    return none
  | some packet => do
    hedge id packet
    probe S origin
    return some []

theorem sendRound_of_none (updates : List WindowUpdate) (hback : takeBack S c = .ok recovery c₁)
    (hchoose : choose S (c₁.demand S recovery) c₁ = .ok none c₂) :
    sendRound S updates c = (do
      let due ← askUpdates S false
      flush S due
      return none : Act σ (Option (List WindowUpdate))) c₂ := by
  rw [demand] at hchoose
  unfold sendRound
  rw [bind_of_ok hback, get_bind, bind_of_ok hchoose]

theorem sendRound_of_some (updates : List WindowUpdate) (hback : takeBack S c = .ok recovery c₁)
    (hchoose : choose S (c₁.demand S recovery) c₁ = .ok (some id) c₂)
    (hhandshake : recovery.handshake = none) :
    sendRound S updates c = (do
      attachControl S id (S.hasReturnedStreams c₁.session)
      let sent ← onError (sendNext S updates id) endEpisodeOnOverflow
      afterSend S id recovery.origin sent : Act σ (Option (List WindowUpdate))) c₂ := by
  rw [demand] at hchoose
  unfold sendRound
  rw [bind_of_ok hback, get_bind, bind_of_ok hchoose, hhandshake]
  simp only [bind, EStateM.bind]
  split
  · split
    · rename_i sent m' h
      cases sent <;> rfl
    · rfl
  · rfl

/-- Without a packet to send, the first round is the last one. -/
theorem left_sendRounds (n : Nat)
    (h : ∀ updates' c', sendRound S updates c ≠ .ok (some updates') c') :
    left (sendRounds S (n + 1) updates c) = left (sendRound S updates c) := by
  cases hround : sendRound S updates c with
  | error e c₁ =>
      rw [sendRounds, bind_of_error hround]
      rfl
  | ok answer c₁ =>
      cases answer with
      | none =>
          rw [sendRounds_of_stop hround]
          rfl
      | some updates' => exact absurd hround (h updates' c₁)

/-- No quota has fallen. -/
def Raises (c c' : Connection σ) : Prop := ∀ id, c.scheduler.quota id ≤ c'.scheduler.quota id

theorem accrues_raises : Accrues (Raises (σ := σ)) where
  refl _ _ := Nat.le_refl _
  trans h h' id := Nat.le_trans (h id) (h' id)

theorem Stays.raises (h : Stays c c') : Raises c c' := fun id => (quota_congr h.2 id).ge

theorem Concludes.raises (h : Concludes c c') : Raises c c' := by
  obtain ⟨c₁, ⟨evs, -, -, -, hquota⟩, hend⟩ := h
  intro id
  have hle : c.scheduler.quota id ≤ c₁.scheduler.quota id := hquota id ▸ Nat.le_add_right _ _
  rcases hend with rfl | ⟨-, -, -, -, hquotas⟩
  · exact hle
  · exact hle.trans (quota_congr hquotas id).ge

theorem raises_afterSend (origin : Option PathId) (sent : Option Packet) :
    Keeps Raises (afterSend S id origin sent) := by
  have hpure : ∀ answer, Keeps Stays (pure answer : Act σ (Option (List WindowUpdate))) :=
    keeps_pure accrues_stays
  refine Keeps.mono (R := Stays) ?_ Stays.raises
  cases sent with
  | none =>
      exact keeps_bind accrues_stays ((calm_stays S).flush stays_takeAck []) fun _ => hpure _
  | some packet =>
      exact keeps_bind accrues_stays ((idles_hedge id packet).mono Idles.stays) fun _ =>
        keeps_bind accrues_stays ((calm_stays S).probe origin) fun _ => hpure _

theorem raises_sendRounds (n : Nat) :
    Raises (left (sendRound S updates c)) (left (sendRounds S (n + 1) updates c)) :=
  left_bind accrues_raises (fun answer c => by
    cases answer with
    | none => exact accrues_raises.refl c
    | some updates' => exact (concludes_rounds n updates' c).raises) (sendRound S updates) c

/-- If no packet is handed out for the path of the round, the run ends, and there is no stray. -/
theorem bystands_sendNext (updates : List WindowUpdate) (origin : Option PathId)
    (h : ¬ Hands S c id) :
    let finish : Act σ (Option (List WindowUpdate)) := do
      let sent ← onError (sendNext S updates id) endEpisodeOnOverflow
      afterSend S id origin sent
    Bystands c (left (finish c)) ∧ ∀ updates' c', finish c ≠ .ok (some updates') c' := by
  intro finish
  obtain ⟨hidles, hnone⟩ := idles_sendNext updates h
  have hsent : Idles c (left (onError (sendNext S updates id) endEpisodeOnOverflow c)) :=
    accrues_idles.trans hidles (left_onError accrues_idles idles_endEpisode _ c)
  cases hsend : onError (sendNext S updates id) endEpisodeOnOverflow c with
  | error e m =>
      rw [hsend] at hsent
      rw [show finish c = .error e m from bind_of_error hsend]
      exact ⟨hsent.bystands, fun _ _ hok => by cases hok⟩
  | ok sent m =>
      rw [hsend] at hsent
      rw [show finish c = afterSend S id origin sent m from bind_of_ok hsend]
      cases sent with
      | some packet => exact absurd (onError_ok hsend) (hnone packet m)
      | none =>
          refine ⟨accrues_bystands.trans hsent.bystands ?_, fun updates' c' hok => ?_⟩
          · exact keeps_bind accrues_bystands bystands_flush_nil
              (fun _ => keeps_pure accrues_bystands _) m
          · obtain ⟨⟨⟩, m', -, hok⟩ := bind_ok hok
            cases (pure_ok hok).1

/-! ### Runs on blocked paths -/

/-- Once a run has opened, taken back what waits and attached its control frames to the path, the
session hands out a packet for it. -/
def HandsOut (S : Session σ) (c : Connection σ) (id : PathId) : Prop :=
  ∃ c₁, (do
    let _ ← opening S
    let _ ← takeBack S
    attachControl S id false : Act σ Unit) c = .ok () c₁ ∧ Hands S c₁ id

theorem Begins.handsOut_iff (h : Begins S c updates c₁ recovery c₂) :
    HandsOut S c id ↔ ∃ m, attachControl S id false c₂ = .ok () m ∧ Hands S m id := by
  rw [HandsOut, bind_of_ok h.opening, bind_of_ok h.back]

/-- A packet that is handed out for the path selected first is counted. -/
theorem Begins.quota_lt (h : Begins S c updates c₁ recovery c₂)
    (hchoose : choose S (c₂.demand S recovery) c₂ = .ok (some id) c₂) (hhands : HandsOut S c id)
    (n : Nat) : c.scheduler.quota id < (left (send S (n + 1) c)).scheduler.quota id := by
  obtain ⟨m, hattach, hhands⟩ := h.handsOut_iff.mp hhands
  have hidles : Idles c₂ m := ((gentle_idles S).attachControl idles_takeAck id false).ok hattach
  have hround := sendRound_of_some updates h.back hchoose h.handshake
  rw [h.returned, bind_of_ok hattach] at hround
  calc c.scheduler.quota id
      = m.scheduler.quota id := by rw [quota_congr hidles.2, h.still.quota]
    _ < (left (sendNext S updates id m)).scheduler.quota id := quota_sendNext updates hhands
    _ ≤ (left (onError (sendNext S updates id) endEpisodeOnOverflow m)).scheduler.quota id :=
        left_onError accrues_raises (fun e => (idles_endEpisode e).mono (·.stays.raises)) _ m id
    _ ≤ (left (sendRound S updates c₁)).scheduler.quota id := by
        rw [hround]
        exact left_bind accrues_raises (raises_afterSend recovery.origin) _ m id
    _ ≤ (left (send S (n + 1) c)).scheduler.quota id := by
        rw [h.rounds]
        exact raises_sendRounds n id

/-- If no packet is handed out for the path selected first, there is no stray. -/
theorem Begins.bystands (h : Begins S c updates c₁ recovery c₂)
    (hchoose : choose S (c₂.demand S recovery) c₂ = .ok choice c₂)
    (hnone : ∀ id, choice = some id → ¬ HandsOut S c id) (n : Nat) :
    Bystands c (left (send S (n + 1) c)) := by
  have hbefore : Bystands c c₂ := accrues_bystands.trans (bystands_opening h.opening)
    (idles_takeBack.ok h.back).bystands
  obtain ⟨hround, hlast⟩ : Bystands c₂ (left (sendRound S updates c₁)) ∧
      ∀ updates' c', sendRound S updates c₁ ≠ .ok (some updates') c' := by
    cases choice with
    | none =>
        rw [sendRound_of_none updates h.back hchoose]
        refine ⟨bystands_close c₂, fun updates' c' hok => ?_⟩
        obtain ⟨due, m, -, hok⟩ := bind_ok hok
        obtain ⟨⟨⟩, m', -, hok⟩ := bind_ok hok
        cases (pure_ok hok).1
    | some id =>
        rw [sendRound_of_some updates h.back hchoose h.handshake, h.returned]
        have hattached := (gentle_idles S).attachControl idles_takeAck id false c₂
        cases hattach : attachControl S id false c₂ with
        | error e m =>
            rw [hattach] at hattached
            rw [bind_of_error hattach]
            exact ⟨hattached.bystands, fun _ _ hok => by cases hok⟩
        | ok a m =>
            rw [hattach] at hattached
            rw [bind_of_ok hattach]
            obtain ⟨hrest, hlast⟩ := bystands_sendNext updates recovery.origin
              fun hhands => hnone id rfl (h.handsOut_iff.mpr ⟨m, hattach, hhands⟩)
            exact ⟨accrues_bystands.trans hattached.bystands hrest, hlast⟩
  rw [h.rounds, left_sendRounds n hlast]
  exact accrues_bystands.trans hbefore hround

/-- **Strays.**  The handshake is complete and stays so, no piece of a stream waits to be sent
again, only handshake packets are queued, and no additional path may send.  Under round robin and
the lowest round-trip time, the rounds then build a packet that is sent exactly if something was
queued, a path is selected as for a packet that is sent again, and the session hands out a packet
for it.  Otherwise whatever is sent was built for an acknowledgement, unless window updates were
due. -/
theorem stray_iff (hS : Settled S I) (hI : I c.session)
    (hstrategy : c.scheduler.config.strategy = .roundRobin ∨
      c.scheduler.config.strategy = .lowestRtt)
    (hseveral : 2 ≤ c.paths.size) (hblocked : ∀ p ∈ c.paths.additional, p.sendingAllowed = false)
    (hqueued : ∀ packet ∈ c.paths.queued, packet.isHandshake = true) {n : Nat} {evs : List Event}
    (hevents : (left (send S (n + 1) c)).events = c.events ++ evs) :
    ((∃ id, builtFor id (inRounds evs) ≠ []) ↔ c.paths.queued ≠ [] ∧
      ∃ id, (c.scheduler.select c.paths { retransmission := true } (S.now c.session)).1 =
        .ok (some id) ∧ HandsOut S c id) ∧
    ((∀ id, builtFor id (inRounds evs) = []) → ∀ id packet, .sent id packet ∈ evs →
      .packedAck id packet ∈ evs ∨ OwesUpdates evs) := by
  obtain ⟨updates, c₁, recovery, c₂, hbegins, hany⟩ := exists_begins hS hI hqueued
  obtain ⟨choice, hselect⟩ := Scheduler.exists_select hseveral hstrategy recovery.any
  have hchoose : choose S (c₂.demand S recovery) c₂ = .ok choice c₂ := by
    rw [choose_eq, hselect hbegins.still.config hbegins.still.quota hbegins.still.faces rfl
      hbegins.returned]
  -- fresh data finds no path, so a path that is found was found for a packet that is sent again
  have hwanted : ∀ id, choice = some id → c.paths.queued ≠ [] ∧
      (c.scheduler.select c.paths { retransmission := true } (S.now c.session)).1 =
        .ok (some id) := by
    rintro id rfl
    cases hre : recovery.any with
    | true =>
        rw [@hselect c.scheduler c.paths _ _ rfl rfl rfl hre.symm rfl]
        exact ⟨hany.mp hre, rfl⟩
    | false =>
        have hfound := @hselect c.scheduler c.paths { retransmission := false } ⟨0⟩ rfl rfl rfl
          hre.symm rfl
        rw [Scheduler.select_none_of_blocked hseveral hstrategy hblocked rfl] at hfound
        cases hfound
  have hstray : ∀ id, choice = some id → HandsOut S c id → builtFor id (inRounds evs) ≠ [] := by
    rintro id rfl hhands hnil
    have hlt := hbegins.quota_lt hchoose hhands n
    rw [quota_send hevents, hnil] at hlt
    exact Nat.lt_irrefl _ hlt
  have hnone : (∀ id, choice = some id → ¬ HandsOut S c id) → SendsDue False c
      (left (send S (n + 1) c)) ∧ ∀ id, builtFor id (inRounds evs) = [] := by
    intro hno
    obtain ⟨hdue, hquotas⟩ := hbegins.bystands hchoose hno n
    refine ⟨hdue, fun id => List.eq_nil_of_length_eq_zero ?_⟩
    have hquota := quota_send hevents id
    rw [quota_congr hquotas] at hquota
    omega
  refine ⟨⟨fun ⟨id, hbuilt⟩ => ?_, fun ⟨hwaits, id, hselected, hhands⟩ => ?_⟩,
    fun hnil id packet hsent => ?_⟩
  · by_contra hno
    refine hbuilt ((hnone fun j hj hhands => hno ?_).2 id)
    obtain ⟨hwaits, hselected⟩ := hwanted j hj
    exact ⟨hwaits, j, hselected, hhands⟩
  · rw [@hselect c.scheduler c.paths _ _ rfl rfl rfl (hany.mpr hwaits).symm rfl] at hselected
    exact ⟨id, hstray id (Except.ok.inj hselected) hhands⟩
  · obtain ⟨⟨evs', hevents', hdue⟩, -⟩ := hnone fun j hj hhands => hstray j hj hhands (hnil j)
    obtain rfl : evs' = evs := List.append_cancel_left (hevents'.symm.trans hevents)
    exact (hdue id packet hsent).imp_right (·.resolve_right not_false)

/-- A handshake packet was lost on the only additional path, which may not send.  The handshake has
been completed since, and there is fresh data. -/
def lateGreeting : Connection Script where
  scheduler := .following .lowestRtt
  paths := (PathSet.empty.insert (.new .initial {} default)).insert
    ((Path.new .primary { sendingAllowed := false, rtt := .ofMillis 10 } default).queueLost
      lostGreeting)
  session := { data := [[⟨⟨5⟩, 1000, false⟩]] }

/-- The packet with the fresh data. -/
def freshPacket : Packet := ⟨.one, [.stream ⟨⟨5⟩, 0, 1000, false⟩], 1100, .forwardSecure, none⟩

theorem finishedEvents?_lateGreeting :
    finishedEvents? (send Script.session 2 lateGreeting) = some
      [.updatesAsked false [], .drained .primary lostGreeting,
        .packed .primary (some freshPacket), .sent .primary freshPacket,
        .updatesAsked false [], .updatesAsked false [], .unblocked] := by
  decide +kernel

theorem events_lateGreeting : (left (send Script.session 2 lateGreeting)).events =
    lateGreeting.events ++ [.updatesAsked false [], .drained .primary lostGreeting,
      .packed .primary (some freshPacket), .sent .primary freshPacket,
      .updatesAsked false [], .updatesAsked false [], .unblocked] := by
  obtain ⟨c', hrun, hevents⟩ := finishedEvents?_eq_some.mp finishedEvents?_lateGreeting
  rw [hrun, left, hevents]
  rfl

/-- The fresh data is a stray: the late greeting is discarded, the blocked path is selected for it,
and the session hands out the data. -/
theorem stray_lateGreeting : lateGreeting.paths.queued ≠ [] ∧
    ∃ id, (lateGreeting.scheduler.select lateGreeting.paths { retransmission := true } ⟨0⟩).1 =
      .ok (some id) ∧ HandsOut Script.session lateGreeting id :=
  (stray_iff Script.settled_session ⟨rfl, rfl⟩ (.inr rfl) (by decide) (by decide) (by decide)
    events_lateGreeting).1.mp ⟨.primary, by decide⟩

/-- **Fresh data leaves on a blocked path**, although only handshake packets were queued and these
are discarded. -/
theorem stray_sent_lateGreeting :
    ¬ ∀ (S : Session Script) (I : Script → Prop) (c : Connection Script) (n : Nat)
      (evs : List Event), Settled S I → I c.session →
      (c.scheduler.config.strategy = .roundRobin ∨ c.scheduler.config.strategy = .lowestRtt) →
      2 ≤ c.paths.size → (∀ p ∈ c.paths.additional, p.sendingAllowed = false) →
      (∀ packet ∈ c.paths.queued, packet.isHandshake = true) →
      (left (send S n c)).events = c.events ++ evs →
      (∀ id, builtFor id (inRounds evs) = []) ∧
        ∀ id packet f, .sent id packet ∈ evs → .stream f ∉ packet.frames := by
  intro hnever
  have hquiet := (hnever Script.session _ lateGreeting 2 _ Script.settled_session ⟨rfl, rfl⟩
    (.inr rfl) (by decide) (by decide) (by decide) events_lateGreeting).1
  exact absurd (hquiet .primary) (by decide)

end Connection

end Multipath
