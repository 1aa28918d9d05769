import Multipath.Proofs.Connection.Draining
import Multipath.Proofs.Connection.Flushing
import Multipath.Proofs.Connection.Overflows
import Multipath.Proofs.Scheduler.Best

/-!
# Window updates go out twice

The window updates that are due when a run opens are queued once for whichever path comes first.
They are queued a second time for the path of the first packet of the packer's choice that the
rounds send, right after it was sent.  Handshake packets that go out again, rounds without a packet
and calls that fail make no difference to this.  The only window updates that the rounds queue
besides are in packets that were taken apart: a packet that was lost, or a copy, brings them back.

* `queuedUpdates`, `returnedUpdates`: the window updates that were queued, and those in packets
  that were taken apart.
* `Recovering`: the window updates that are queued come from packets that were taken apart.
  `Unbuilt`: and no packet of the packer's choice is sent.
* `Handed`: the first packet of the packer's choice is sent, and the window updates after it.
* `RoundYields`: what a round comes to, and what is entered until then.
* `updates_twice`: how often the window updates of a run are queued.
-/

namespace Multipath

/-- The window update that a frame is. -/
def Frame.update? : Frame → Option WindowUpdate
  | .windowUpdate f => some f
  | _ => none

/-- The window updates in a packet. -/
def Packet.updates (p : Packet) : List WindowUpdate := p.frames.filterMap Frame.update?

namespace Event

/-- The window update that was queued, with the path it is for. -/
def update? : Event → Option (Option PathId × WindowUpdate)
  | .queued target frame => frame.update?.map (target, ·)
  | _ => none

/-- The window updates in a packet that was taken apart, for the path it was taken from. -/
def returns : Event → List (Option PathId × WindowUpdate)
  | .drained id packet => if packet.isHandshake then [] else packet.updates.map (some id, ·)
  | _ => []

/-- Nothing was sent, the session was not asked for window updates, and none was queued. -/
structure Aside (e : Event) : Prop where
  idle : e.isIdle = true
  update : e.update? = none

end Event

/-- The window updates that were queued, in order, with the paths they are for. -/
def queuedUpdates (evs : List Event) : List (Option PathId × WindowUpdate) :=
  evs.filterMap Event.update?

/-- The window updates in packets that were taken apart, in order, for the paths these were taken
from. -/
def returnedUpdates (evs : List Event) : List (Option PathId × WindowUpdate) :=
  evs.flatMap Event.returns

/-- The session is not asked for window updates, and those that are queued were in packets that were
taken apart, each at most as often as it was there. -/
structure Recovering (evs : List Event) : Prop where
  asks : ∀ e ∈ evs, e.asksUpdates = false
  updates : (queuedUpdates evs).Sublist (returnedUpdates evs)

/-- Besides, no packet of the packer's choice is sent, neither one that was built in this part nor
one that was built just before it. -/
structure Unbuilt (evs : List Event) : Prop extends Recovering evs where
  head : ∀ e ∈ evs.head?, e.isSent = false
  built : ∀ id, builtFor id evs = []

/-- The first packet of the packer's choice is sent, and then window updates are queued for its
path. -/
inductive Handed (updates : List WindowUpdate) : List Event → Prop
  | intro {before after : List Event} (id : PathId) (packet : Packet) :
    Unbuilt before → Recovering after →
    Handed updates (before ++ .packed id (some packet) :: .sent id packet ::
      ((updates.map fun f => .queued (some id) (.windowUpdate f)) ++ after))

/-- Window updates are queued after the first packet of the packer's choice, if there is one. -/
def Doubled (updates : List WindowUpdate) (evs : List Event) : Prop :=
  Unbuilt evs ∨ Handed updates evs

/-! ### Journals in parts -/

section Journals

variable {evs xs ys : List Event} {updates : List WindowUpdate}

theorem queuedUpdates_append (xs ys : List Event) :
    queuedUpdates (xs ++ ys) = queuedUpdates xs ++ queuedUpdates ys := List.filterMap_append

theorem returnedUpdates_append (xs ys : List Event) :
    returnedUpdates (xs ++ ys) = returnedUpdates xs ++ returnedUpdates ys := List.flatMap_append

theorem queuedUpdates_queued (target : Option PathId) (updates : List WindowUpdate) :
    queuedUpdates (updates.map fun f => .queued target (.windowUpdate f)) =
      updates.map (target, ·) := by
  rw [queuedUpdates, List.filterMap_map]
  exact congrFun List.filterMap_eq_map updates

/-- If nothing comes back, nothing is queued. -/
theorem Recovering.queuedUpdates_eq (h : Recovering evs) (hnone : returnedUpdates evs = []) :
    queuedUpdates evs = [] := List.sublist_nil.mp (hnone ▸ h.updates)

theorem Recovering.append (hx : Recovering xs) (hy : Recovering ys) : Recovering (xs ++ ys) where
  asks e he := (List.mem_append.mp he).elim (hx.asks e) (hy.asks e)
  updates := by
    rw [queuedUpdates_append, returnedUpdates_append]
    exact hx.updates.append hy.updates

theorem Unbuilt.append (hx : Unbuilt xs) (hy : Unbuilt ys) : Unbuilt (xs ++ ys) where
  toRecovering := hx.toRecovering.append hy.toRecovering
  head e he := by
    cases xs with
    | nil => exact hy.head e he
    | cons x xs => exact hx.head e he
  built id := by rw [builtFor_append hy.head, hx.built, hy.built, List.append_nil]

theorem Unbuilt.of_idle (h : ∀ e ∈ evs, e.isIdle = true)
    (hupdates : (queuedUpdates evs).Sublist (returnedUpdates evs)) : Unbuilt evs where
  asks e he := (Event.isIdle_iff.mp (h e he)).2
  updates := hupdates
  head e he := (Event.isIdle_iff.mp (h e (List.mem_of_mem_head? he))).1
  built _ := builtFor_of_unsent fun e he => (Event.isIdle_iff.mp (h e he)).1

theorem Unbuilt.of_aside (h : ∀ e ∈ evs, e.Aside) : Unbuilt evs :=
  .of_idle (fun e he => (h e he).idle) <| by
    rw [queuedUpdates, List.filterMap_eq_nil_iff.mpr fun e he => (h e he).update]
    exact List.nil_sublist _

theorem Unbuilt.nil : Unbuilt [] := .of_aside (by simp)

theorem Handed.prepend (hx : Unbuilt xs) (hy : Handed updates ys) : Handed updates (xs ++ ys) := by
  obtain ⟨id, packet, hbefore, hafter⟩ := hy
  rw [← List.append_assoc]
  exact .intro id packet (hx.append hbefore) hafter

theorem Handed.append (hx : Handed updates xs) (hy : Recovering ys) :
    Handed updates (xs ++ ys) := by
  obtain ⟨id, packet, hbefore, hafter⟩ := hx
  simp only [List.append_assoc, List.cons_append]
  exact .intro id packet hbefore (hafter.append hy)

theorem Doubled.prepend (hx : Unbuilt xs) (hy : Doubled updates ys) : Doubled updates (xs ++ ys) :=
  hy.imp hx.append (Handed.prepend hx)

/-- Once there are no window updates to double, only those in packets that were taken apart are
queued. -/
theorem Doubled.recovering (h : Doubled [] evs) : Recovering evs := by
  rcases h with h | ⟨id, packet, hbefore, hafter⟩
  · exact h.toRecovering
  · have hpair : Recovering [.packed id (some packet), .sent id packet] :=
      ⟨by simp [Event.asksUpdates], List.nil_sublist _⟩
    exact hbefore.toRecovering.append (hpair.append hafter)

/-- If nothing comes back, the window updates are queued once more or not at all. -/
theorem Doubled.queuedUpdates_eq (h : Doubled updates evs) (hnone : returnedUpdates evs = []) :
    queuedUpdates evs = [] ∨ ∃ id, queuedUpdates evs = updates.map (some id, ·) := by
  rcases h with h | ⟨id, packet, hbefore, hafter⟩
  · exact .inl (h.queuedUpdates_eq hnone)
  · rename_i before after
    have hpair : ∀ evs, returnedUpdates (.packed id (some packet) :: .sent id packet :: evs) =
        returnedUpdates evs := fun _ => rfl
    rw [returnedUpdates_append, hpair, returnedUpdates_append, List.append_eq_nil_iff,
      List.append_eq_nil_iff] at hnone
    have hqueued : ∀ evs, queuedUpdates (.packed id (some packet) :: .sent id packet :: evs) =
        queuedUpdates evs := fun _ => rfl
    refine .inr ⟨id, ?_⟩
    rw [queuedUpdates_append, hqueued, queuedUpdates_append, queuedUpdates_queued,
      hbefore.queuedUpdates_eq hnone.1, hafter.queuedUpdates_eq hnone.2.2, List.append_nil,
      List.nil_append]

end Journals

namespace Connection

variable {σ : Type} {S : Session σ} {c c₁ c' : Connection σ} {id : PathId}
  {updates : List WindowUpdate} {P Q T : List Event → Prop}

/-- The journal has grown by a part of the kind `P`. -/
def Extends (P : List Event → Prop) (c c' : Connection σ) : Prop :=
  ∃ evs, c'.events = c.events ++ evs ∧ P evs

theorem Extends.trans (h : Extends P c c₁) (h' : Extends Q c₁ c')
    (hT : ∀ {xs ys}, P xs → Q ys → T (xs ++ ys)) : Extends T c c' := by
  obtain ⟨xs, hxs, hP⟩ := h
  obtain ⟨ys, hys, hQ⟩ := h'
  exact ⟨xs ++ ys, by rw [hys, hxs, List.append_assoc], hT hP hQ⟩

theorem Extends.mono (h : Extends P c c') (hT : ∀ {evs}, P evs → T evs) : Extends T c c' := by
  obtain ⟨evs, hevents, hP⟩ := h
  exact ⟨evs, hevents, hT hP⟩

theorem accrues_unbuilt : Accrues (Extends (σ := σ) Unbuilt) where
  refl _ := ⟨[], (List.append_nil _).symm, .nil⟩
  trans h h' := h.trans h' Unbuilt.append

theorem Grows.unbuilt (h : Grows Event.Aside c c') : Extends Unbuilt c c' := by
  obtain ⟨evs, hevents, haside⟩ := h
  exact ⟨evs, hevents, .of_aside haside⟩

/-! ### Steps that concern no window update -/

theorem aside_queue (target : Option PathId) {frame : Frame} (h : frame.update? = none) :
    Keeps (Grows Event.Aside) (queue S target frame) := fun c =>
  .one (events_note c _ _ _) ⟨rfl, by rw [Event.update?, h, Option.map_none]⟩

theorem aside_queueStopWaiting (id : PathId) (force : Bool) :
    Keeps (Grows Event.Aside) (queueStopWaiting S id force) :=
  keeps_queueStopWaiting accrues_grows (fun _ => .of_eq rfl) fun _ => aside_queue _ rfl

theorem aside_choose (demand : Demand) : Keeps (Grows Event.Aside) (choose S demand) :=
  grows_choose (fun _ => ⟨rfl, rfl⟩) (fun _ => ⟨rfl, rfl⟩) demand

theorem aside_attachControl (hcontrol : ∀ s f, .windowUpdate f ∉ (S.takePathControl s).1)
    (id : PathId) (hasReturnedStreams : Bool) :
    Keeps (Grows Event.Aside) (attachControl S id hasReturnedStreams) := by
  refine keeps_attachControl accrues_grows (grows_takeAck (fun _ _ => ⟨rfl, rfl⟩) id)
    (fun _ => aside_queue _ rfl) (aside_queueStopWaiting id _) fun c => ?_
  have hframes : Keeps (Grows Event.Aside)
      ((S.takePathControl c.session).1.forM (queue S (some id))) :=
    keeps_forM accrues_grows fun frame hframe => aside_queue _ <| by
      cases frame with
      | windowUpdate f => exact absurd hframe (hcontrol c.session f)
      | _ => rfl
  exact hframes { c with session := (S.takePathControl c.session).2 }

theorem aside_signOfLife (id : PathId) : Keeps (Grows Event.Aside) (signOfLife S id) := by
  refine keeps_get_bind fun c => ?_
  split
  · exact aside_queue _ rfl c
  · exact .of_eq rfl

theorem aside_probe (origin : Option PathId) : Keeps (Grows Event.Aside) (probe S origin) :=
  keeps_probe accrues_grows (fun _ => grows_callOn (fun _ => ⟨rfl, rfl⟩) fun _ => ⟨rfl, rfl⟩) origin

/-! ### Steps that bring window updates back -/

/-- A window update that has to be sent again is queued again or dropped. -/
theorem queuedUpdates_delivery (window : StreamId → Option ByteCount) (id : PathId)
    (frame : Frame) :
    (queuedUpdates ((frame.delivery? window id).toList.map (·.event))).Sublist
      (frame.update?.toList.map (some id, ·)) := by
  cases frame with
  | windowUpdate f =>
      rw [Frame.delivery?]
      split
      · split
        · exact List.Sublist.refl _
        · exact List.nil_sublist _
      · exact List.nil_sublist _
  | _ => exact List.nil_sublist _

theorem events_redistribute {frames : List Frame} (id : PathId)
    (hframes : ∀ frame ∈ frames, frame.isRetransmittable = true) (c : Connection σ) :
    ∃ evs, (left (frames.forM (redistribute S id) c)).events = c.events ++ evs ∧
      (∀ e ∈ evs, e.isIdle = true) ∧
      (queuedUpdates evs).Sublist ((frames.filterMap Frame.update?).map (some id, ·)) := by
  induction frames generalizing c with
  | nil => exact ⟨[], (List.append_nil _).symm, by simp, List.nil_sublist _⟩
  | cons frame frames ih =>
      let delivery := frame.delivery? (S.receiveWindow c.session) id
      have hfirst : (frame :: frames).forM (redistribute S id) c =
          frames.forM (redistribute S id) (c.delivered S delivery.toList) :=
        bind_of_ok (redistribute_eq id frame (hframes frame List.mem_cons_self) rfl)
      obtain ⟨evs, hevents, hidle, hupdates⟩ :=
        ih (fun f hf => hframes f (List.mem_cons_of_mem _ hf)) (c.delivered S delivery.toList)
      refine ⟨delivery.toList.map (·.event) ++ evs, ?_, fun e he => ?_, ?_⟩
      · rw [hfirst, hevents, events_delivered, List.append_assoc]
      · rcases List.mem_append.mp he with he | he
        · obtain ⟨d, -, rfl⟩ := List.mem_map.mp he
          cases d <;> rfl
        · exact hidle e he
      · have hsplit : (frame :: frames).filterMap Frame.update? =
            frame.update?.toList ++ frames.filterMap Frame.update? := by
          cases h : frame.update? <;> simp [h]
        rw [queuedUpdates_append, hsplit, List.map_append]
        exact (queuedUpdates_delivery _ id frame).append hupdates

/-- A packet that is taken apart brings back its own window updates. -/
theorem unbuilt_apart {packet : Packet} {paths : PathSet} (hlevel : packet.isHandshake = false)
    (c : Connection σ) : Extends Unbuilt c (left (packet.framesToResend.forM (redistribute S id)
      (c.drained id packet paths))) := by
  have hframes : ∀ frame ∈ packet.framesToResend, frame.isRetransmittable = true :=
    fun frame hframe => (List.mem_filter.mp hframe).2
  obtain ⟨evs, hevents, hidle, hupdates⟩ :=
    events_redistribute (S := S) id hframes (c.drained id packet paths)
  have hreturned : returnedUpdates (.drained id packet :: evs) =
      packet.updates.map (some id, ·) ++ returnedUpdates evs := by
    rw [returnedUpdates, List.flatMap_cons, Event.returns, hlevel]
    rfl
  have hown : (packet.framesToResend.filterMap Frame.update?).Sublist packet.updates :=
    List.filter_sublist.filterMap _
  refine ⟨.drained id packet :: evs, ?_, .of_idle (fun e he => ?_) ?_⟩
  · rw [hevents, events_drained, List.append_assoc]
    rfl
  · rcases List.mem_cons.mp he with rfl | he
    · rfl
    · exact hidle e he
  · rw [hreturned]
    exact (hupdates.trans (hown.map _)).trans (List.sublist_append_left _ _)

theorem unbuilt_takeBack : Keeps (Extends Unbuilt) (takeBack S) :=
  keeps_get_bind fun c => keeps_takeBackUpTo accrues_unbuilt
    (fun _ _ _ _ _ _ => (grows_drain ⟨rfl, rfl⟩).unbuilt)
    (fun c _ _ _ _ hlevel => unbuilt_apart hlevel c) c.paths.pending {} c

/-! ### Packets that are sent -/

/-- A handshake packet that goes out again is not of the packer's choice. -/
theorem unbuilt_resendHandshake (id : PathId) (lost : Packet) :
    Keeps (Extends Unbuilt) (resendHandshake S id lost) := by
  refine keeps_bind accrues_unbuilt ((aside_queueStopWaiting id true).mono Grows.unbuilt)
    fun _ c => ?_
  cases hpack : packHandshake S id lost c with
  | error e c₁ =>
      rw [bind_of_error hpack]
      exact (Grows.one (callOn_error hpack) ⟨rfl, rfl⟩).unbuilt
  | ok packet c₁ =>
      rw [bind_of_ok hpack]
      have hbuilt : c₁.events = c.events ++ [.packedHandshake id lost packet] :=
        (callOn_ok hpack).2.2.1
      rcases transmit_cases (S := S) id packet c₁ with
        ⟨e, c₂, htransmit, hevents, -⟩ | ⟨c₂, htransmit, hevents, -⟩
      · rw [htransmit]
        exact (accrues_grows.trans (.one hbuilt ⟨rfl, rfl⟩) (.one hevents ⟨rfl, rfl⟩)).unbuilt
      · rw [htransmit]
        refine ⟨[.packedHandshake id lost packet, .sent id packet], ?_, ⟨?_, ?_⟩, ?_, fun _ => rfl⟩
        · rw [left, hevents, hbuilt, List.append_assoc]
          rfl
        · simp [Event.asksUpdates]
        · exact List.nil_sublist _
        · simp [Event.isSent]

/-- A packet that was sent is followed by the window updates, and that cannot fail. -/
theorem handed_passOn (updates : List WindowUpdate) {packet : Packet} {c₂ : Connection σ}
    (hbuilt : c₁.events = c.events ++ [.packed id (some packet)])
    (hsent : transmit S id packet c₁ = .ok () c₂) :
    ∃ c', passOn S updates id (some packet) c₁ = .ok (some packet) c' ∧
      Extends (Handed updates) c c' := by
  obtain ⟨c₃, hupdates⟩ := queueUpdates_total (S := S) (some id) updates c₂
  obtain ⟨c', hfinish⟩ := finishStreams_total (S := S) packet
    { c₃ with scheduler := c₃.scheduler.bumpQuota id }
  refine ⟨c', ?_, ?_⟩
  · have hpasses : passOn S updates id (some packet) c₁ = _ := bind_of_ok hsent
    rw [hpasses, bind_of_ok hupdates]
    exact bind_of_ok hfinish
  · have hends : Keeps (Grows Event.Aside)
        (packet.finishedStreams.forM fun _ => finishStream S) :=
      keeps_forM accrues_grows fun _ _ => grows_finishStream fun _ => ⟨rfl, rfl⟩
    obtain ⟨after, hevents, haside⟩ := hends.ok hfinish
    have hevents : c'.events = c₃.events ++ after := hevents
    have hhanded : Handed updates ([] ++ _) :=
      .intro id packet .nil (Unbuilt.of_aside haside).toRecovering
    refine ⟨_, ?_, hhanded⟩
    rw [hevents, events_queueUpdates hupdates, (transmit_ok hsent).2.1, hbuilt]
    simp

/-- A round fails to send a packet, has none built, or sends it and queues the window updates. -/
theorem sendNext_outcome (updates : List WindowUpdate) (id : PathId) (c : Connection σ) :
    (∃ e c', sendNext S updates id c = .error e c' ∧ Extends Unbuilt c c') ∨
      (∃ c', sendNext S updates id c = .ok none c' ∧ Extends Unbuilt c c') ∨
      ∃ packet c', sendNext S updates id c = .ok (some packet) c' ∧
        Extends (Handed updates) c c' := by
  obtain ⟨c₁, hsign⟩ := signOfLife_total (S := S) id c
  have hsigned : Grows Event.Aside c c₁ := (aside_signOfLife id).ok hsign
  rw [sendNext_eq, bind_of_ok hsign]
  cases hpack : pack S id c₁ with
  | error e c₂ =>
      exact .inl ⟨e, c₂, bind_of_error hpack,
        (accrues_grows.trans hsigned (.one (callOn_error hpack) ⟨rfl, rfl⟩)).unbuilt⟩
  | ok built c₂ =>
      rw [bind_of_ok hpack]
      have hbuilt : c₂.events = c₁.events ++ [.packed id built] := (callOn_ok hpack).2.2.1
      cases built with
      | none =>
          exact .inr (.inl ⟨c₂, rfl,
            (accrues_grows.trans hsigned (.one hbuilt ⟨rfl, rfl⟩)).unbuilt⟩)
      | some packet =>
          rcases transmit_cases (S := S) id packet c₂ with
            ⟨e, c₃, htransmit, hevents, -⟩ | ⟨c₃, htransmit, -⟩
          · have htried : Grows Event.Aside c₁ c₃ :=
              accrues_grows.trans (.one hbuilt ⟨rfl, rfl⟩) (.one hevents ⟨rfl, rfl⟩)
            exact .inl ⟨e, c₃, bind_of_error htransmit,
              (accrues_grows.trans hsigned htried).unbuilt⟩
          · obtain ⟨c', hpasses, hhanded⟩ := handed_passOn updates hbuilt htransmit
            exact .inr (.inr ⟨packet, c', hpasses, hsigned.unbuilt.trans hhanded Handed.prepend⟩)

/-! ### Rounds -/

/-- The journal has grown by a part of the kind `P`, and after that there may be a flush. -/
def Concluded (P : List Event → Prop) (c c' : Connection σ) : Prop :=
  ∃ c₁, Extends P c c₁ ∧ (c' = c₁ ∨ Closes c₁ c')

theorem Extends.concluded (h : Extends P c c') : Concluded P c c' := ⟨c', h, .inl rfl⟩

theorem Extends.trans_concluded (h : Extends P c c₁) (h' : Concluded Q c₁ c')
    (hT : ∀ {xs ys}, P xs → Q ys → T (xs ++ ys)) : Concluded T c c' := by
  obtain ⟨c₂, hpart, hend⟩ := h'
  exact ⟨c₂, h.trans hpart hT, hend⟩

/-- What a round with these window updates comes to, and what it enters into the journal. -/
inductive RoundYields (updates : List WindowUpdate) (c : Connection σ) :
    EStateM.Result Error (Connection σ) (Option (List WindowUpdate)) → Prop
  /-- No packet of the packer's choice was sent, and the next round has the same window updates. -/
  | again {m} : Extends Unbuilt c m → RoundYields updates c (.ok (some updates) m)
  /-- A packet of the packer's choice was sent, and the next round has no window updates. -/
  | handed {m} : Extends (Handed updates) c m → RoundYields updates c (.ok (some []) m)
  /-- The run is over. -/
  | stopped {m} : Concluded (Doubled updates) c m → RoundYields updates c (.ok none m)
  /-- The run fails. -/
  | failed {e m} : Concluded (Doubled updates) c m → RoundYields updates c (.error e m)

theorem RoundYields.after {r : EStateM.Result Error (Connection σ) (Option (List WindowUpdate))}
    (h : Extends Unbuilt c c₁) (hr : RoundYields updates c₁ r) : RoundYields updates c r := by
  cases hr with
  | again hagain => exact .again (h.trans hagain Unbuilt.append)
  | handed hhanded => exact .handed (h.trans hhanded Handed.prepend)
  | stopped hend => exact .stopped (h.trans_concluded hend Doubled.prepend)
  | failed hend => exact .failed (h.trans_concluded hend Doubled.prepend)

/-- What goes on after a step that sends no packet of the packer's choice. -/
theorem yields_bind {α : Type} {x : Act σ α} {f : α → Act σ (Option (List WindowUpdate))}
    (hx : Keeps (Extends Unbuilt) x) (hf : ∀ a c, RoundYields updates c (f a c))
    (c : Connection σ) : RoundYields updates c ((x >>= f) c) := by
  cases h : x c with
  | ok a c₁ =>
      rw [bind_of_ok h]
      exact (hf a c₁).after (hx.ok h)
  | error e c₁ =>
      rw [bind_of_error h]
      exact .failed ((hx.error h).mono .inl).concluded

/-- A flush with nothing after it is the end of the run. -/
theorem yields_closing {x : Act σ Unit} (hx : Keeps Closes x) (c : Connection σ) :
    RoundYields updates c ((do x; return none : Act σ (Option (List WindowUpdate))) c) := by
  have hnil : Extends (Doubled updates) c c := (accrues_unbuilt.refl c).mono .inl
  cases h : x c with
  | ok a c₁ =>
      rw [bind_of_ok h]
      exact .stopped ⟨c, hnil, .inr (hx.ok h)⟩
  | error e c₁ =>
      rw [bind_of_error h]
      exact .failed ⟨c, hnil, .inr (hx.error h)⟩

/-- The first packet of the packer's choice is sent, or the run ends without it. -/
theorem yields_sendNext (updates : List WindowUpdate) (id : PathId) (origin : Option PathId)
    (c : Connection σ) : RoundYields updates c ((do
      match ← onError (sendNext S updates id) endEpisodeOnOverflow with
      | none =>
        flush S []
        return none
      | some packet =>
        hedge id packet
        probe S origin
        return some [] : Act σ (Option (List WindowUpdate))) c) := by
  have haside : ∀ e, Keeps (Grows Event.Aside) (endEpisodeOnOverflow e : Act σ Unit) :=
    grows_endEpisode fun _ => ⟨rfl, rfl⟩
  rcases sendNext_outcome (S := S) updates id c with
    ⟨e, c₁, hsend, hunbuilt⟩ | ⟨c₁, hsend, hunbuilt⟩ | ⟨packet, c₁, hsend, hhanded⟩
  · cases hends : onError (sendNext S updates id) endEpisodeOnOverflow c with
    | ok answer c₂ => cases hsend.symm.trans (onError_ok hends)
    | error e' c₂ =>
        have hcleans := left_onError accrues_grows haside (sendNext S updates id) c
        rw [hsend, hends] at hcleans
        rw [bind_of_error hends]
        exact .failed ((hunbuilt.trans hcleans.unbuilt Unbuilt.append).mono .inl).concluded
  · rw [bind_of_ok (onError_of_ok hsend)]
    exact .after hunbuilt (yields_closing closes_flush c₁)
  · obtain ⟨c₂, hhedge⟩ : ∃ c₂, hedge id packet c₁ = .ok () c₂ := ⟨_, hedge_eq id packet c₁⟩
    have hcopied : Grows Event.Aside c₁ c₂ := (grows_hedge ⟨rfl, rfl⟩).ok hhedge
    have hprobed := aside_probe (S := S) origin c₂
    rw [bind_of_ok (onError_of_ok hsend)]
    dsimp only
    rw [bind_of_ok hhedge]
    cases hprobe : probe S origin c₂ with
    | ok a c₃ =>
        rw [hprobe] at hprobed
        rw [bind_of_ok hprobe]
        exact .handed (hhanded.trans (accrues_grows.trans hcopied hprobed).unbuilt
          fun h h' => h.append h'.toRecovering)
    | error e c₃ =>
        rw [hprobe] at hprobed
        rw [bind_of_error hprobe]
        exact .failed ((hhanded.trans (accrues_grows.trans hcopied hprobed).unbuilt
          fun h h' => .inr (h.append h'.toRecovering)).concluded)

variable (hcontrol : ∀ s f, .windowUpdate f ∉ (S.takePathControl s).1)

include hcontrol

theorem yields_round (updates : List WindowUpdate) (c : Connection σ) :
    RoundYields updates c (sendRound S updates c) := by
  unfold sendRound
  refine yields_bind unbuilt_takeBack (fun recovery c => ?_) c
  rw [get_bind]
  refine yields_bind ((aside_choose _).mono Grows.unbuilt) (fun chosen c => ?_) c
  cases chosen with
  | none =>
      exact yields_closing (closes_askUpdates false ((calm_stays S).flush stays_takeAck)) c
  | some id =>
      cases recovery.handshake with
      | some lost =>
          exact yields_bind (unbuilt_resendHandshake id lost)
            (fun _ c => .again (accrues_unbuilt.refl c)) c
      | none =>
          exact yields_bind ((aside_attachControl hcontrol id _).mono Grows.unbuilt)
            (fun _ => yields_sendNext updates id recovery.origin) c

/-- The window updates go out after the first packet of the packer's choice, however many rounds
there are before it. -/
theorem concluded_rounds (n : Nat) (updates : List WindowUpdate) (c : Connection σ) :
    Concluded (Doubled updates) c (left (sendRounds S n updates c)) := by
  induction n generalizing updates c with
  | zero => exact ((accrues_unbuilt.refl c).mono .inl).concluded
  | succ n ih =>
      have hround := yields_round hcontrol updates c
      generalize hr : sendRound S updates c = r at hround
      cases hround with
      | again hagain =>
          rw [sendRounds_of_continue hr]
          exact hagain.trans_concluded (ih updates _) Doubled.prepend
      | handed hhanded =>
          -- the rounds that follow have no window updates to double
          rw [sendRounds_of_continue hr]
          exact hhanded.trans_concluded (ih [] _) fun h h' => .inr (h.append h'.recovering)
      | stopped hend =>
          rw [sendRounds_of_stop hr]
          exact hend
      | failed hend =>
          rw [sendRounds, bind_of_error hr]
          exact hend

/-- **Window updates go out twice.**  For every session whose pending frames about paths and
addresses are not window updates, every set of paths and every state of the scheduler, and whether
the run comes to its end, to the end of its rounds or to an error: the window updates that are due
at the start are queued for whichever path comes first, and a second time for the path of the first
packet of the packer's choice that the rounds send, right after it was sent; if they send none, not
again.  Handshake packets may go out before it.  Any other window update that the rounds queue was
in a packet that was taken apart, and is queued for the path this came from, at most as often as it
was there.  So if no packet brings window updates back, these are queued twice or, without such a
packet, once. -/
theorem updates_twice {updates : List WindowUpdate} (n : Nat) (c : Connection σ)
    (hupdates : (S.windowUpdates c.session false).1 = updates) :
    ∃ rounds flushed,
      (left (send S n c)).events = c.events ++ .updatesAsked false updates ::
        ((updates.map fun f => .queued none (.windowUpdate f)) ++ (rounds ++ flushed)) ∧
      (∀ e ∈ flushed.head?, e.asksUpdates = true) ∧
      (Unbuilt rounds ∨ Handed updates rounds) ∧
      (returnedUpdates rounds = [] →
        queuedUpdates rounds = [] ∨ ∃ id, queuedUpdates rounds = updates.map (some id, ·)) := by
  obtain ⟨opened, c₁, hopening, hsend⟩ := send_eq S c
  obtain ⟨rfl, hopened⟩ := events_opening hopening
  obtain rfl := hupdates
  obtain ⟨c₂, ⟨rounds, hrounds, hdoubled⟩, hend⟩ := concluded_rounds hcontrol n _ c₁
  rw [hsend]
  obtain ⟨flushed, hflushed, hstarts⟩ : ∃ flushed,
      (left (sendRounds S n (S.windowUpdates c.session false).1 c₁)).events =
        c₂.events ++ flushed ∧ ∀ e ∈ flushed.head?, e.asksUpdates = true := by
    rcases hend with heq | ⟨force, due, flushed, hflushed, -⟩
    · exact ⟨[], by rw [heq, List.append_nil], by simp⟩
    · exact ⟨_, hflushed, by simp [Event.asksUpdates]⟩
  refine ⟨rounds, flushed, ?_, hstarts, hdoubled, hdoubled.queuedUpdates_eq⟩
  rw [hflushed, hrounds, hopened]
  simp

end Connection

/-! ### A window update that a greeting takes along, and one that comes back -/

/-- The frame is about paths and addresses. -/
def Frame.isPathControl : Frame → Bool
  | .closePath _ | .addAddress _ | .paths _ _ => true
  | _ => false

/-- Scripted sessions whose pending frames are about paths and addresses. -/
def Script.announcing : Session Script :=
  { session with
    takePathControl s := (s.pathControl.filter (·.isPathControl), { s with pathControl := [] }) }

theorem Script.announcing_control (s : Script) (f : WindowUpdate) :
    .windowUpdate f ∉ (announcing.takePathControl s).1 := by
  simp [announcing, Frame.isPathControl]

namespace Connection

/-- The window update that is due. -/
def dueUpdate : WindowUpdate := ⟨⟨5⟩, 4096⟩

/-- A lost handshake packet waits, a window update is due, and there is data. -/
def greetedUpdate : Connection Script where
  scheduler := .following .roundRobin
  paths := (PathSet.empty.insert ((Path.new .initial {} default).queueLost lostHello)).insert
    (.new .primary {} default)
  session :=
    { handshakeComplete := false, data := [[⟨⟨5⟩, 1000, false⟩]], updates := [dueUpdate],
      once := true }

/-- The window updates queued from the opening of a run that comes to its end up to its flush. -/
def finishedUpdates? {σ : Type} (r : EStateM.Result Error (Connection σ) SendOutcome) :
    Option (List (Option PathId × WindowUpdate)) :=
  (finishedEvents? r).map fun evs => queuedUpdates (inRounds evs)

/-- The handshake packet goes out first, and takes the window update with it.  After the data it is
queued again. -/
theorem updates_twice_greetedUpdate :
    finishedUpdates? (send Script.announcing 4 greetedUpdate) =
      some [(none, dueUpdate), (some .primary, dueUpdate)] ∧
    (Script.announcing.windowUpdates greetedUpdate.session false).1 = [dueUpdate] ∧
    ∃ rounds flushed,
      (left (send Script.announcing 4 greetedUpdate)).events = greetedUpdate.events ++
        .updatesAsked false [dueUpdate] ::
          ([.queued none (.windowUpdate dueUpdate)] ++ (rounds ++ flushed)) ∧
      (∀ e ∈ flushed.head?, e.asksUpdates = true) ∧
      (Unbuilt rounds ∨ Handed [dueUpdate] rounds) ∧
      (returnedUpdates rounds = [] →
        queuedUpdates rounds = [] ∨ ∃ id, queuedUpdates rounds = [(some id, dueUpdate)]) :=
  ⟨by decide +kernel, rfl, updates_twice Script.announcing_control 4 greetedUpdate rfl⟩

/-- A window update is due for a stream that is open, and there is data.  One of the paths is
unmeasured. -/
def hedgedUpdate : Connection Script where
  scheduler := .following .roundRobin
  paths := (PathSet.empty.insert (.new .primary {} default)).insert
    (.new ⟨2⟩ { rtt := .ofMillis 10 } default)
  session :=
    { data := [[⟨⟨5⟩, 1000, false⟩]], updates := [dueUpdate], once := true,
      windows := [(⟨5⟩, 4096)] }

/-- The packet with the data is copied, and its copy brings the window update back. -/
theorem finishedUpdates?_hedgedUpdate :
    finishedUpdates? (send Script.announcing 4 hedgedUpdate) = some
      [(none, dueUpdate), (some .primary, dueUpdate), (some .primary, dueUpdate),
        (some .primary, dueUpdate), (some .primary, dueUpdate)] := by
  decide +kernel

/-- **A window update is queued more than twice**, though it was due only once. -/
theorem update_queued_again :
    ¬ ∀ (S : Session Script) (n : Nat) (c c' : Connection Script) (evs : List Event)
      (updates : List WindowUpdate), (∀ s f, .windowUpdate f ∉ (S.takePathControl s).1) →
      (S.windowUpdates c.session false).1 = updates → send S n c = .ok .finished c' →
      c'.events = c.events ++ evs →
      queuedUpdates (inRounds evs) = updates.map (none, ·) ∨
        ∃ id, queuedUpdates (inRounds evs) = updates.map (none, ·) ++ updates.map (some id, ·) := by
  intro htwice
  obtain ⟨evs, hfinished, hqueued⟩ := Option.map_eq_some_iff.mp finishedUpdates?_hedgedUpdate
  obtain ⟨c', hrun, rfl⟩ := finishedEvents?_eq_some.mp hfinished
  rcases htwice Script.announcing 4 hedgedUpdate c' c'.events [dueUpdate]
      Script.announcing_control rfl hrun rfl with hone | ⟨id, htwo⟩
  · simp [hqueued] at hone
  · simp [hqueued] at htwo

end Connection

end Multipath
