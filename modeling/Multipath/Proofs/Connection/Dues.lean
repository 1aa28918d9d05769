import Multipath.Proofs.Connection.Accounting
import Multipath.Proofs.Connection.Flushing

/-!
# What a flush does for each path

A flush goes through the paths one by one, and what it does for a path touches the receiver of no
other.  So each path is served as if it were the only one: the acknowledgement it hands out is the
one that was due when the flush began, and the journal of the flush is made of one stretch for each
path, in the order of the paths.

* `Service`: what the journal says of one path.  `flushPath_service`: a path that is flushed gets
  its service.
* `flushPaths_service`: the stretches of all paths.
* `Flushed`: what a service comes to, in terms of packets and window updates.
* `flush_serves`: every path is served, and nothing is due afterwards.
-/

namespace Multipath

namespace Event

/-- The path an event is about. -/
def path? : Event → Option PathId
  | .drained id _ | .acknowledged id _ | .hedged id _ | .packed id _ | .packedHandshake id _ _
  | .packedAck id _ | .sent id _ | .pinged id | .failed _ id _ => some id
  | .queued target _ => target
  | .streamReturned _ | .pathsScheduled | .updatesAsked .. | .unblocked | .closed _
  | .agent _ => none

end Event

/-- The window updates queued for a path. -/
def updatesOn (id : PathId) (evs : List Event) : List WindowUpdate :=
  evs.filterMap fun
    | .queued target (.windowUpdate f) => if target = some id then some f else none
    | _ => none

/-- The packets built for the acknowledgements of a path. -/
def ackPacketsOn (id : PathId) (evs : List Event) : List Packet :=
  evs.filterMap fun
    | .packedAck i packet => if i = id then some packet else none
    | _ => none

/-- The packer's answers for a path. -/
def answersOn (id : PathId) (evs : List Event) : List (Option Packet) :=
  evs.filterMap fun
    | .packed i answer => if i = id then some answer else none
    | _ => none

/-- Of an event nothing is read for another path than the one it is about. -/
theorem reads_nothing {id : PathId} {e : Event} (h : e.path? ≠ some id) :
    updatesOn id [e] = [] ∧ ackPacketsOn id [e] = [] ∧ sentOn id [e] = [] ∧
      answersOn id [e] = [] := by
  have hne : ∀ {j : PathId}, e.path? = some j → j ≠ id := fun hj heq => h (heq ▸ hj)
  cases e with
  | queued target frame =>
      cases frame with
      | windowUpdate f => exact ⟨by simp [updatesOn, show target ≠ some id from h], rfl, rfl, rfl⟩
      | _ => exact ⟨rfl, rfl, rfl, rfl⟩
  | packedAck j packet => exact ⟨rfl, by simp [ackPacketsOn, hne rfl], rfl, rfl⟩
  | sent j packet => exact ⟨rfl, rfl, by simp [sentOn, hne rfl], rfl⟩
  | packed j answer => exact ⟨rfl, rfl, rfl, by simp [answersOn, hne rfl]⟩
  | _ => exact ⟨rfl, rfl, rfl, rfl⟩

/-! ### Stretches of a journal -/

section Stretches

variable {α : Type} {id : PathId} {ids : List PathId} {before after : List Event}
  {stretch : PathId → List Event} {read : Event → Option α}

/-- Of a path without a stretch nothing is read. -/
theorem filterMap_stretches_of_not_mem (hread : ∀ e, e.path? ≠ some id → [e].filterMap read = [])
    (hbefore : ∀ e ∈ before, e.path? = none) (hafter : ∀ e ∈ after, e.path? = none)
    (hstretch : ∀ j ∈ ids, ∀ e ∈ stretch j, e.path? = some j) (hid : id ∉ ids) :
    (before ++ ids.flatMap stretch ++ after).filterMap read = [] := by
  refine List.filterMap_eq_nil_iff.mpr fun e he => List.filterMap_eq_nil_iff.mp
    (hread e fun hpath => ?_) e (List.mem_singleton_self e)
  rcases List.mem_append.mp he with he | he
  · rcases List.mem_append.mp he with he | he
    · simp [hbefore e he] at hpath
    · obtain ⟨j, hj, he⟩ := List.mem_flatMap.mp he
      obtain rfl : j = id := Option.some.inj ((hstretch j hj e he).symm.trans hpath)
      exact hid hj
  · simp [hafter e he] at hpath

/-- What is read of a path stands in its own stretch. -/
theorem filterMap_stretches (hread : ∀ e, e.path? ≠ some id → [e].filterMap read = [])
    (hbefore : ∀ e ∈ before, e.path? = none) (hafter : ∀ e ∈ after, e.path? = none)
    (hstretch : ∀ j ∈ ids, ∀ e ∈ stretch j, e.path? = some j) (hnodup : ids.Nodup)
    (hid : id ∈ ids) :
    (before ++ ids.flatMap stretch ++ after).filterMap read = (stretch id).filterMap read := by
  obtain ⟨l, m, rfl⟩ := List.append_of_mem hid
  obtain ⟨-, hm, hlm⟩ := List.nodup_append.mp hnodup
  have hl : id ∉ l := fun hmem => hlm id hmem id List.mem_cons_self rfl
  -- nothing is read from the stretches before it and from those after it
  have hleft : (before ++ l.flatMap stretch ++ []).filterMap read = [] :=
    filterMap_stretches_of_not_mem hread hbefore (by simp)
      (fun j hj => hstretch j (List.mem_append_left _ hj)) hl
  have hright : ([] ++ m.flatMap stretch ++ after).filterMap read = [] :=
    filterMap_stretches_of_not_mem hread (by simp) hafter
      (fun j hj => hstretch j (List.mem_append_right _ (List.mem_cons_of_mem _ hj)))
      (List.nodup_cons.mp hm).1
  have hsplit : before ++ (l ++ id :: m).flatMap stretch ++ after =
      (before ++ l.flatMap stretch ++ []) ++
        (stretch id ++ ([] ++ m.flatMap stretch ++ after)) := by
    simp
  rw [hsplit, List.filterMap_append, hleft, List.filterMap_append, hright, List.nil_append,
    List.append_nil]

/-- The stretch of a path is a part of the journal. -/
theorem stretch_within (hid : id ∈ ids) :
    stretch id <:+: before ++ ids.flatMap stretch ++ after := by
  obtain ⟨l, m, rfl⟩ := List.append_of_mem hid
  rw [List.flatMap_append, List.flatMap_cons]
  exact ⟨before ++ l.flatMap stretch, m.flatMap stretch ++ after, by simp⟩

end Stretches

/-- A path set holds at most one path for each number. -/
theorem PathSet.ids_nodup (s : PathSet) : s.ids.Nodup :=
  List.Pairwise.map _ (fun _ _ hlt heq => UInt8.lt_irrefl _ (heq ▸ hlt)) s.ascending

/-! ### One path -/

/-- The notice that may go with a packet. -/
def IsNotice (id : PathId) (evs : List Event) : Prop :=
  evs = [] ∨ ∃ n, evs = [.queued (some id) (.stopWaiting n)]

/-- The entries for window updates that are queued for a path. -/
def updateEntries (id : PathId) (due : List WindowUpdate) : List Event :=
  due.map fun f => .queued (some id) (.windowUpdate f)

/-- What the journal says of a path that is flushed, `due` being the window updates and the last
but one argument the acknowledgement that is due. -/
inductive Service (due : List WindowUpdate) (id : PathId) :
    Option AckFrame → List Event → Prop where
  /-- The acknowledgement goes out in a packet of its own. -/
  | acked (frame : AckFrame) (packet : Packet) {notice : List Event}
      (hnotice : IsNotice id notice) :
      Service due id (some frame) (.acknowledged id frame :: (updateEntries id due ++ (notice ++
        [.queued (some id) (.ack frame), .packedAck id packet, .sent id packet])))
  /-- There is nothing to send, or the path is spared. -/
  | spared (h : due = [] ∨ id = .initial) : Service due id none (updateEntries id due)
  /-- The packer is asked for a packet that carries the window updates. -/
  | asked (hdue : due ≠ []) (hid : id ≠ .initial) (answer : Option Packet) {notice : List Event}
      (hnotice : IsNotice id notice) :
      Service due id none (updateEntries id due ++ (notice ++
        .packed id answer :: answer.toList.map (.sent id)))

/-- What a service comes to.  It can be read off a larger journal as well. -/
structure Flushed (due : List WindowUpdate) (id : PathId) (ack : Option AckFrame)
    (evs : List Event) : Prop where
  /-- Every window update is queued once. -/
  updates : updatesOn id evs = due
  /-- An acknowledgement that is due goes out in one packet, for which it is queued just before. -/
  acked : ∀ frame, ack = some frame → ∃ packet, ackPacketsOn id evs = [packet] ∧
    sentOn id evs = [packet] ∧
    [.queued (some id) (.ack frame), .packedAck id packet, .sent id packet] <:+: evs
  /-- Without one, no packet is built for an acknowledgement, -/
  unacked : ack = none → ackPacketsOn id evs = []
  /-- none is sent on the initial path, -/
  initial : ack = none → id = .initial → sentOn id evs = []
  /-- and on another path none is asked for without window updates; -/
  spared : ack = none → due = [] → answersOn id evs = [] ∧ sentOn id evs = []
  /-- with window updates, one is sent just if the packer returns one. -/
  asked : ack = none → id ≠ .initial → due ≠ [] →
    ∃ answer, answersOn id evs = [answer] ∧ sentOn id evs = answer.toList

section Service

variable {due : List WindowUpdate} {id : PathId} {ack : Option AckFrame} {evs notice : List Event}

theorem IsNotice.path? (h : IsNotice id notice) : ∀ e ∈ notice, e.path? = some id := by
  rcases h with rfl | ⟨n, rfl⟩ <;> simp [Event.path?]

/-- A service is about its path. -/
theorem Service.path? (h : Service due id ack evs) : ∀ e ∈ evs, e.path? = some id := by
  have hupdates : ∀ e ∈ updateEntries id due, e.path? = some id := by
    simp [updateEntries, Event.path?]
  intro e he
  cases h with
  | acked frame packet hnotice =>
      have := hnotice.path? e
      have := hupdates e
      simp only [List.mem_cons, List.mem_append, List.not_mem_nil, or_false] at he
      rcases he with rfl | he | he | rfl | rfl | rfl <;> first | rfl | simp_all
  | spared => exact hupdates e he
  | asked hdue hid answer hnotice =>
      have := hnotice.path? e
      have := hupdates e
      simp only [List.mem_append, List.mem_cons, List.mem_map] at he
      rcases he with he | he | rfl | ⟨packet, -, rfl⟩ <;> first | rfl | simp_all

/-- The window updates are queued first, and of a notice nothing is read. -/
theorem reads_entries (due : List WindowUpdate) (hnotice : IsNotice id notice) (rest : List Event) :
    updatesOn id (updateEntries id due ++ (notice ++ rest)) = due ++ updatesOn id rest ∧
      ackPacketsOn id (updateEntries id due ++ (notice ++ rest)) = ackPacketsOn id rest ∧
      sentOn id (updateEntries id due ++ (notice ++ rest)) = sentOn id rest ∧
      answersOn id (updateEntries id due ++ (notice ++ rest)) = answersOn id rest := by
  rcases hnotice with rfl | ⟨n, rfl⟩ <;>
    simp [updatesOn, ackPacketsOn, sentOn, answersOn, updateEntries, List.filterMap_map]

/-- **What a service comes to.** -/
theorem Service.flushed (h : Service due id ack evs) : Flushed due id ack evs := by
  cases h with
  | acked frame packet hnotice =>
      obtain ⟨hupdates, hacks, hsent, -⟩ := reads_entries due hnotice
        [.queued (some id) (.ack frame), .packedAck id packet, .sent id packet]
      refine ⟨hupdates.trans (by simp [updatesOn]), fun _ h => ?_, by simp, by simp, by simp,
        by simp⟩
      obtain rfl := Option.some.inj h
      refine ⟨packet, hacks.trans (by simp [ackPacketsOn]), hsent.trans (by simp [sentOn]), ?_⟩
      rw [← List.append_assoc]
      exact (List.suffix_append _ _).isInfix.trans (List.suffix_cons _ _).isInfix
  | spared hspared =>
      obtain ⟨hupdates, hacks, hsent, hanswers⟩ := reads_entries due (.inl rfl) []
      simp only [List.append_nil] at hupdates hacks hsent hanswers
      refine ⟨hupdates.trans (by simp [updatesOn]), by simp, fun _ => hacks,
        fun _ _ => hsent, fun _ _ => ⟨hanswers, hsent⟩, fun _ hid hdue => ?_⟩
      exact absurd hspared (not_or.mpr ⟨hdue, hid⟩)
  | asked hdue hid answer hnotice =>
      obtain ⟨hupdates, hacks, hsent, hanswers⟩ := reads_entries due hnotice
        (.packed id answer :: answer.toList.map (.sent id))
      refine ⟨hupdates.trans ?_, by simp, fun _ => hacks.trans ?_,
        fun _ h => absurd h hid, fun _ h => absurd h hdue, fun _ _ _ =>
          ⟨answer, hanswers.trans ?_, hsent.trans ?_⟩⟩
      all_goals cases answer <;> simp [updatesOn, ackPacketsOn, answersOn, sentOn]

/-- A service is not one of signs of life. -/
theorem Service.not_pinged (h : Service due id ack evs) (j : PathId) : .pinged j ∉ evs := by
  have hnotice : ∀ {notice : List Event}, IsNotice id notice → .pinged j ∉ notice := by
    rintro notice (rfl | ⟨n, rfl⟩) <;> simp
  cases h with
  | acked frame packet h => simp [updateEntries, hnotice h]
  | spared => simp [updateEntries]
  | asked hdue hid answer h => simp [updateEntries, hnotice h]

theorem Flushed.length_sentOn (h : Flushed due id ack evs) : (sentOn id evs).length ≤ 1 := by
  cases ack with
  | some frame =>
      obtain ⟨packet, -, hsent, -⟩ := h.acked frame rfl
      simp [hsent]
  | none =>
      by_cases hid : id = .initial
      · simp [h.initial rfl hid]
      · by_cases hdue : due = []
        · simp [(h.spared rfl hdue).2]
        · obtain ⟨answer, -, hsent⟩ := h.asked rfl hid hdue
          cases answer <;> simp [hsent]

end Service

/-- A path that is flushed in its own stretch is flushed in the whole journal. -/
theorem Flushed.of_stretch {due : List WindowUpdate} {id : PathId} {ack : Option AckFrame}
    {ids : List PathId} {before after : List Event} {stretch : PathId → List Event}
    (h : Flushed due id ack (stretch id)) (hbefore : ∀ e ∈ before, e.path? = none)
    (hafter : ∀ e ∈ after, e.path? = none)
    (hstretch : ∀ j ∈ ids, ∀ e ∈ stretch j, e.path? = some j) (hnodup : ids.Nodup)
    (hid : id ∈ ids) : Flushed due id ack (before ++ ids.flatMap stretch ++ after) := by
  have hreads : ∀ {α : Type} {read : Event → Option α},
      (∀ e, e.path? ≠ some id → [e].filterMap read = []) →
      (before ++ ids.flatMap stretch ++ after).filterMap read = (stretch id).filterMap read :=
    fun hread => filterMap_stretches hread hbefore hafter hstretch hnodup hid
  have hupdates : updatesOn id (before ++ ids.flatMap stretch ++ after) =
      updatesOn id (stretch id) := hreads fun _ he => (reads_nothing he).1
  have hacks : ackPacketsOn id (before ++ ids.flatMap stretch ++ after) =
      ackPacketsOn id (stretch id) := hreads fun _ he => (reads_nothing he).2.1
  have hsent : sentOn id (before ++ ids.flatMap stretch ++ after) = sentOn id (stretch id) :=
    hreads fun _ he => (reads_nothing he).2.2.1
  have hanswers : answersOn id (before ++ ids.flatMap stretch ++ after) =
      answersOn id (stretch id) := hreads fun _ he => (reads_nothing he).2.2.2
  constructor
  · exact hupdates.trans h.updates
  · intro frame hframe
    obtain ⟨packet, hpacked, hpacket, hwithin⟩ := h.acked frame hframe
    exact ⟨packet, hacks.trans hpacked, hsent.trans hpacket, hwithin.trans (stretch_within hid)⟩
  · exact fun hack => hacks.trans (h.unacked hack)
  · exact fun hack hinitial => hsent.trans (h.initial hack hinitial)
  · rw [hanswers, hsent]
    exact h.spared
  · rw [hanswers, hsent]
    exact h.asked

namespace Connection

variable {σ : Type} {S : Session σ} {c c₁ c₂ c' : Connection σ} {due : List WindowUpdate}
  {id : PathId} {now : Instant}

/-! ### The steps of a flush -/

/-- The journal has grown by `evs`, and the receivers are as they were. -/
def Writes (evs : List Event) (c c' : Connection σ) : Prop :=
  c'.events = c.events ++ evs ∧ ∀ j, (c'.path j).receiver = (c.path j).receiver

theorem Writes.trans {evs evs' : List Event} (h : Writes evs c c₁) (h' : Writes evs' c₁ c₂) :
    Writes (evs ++ evs') c c₂ :=
  ⟨by rw [h'.1, h.1, List.append_assoc], fun j => (h'.2 j).trans (h.2 j)⟩

theorem writes_queue (target : Option PathId) (frame : Frame)
    (h : queue S target frame c = .ok () c') : Writes [.queued target frame] c c' := by
  cases h
  exact ⟨events_note c _ _ _, fun _ => rfl⟩

theorem writes_queueUpdates (h : queueUpdates S (some id) due c = .ok () c') :
    Writes (updateEntries id due) c c' := by
  induction due generalizing c with
  | nil =>
      obtain ⟨-, rfl⟩ := pure_ok h
      exact ⟨(List.append_nil _).symm, fun _ => rfl⟩
  | cons f due ih =>
      obtain ⟨⟨⟩, c₁, hqueue, h⟩ := bind_ok h
      exact (writes_queue _ _ hqueue).trans (ih h)

theorem writes_queueStopWaiting {force : Bool} (h : queueStopWaiting S id force c = .ok () c') :
    ∃ notice, IsNotice id notice ∧ Writes notice c c' := by
  rw [queueStopWaiting_eq] at h
  have hpaths : Writes [] c { c with
      paths := c.paths.update id (fun p => (p.stopWaiting force).2) (stopWaiting_id force) } :=
    ⟨(List.append_nil _).symm, fun j =>
      PathSet.get_update_eq Path.receiver (stopWaiting_receiver force) (stopWaiting_id force)⟩
  cases hnumber : ((c.path id).stopWaiting force).1 with
  | none =>
      rw [hnumber] at h
      obtain ⟨-, rfl⟩ := pure_ok h
      exact ⟨[], .inl rfl, hpaths⟩
  | some n =>
      rw [hnumber] at h
      exact ⟨_, .inr ⟨n, rfl⟩, hpaths.trans (writes_queue _ _ h)⟩

theorem writes_callOn {α : Type} {call : PacketCall} {operation : σ → Path → Reply σ α}
    {event : α → Event} {a : α} (h : callOn call id operation event c = .ok a c') :
    Writes [event a] c c' := by
  obtain ⟨-, -, hevents, hreceiver⟩ := callOn_ok h
  exact ⟨hevents, hreceiver⟩

theorem writes_transmit {packet : Packet} (h : transmit S id packet c = .ok () c') :
    Writes [.sent id packet] c c' := by
  obtain ⟨-, hevents, hreceiver⟩ := transmit_ok h
  exact ⟨hevents, hreceiver⟩

/-- Nothing is due once it has been asked for. -/
theorem isDue_ack (r : Receiver) (now : Instant) : (r.ack now).2.isDue now = false := by
  rcases r.ack_cases now with ⟨hdue, h⟩ | ⟨-, -, h⟩ | ⟨lowest, -, -, h⟩ <;> rw [h]
  · exact hdue
  · rfl
  · rfl

/-- An acknowledgement is taken from its path, and from no other. -/
theorem takeAck_ok {answer : Option AckFrame} (h : takeAck id now c = .ok answer c') :
    answer = ((c.path id).ack now).1 ∧
      c'.events = c.events ++ answer.toList.map (.acknowledged id) ∧
      (∀ j, j ≠ id → (c'.path j).receiver = (c.path j).receiver) ∧
      (c'.path id).receiver.isDue now = false := by
  have hother : ∀ (scheduler : Scheduler) (j : PathId), j ≠ id →
      (path ⟨scheduler, c.paths.update id (fun p => (p.ack now).2), c.session⟩ j).receiver =
        (c.path j).receiver := fun _ j hj =>
    congrArg Path.receiver (PathSet.get_update_ne (k := by intro p; rfl) hj)
  have hself : ∀ scheduler : Scheduler,
      (path ⟨scheduler, c.paths.update id (fun p => (p.ack now).2), c.session⟩
        id).receiver.isDue now = false := by
    intro scheduler
    unfold path
    rcases PathSet.get_update_self (s := c.paths) (i := id) (f := fun p => (p.ack now).2)
      (k := by intro p; rfl) with hfound | hfresh
    · rw [hfound]
      exact isDue_ack _ now
    · rw [hfresh]
      rfl
  rw [takeAck_eq] at h
  dsimp only at h
  split at h
  · rename_i frame hack
    cases h
    exact ⟨hack.symm, events_note c _ _ _, hother _, hself _⟩
  · rename_i hack
    cases h
    exact ⟨hack.symm, (List.append_nil _).symm, hother _, hself _⟩

/-! ### The service of a path -/

/-- Path `id` has been served, and nothing was done about the others. -/
structure Serves (due : List WindowUpdate) (now : Instant) (id : PathId) (evs : List Event)
    (c c' : Connection σ) : Prop where
  events : c'.events = c.events ++ evs
  service : Service due id ((c.path id).ack now).1 evs
  others : ∀ j, j ≠ id → (c'.path j).receiver = (c.path j).receiver
  settled : (c'.path id).receiver.isDue now = false

/-- **A path that is flushed is served.** -/
theorem flushPath_service (h : flushPath S due now id c = .ok () c') :
    ∃ evs, Serves due now id evs c c' := by
  obtain ⟨answer, c₁, htake, h⟩ := bind_ok h
  obtain ⟨⟨⟩, c₂, hupdates, h⟩ := bind_ok h
  obtain ⟨hanswer, htaken, hothers, hsettled⟩ := takeAck_ok htake
  have hqueued := writes_queueUpdates hupdates
  -- whatever is written from here on, the receivers stay as they are
  have hserves : ∀ {evs : List Event}, Writes evs c₁ c' →
      Service due id answer (answer.toList.map (.acknowledged id) ++ evs) →
      ∃ evs, Serves due now id evs c c' := by
    intro evs hwrites hservice
    refine ⟨answer.toList.map (.acknowledged id) ++ evs, ?_, by rwa [← hanswer],
      fun j hj => (hwrites.2 j).trans (hothers j hj), ?_⟩
    · rw [hwrites.1, htaken, List.append_assoc]
    · rw [hwrites.2 id]
      exact hsettled
  cases answer with
  | none =>
      split at h
      · rename_i hspared
        obtain ⟨-, rfl⟩ := pure_ok h
        exact hserves hqueued (.spared (by simpa [PathId.isInitial] using hspared))
      · rename_i hasked
        obtain ⟨hdue, hid⟩ : due ≠ [] ∧ id ≠ .initial := by
          simpa [PathId.isInitial] using hasked
        obtain ⟨⟨⟩, c₃, hstop, h⟩ := bind_ok h
        obtain ⟨built, c₄, hpack, h⟩ := bind_ok h
        obtain ⟨notice, hnotice, hnoticed⟩ := writes_queueStopWaiting hstop
        have hpacked : Writes [.packed id built] c₃ c₄ := writes_callOn hpack
        have hsent : Writes (built.toList.map (.sent id)) c₄ c' := by
          cases built with
          | none =>
              obtain ⟨-, rfl⟩ := pure_ok h
              exact ⟨(List.append_nil _).symm, fun _ => rfl⟩
          | some packet => exact writes_transmit h
        exact hserves (hqueued.trans (hnoticed.trans (hpacked.trans hsent)))
          (.asked hdue hid built hnotice)
  | some frame =>
      simp only [Option.isNone_some, Bool.false_and] at h
      obtain ⟨⟨⟩, c₃, hstop, h⟩ := bind_ok h
      obtain ⟨built, c₄, hbuild, h⟩ := bind_ok h
      obtain ⟨packet, c₅, rfl, hqueue, hpack⟩ := packFlush_some hbuild
      obtain ⟨notice, hnotice, hnoticed⟩ := writes_queueStopWaiting hstop
      have hpacked : Writes [.packedAck id packet] c₅ c₄ := writes_callOn hpack
      exact hserves (hqueued.trans (hnoticed.trans ((writes_queue _ _ hqueue).trans
        (hpacked.trans (writes_transmit h))))) (.acked frame packet hnotice)

/-- **Every path is served as if it were the only one.** -/
theorem flushPaths_service {ids : List PathId} (hnodup : ids.Nodup)
    (h : ids.forM (flushPath S due now) c = .ok () c') :
    ∃ stretch : PathId → List Event, c'.events = c.events ++ ids.flatMap stretch ∧
      (∀ id ∈ ids, Service due id ((c.path id).ack now).1 (stretch id) ∧
        (c'.path id).receiver.isDue now = false) ∧
      ∀ id ∉ ids, (c'.path id).receiver = (c.path id).receiver := by
  induction ids generalizing c with
  | nil =>
      obtain ⟨-, rfl⟩ := pure_ok h
      exact ⟨fun _ => [], by simp, by simp, fun _ _ => rfl⟩
  | cons j ids ih =>
      obtain ⟨⟨⟩, c₁, hj, h⟩ := bind_ok h
      obtain ⟨hfresh, hnodup⟩ := List.nodup_cons.mp hnodup
      obtain ⟨evs, hserves⟩ := flushPath_service hj
      obtain ⟨stretch, hevents, hserved, hrest⟩ := ih hnodup h
      refine ⟨Function.update stretch j evs, ?_, fun id hid => ?_, fun id hid => ?_⟩
      · have hsame : ids.flatMap (Function.update stretch j evs) = ids.flatMap stretch :=
          List.flatMap_congr fun id hid =>
            Function.update_of_ne (ne_of_mem_of_not_mem hid hfresh) ..
        rw [List.flatMap_cons, Function.update_self, hsame, hevents, hserves.events,
          List.append_assoc]
      · by_cases hidj : id = j
        · subst hidj
          rw [Function.update_self, hrest id hfresh]
          exact ⟨hserves.service, hserves.settled⟩
        · rw [Function.update_of_ne hidj]
          have hack : ((c₁.path id).ack now).1 = ((c.path id).ack now).1 := by
            unfold Path.ack
            rw [hserves.others id hidj]
          exact hack ▸ hserved id ((List.mem_cons.mp hid).resolve_left hidj)
      · obtain ⟨hne, hid⟩ := List.ne_and_not_mem_of_not_mem_cons hid
        exact (hrest id hid).trans (hserves.others id hne)

/-! ### The flush -/

/-- The window updates of a flush, and the session that is asked for them if there are none. -/
def dueUpdates (S : Session σ) (updates : List WindowUpdate) (s : σ) : List WindowUpdate × σ :=
  if updates.isEmpty then S.windowUpdates s (S.peerBlocked s) else (updates, s)

/-- The journal of a flush: the question for window updates if there are none, a stretch for each
path, and the end. -/
theorem flush_journal {updates : List WindowUpdate} (h : flush S updates c = .ok () c') :
    let due := (dueUpdates S updates c.session).1
    let now := S.now (dueUpdates S updates c.session).2
    ∃ (before : List Event) (stretch : PathId → List Event),
      c'.events = c.events ++ (before ++ c.paths.ids.flatMap stretch ++ [.unblocked]) ∧
      (before = [] ∨ ∃ force, before = [.updatesAsked force due]) ∧
      (∀ id ∈ c.paths.ids, Service due id ((c.path id).ack now).1 (stretch id) ∧
        (c'.path id).receiver.isDue now = false) ∧
      ∃ s, c'.session = S.clearPeerBlocked s := by
  obtain ⟨due, c₁, c₂, hasked, hpaths, hunblock⟩ := flush_ok h
  -- asking for window updates leaves the paths alone
  obtain ⟨before, hevents₁, hbefore, hdue, hpaths₁⟩ : ∃ before, c₁.events = c.events ++ before ∧
      (before = [] ∨ ∃ force, before = [.updatesAsked force due]) ∧
      dueUpdates S updates c.session = (due, c₁.session) ∧ c₁.paths = c.paths := by
    rcases hasked with ⟨rfl, hask⟩ | ⟨hne, rfl, rfl⟩
    · rw [askUpdates_eq] at hask
      cases hask
      exact ⟨_, events_note c _ _ _, .inr ⟨_, rfl⟩, rfl, rfl⟩
    · refine ⟨[], (List.append_nil _).symm, .inl rfl, ?_, rfl⟩
      rw [dueUpdates, if_neg (by simpa using hne)]
  have hpath : ∀ id, c₁.path id = c.path id := fun id => by rw [path, hpaths₁]; rfl
  obtain ⟨stretch, hevents₂, hserved, -⟩ := flushPaths_service c₁.paths.ids_nodup hpaths
  obtain ⟨hevents, hpath', hsession⟩ : c'.events = c₂.events ++ [.unblocked] ∧
      (∀ id, c'.path id = c₂.path id) ∧ c'.session = S.clearPeerBlocked c₂.session := by
    cases hunblock
    exact ⟨events_note c₂ _ _ _, fun _ => rfl, rfl⟩
  simp only [hpath, hpaths₁] at hserved hevents₂
  refine ⟨before, stretch, ?_, ?_, ?_, _, hsession⟩
  · rw [hevents, hevents₂, hevents₁]
    simp
  · rwa [hdue]
  · simpa only [hdue, hpath'] using hserved

/-- **What a flush does for each path.**  If it succeeds, then for every path: each of the window
updates is queued once; an acknowledgement that is due is queued and at once goes out in a packet
built for it; without one, the initial path gets no packet, and another path gets one just if there
are window updates and the packer returns one.  No path gets more than one packet, no
acknowledgement is due any more, and the peer is no longer held up. -/
theorem flush_serves {updates : List WindowUpdate} (h : flush S updates c = .ok () c') :
    let due := (dueUpdates S updates c.session).1
    let now := S.now (dueUpdates S updates c.session).2
    ∃ evs, c'.events = c.events ++ evs ∧
      (∀ id ∈ c.paths.ids, Flushed due id ((c.path id).ack now).1 evs ∧
        (c'.path id).ack now = (none, c'.path id)) ∧
      (∀ id, (sentOn id evs).length ≤ 1 ∧ (id ∉ c.paths.ids → sentOn id evs = []) ∧
        .pinged id ∉ evs) ∧
      (∃ s, c'.session = S.clearPeerBlocked s) ∧ evs.getLast? = some .unblocked ∧
      ((∀ s, S.peerBlocked (S.clearPeerBlocked s) = false) →
        S.peerBlocked c'.session = false) := by
  intro due now
  obtain ⟨before, stretch, hevents, hbefore, hserved, s, hsession⟩ := flush_journal h
  have hbefore : ∀ e ∈ before, e.path? = none := by
    rcases hbefore with rfl | ⟨force, rfl⟩ <;> simp [Event.path?]
  have hafter : ∀ e ∈ [Event.unblocked], e.path? = none := by simp [Event.path?]
  have hstretch : ∀ id ∈ c.paths.ids, ∀ e ∈ stretch id, e.path? = some id := fun id hid =>
    (hserved id hid).1.path?
  have hflushed : ∀ id ∈ c.paths.ids, Flushed due id ((c.path id).ack now).1
      (before ++ c.paths.ids.flatMap stretch ++ [.unblocked]) := fun id hid =>
    (hserved id hid).1.flushed.of_stretch hbefore hafter hstretch c.paths.ids_nodup hid
  have hunsent : ∀ id ∉ c.paths.ids,
      sentOn id (before ++ c.paths.ids.flatMap stretch ++ [.unblocked]) = [] := fun id hid =>
    filterMap_stretches_of_not_mem (fun _ he => (reads_nothing he).2.2.1) hbefore hafter hstretch
      hid
  refine ⟨_, hevents, fun id hid => ⟨hflushed id hid, ?_⟩, fun id => ⟨?_, hunsent id, ?_⟩,
    ⟨s, hsession⟩, by simp, fun hclears => hsession ▸ hclears s⟩
  · have hdue : (c'.path id).receiver.isDue now = false := (hserved id hid).2
    rw [Path.ack, Receiver.ack, if_neg (by simp [hdue])]
    rfl
  · by_cases hid : id ∈ c.paths.ids
    · exact (hflushed id hid).length_sentOn
    · rw [hunsent id hid]
      exact Nat.zero_le 1
  · intro hmem
    have hpath : ∀ {evs : List Event}, .pinged id ∈ evs → ¬ ∀ e ∈ evs, e.path? = none :=
      fun hmem hnone => absurd (hnone _ hmem) (by simp [Event.path?])
    rcases List.mem_append.mp hmem with hmem | hmem
    · rcases List.mem_append.mp hmem with hmem | hmem
      · exact hpath hmem hbefore
      · obtain ⟨j, hj, hmem⟩ := List.mem_flatMap.mp hmem
        exact (hserved j hj).1.not_pinged id hmem
    · exact hpath hmem hafter

/-! ### A flush of three paths -/

/-- A packet has arrived on the initial path and one on the primary path, and none on a third.  The
peer is held up, so a window update that could wait is due as well. -/
def mixedDues : Connection Script where
  scheduler := .new {} {} ⟨1⟩ ⟨0⟩ none default default
  paths :=
    let heard := (Watched.run .v39 Receiver.defaultAckDelay [.receive .one true ⟨0⟩]).receiver
    ((PathSet.empty.insert (.new .initial {} heard)).insert (.new .primary {} heard)).insert
      (.new ⟨2⟩ {} default)
  session := { forced := [⟨⟨5⟩, 1000⟩], peerBlocked := true }

/-- The action came to its end. -/
def succeeds : EStateM.Result Error (Connection σ) Unit → Bool
  | .ok () _ => true
  | .error _ _ => false

theorem exists_of_succeeds {r : EStateM.Result Error (Connection σ) Unit} (h : succeeds r = true) :
    ∃ c, r = .ok () c := by
  cases r with
  | ok _ c => exact ⟨c, rfl⟩
  | error => cases h

theorem succeeds_mixedDues : succeeds (flush Script.session [] mixedDues) = true := by
  decide +kernel

/-- Both acknowledgements go out, and the third path is asked for a packet with the update. -/
theorem flush_serves_mixedDues :
    ∃ c', flush Script.session [] mixedDues = .ok () c' ∧ ∃ evs, c'.events = [] ++ evs ∧
      (∃ packet, ackPacketsOn .initial evs = [packet] ∧ sentOn .initial evs = [packet]) ∧
      (∃ packet, ackPacketsOn .primary evs = [packet] ∧ sentOn .primary evs = [packet]) ∧
      (∃ answer, answersOn ⟨2⟩ evs = [answer] ∧ sentOn ⟨2⟩ evs = answer.toList) ∧
      updatesOn ⟨2⟩ evs = [⟨⟨5⟩, 1000⟩] ∧ Script.session.peerBlocked c'.session = false := by
  obtain ⟨c', hrun⟩ := exists_of_succeeds succeeds_mixedDues
  obtain ⟨evs, hevents, hserved, -, -, -, hclears⟩ := flush_serves hrun
  obtain ⟨packet, hinitial, hinitial', -⟩ := (hserved .initial (by decide)).1.acked _ rfl
  obtain ⟨packet', hprimary, hprimary', -⟩ := (hserved .primary (by decide)).1.acked _ rfl
  exact ⟨c', hrun, evs, hevents, ⟨packet, hinitial, hinitial'⟩, ⟨packet', hprimary, hprimary'⟩,
    (hserved ⟨2⟩ (by decide)).1.asked rfl (by decide) (by decide),
    (hserved ⟨2⟩ (by decide)).1.updates, hclears fun _ => rfl⟩

end Connection

end Multipath
