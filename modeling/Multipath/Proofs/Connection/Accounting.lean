import Mathlib.Data.UInt
import Multipath.Proofs.Connection.Steadiness

/-!
# What a run enters into the books

A packet is entered into the books of its path where it is sent, by the rounds and by the flush
alike, so the books follow the journal step by step.  The quotas follow only the rounds, which raise
them later than the packet is sent.  But between a packet that is built and one that is not, the
rounds do nothing else, so a quota counts the packets that are sent just after the packer built
them, up to the flush, which begins by asking for window updates.

* `sentOn`, `builtFor`: what the journal says was sent on a path, and what of it the packer built.
* `inRounds`: what the rounds of a run entered.
* `Entered`: the books have grown by what the journal says was sent.
* `Carries`, `Closes`: what the rounds do to the quotas, and how a run ends.
* `send_accounts`: both for a whole run, however it ends.
-/

namespace Multipath

namespace Event

/-- A packet was sent. -/
def isSent : Event → Bool
  | .sent .. => true
  | _ => false

/-- The session was asked which window updates are due. -/
def asksUpdates : Event → Bool
  | .updatesAsked .. => true
  | _ => false

/-- Nothing was sent, and the session was not asked for window updates. -/
def isIdle (e : Event) : Bool := !e.isSent && !e.asksUpdates

theorem isIdle_iff {e : Event} : e.isIdle = true ↔ e.isSent = false ∧ e.asksUpdates = false := by
  simp [isIdle]

end Event

/-- The packets sent on a path, in order. -/
def sentOn (id : PathId) (evs : List Event) : List Packet :=
  evs.filterMap fun
    | .sent i packet => if i = id then some packet else none
    | _ => none

/-- The packet that an event built for a path, if the next event sent it there. -/
def handedOn (id : PathId) : Event → Option Event → Option Packet
  | .packed i (some packet), some (.sent j sent) =>
    if i = id ∧ j = id ∧ sent = packet then some packet else none
  | _, _ => none

/-- The packets of a path that the packer built and that were sent at once, in order. -/
def builtFor (id : PathId) : List Event → List Packet
  | [] => []
  | e :: evs => (handedOn id e evs.head?).toList ++ builtFor id evs

/-- What the rounds of a run entered: what lies between the two questions for window updates with
which a run opens and is flushed. -/
def inRounds (evs : List Event) : List Event := (evs.drop 1).takeWhile (!·.asksUpdates)

/-! ### Journals in parts -/

section Journals

variable {id : PathId} {evs : List Event}

theorem sentOn_append (id : PathId) (xs ys : List Event) :
    sentOn id (xs ++ ys) = sentOn id xs ++ sentOn id ys := List.filterMap_append

theorem sentOn_of_unsent (h : ∀ e ∈ evs, e.isSent = false) : sentOn id evs = [] := by
  refine List.filterMap_eq_nil_iff.mpr fun e he => ?_
  have hunsent := h e he
  cases e <;> first | rfl | cases hunsent

theorem handedOn_of_unsent {e : Event} {next : Option Event}
    (h : ∀ e' ∈ next, e'.isSent = false) : handedOn id e next = none := by
  unfold handedOn
  split
  · cases h _ rfl
  · rfl

theorem builtFor_of_unsent (h : ∀ e ∈ evs, e.isSent = false) : builtFor id evs = [] := by
  induction evs with
  | nil => rfl
  | cons e evs ih =>
      have hrest : ∀ e ∈ evs, e.isSent = false := fun x hx => h x (List.mem_cons_of_mem _ hx)
      rw [builtFor, handedOn_of_unsent fun x hx => hrest x (List.mem_of_mem_head? hx), ih hrest]
      rfl

/-- What is built at the end of one part is not sent at the beginning of the next. -/
theorem builtFor_append {xs ys : List Event} (h : ∀ e ∈ ys.head?, e.isSent = false) :
    builtFor id (xs ++ ys) = builtFor id xs ++ builtFor id ys := by
  induction xs with
  | nil => rfl
  | cons e xs ih =>
      have hnext : handedOn id e (xs ++ ys).head? = handedOn id e xs.head? := by
        cases xs with
        | nil => exact (handedOn_of_unsent h).trans (handedOn_of_unsent (by simp)).symm
        | cons e' xs => rfl
      rw [List.cons_append, builtFor, builtFor, hnext, ih, List.append_assoc]

/-- The rounds of a run end with the second question for window updates. -/
theorem inRounds_of_split {force : Bool} {updates : List WindowUpdate} {xs ys : List Event}
    (hx : ∀ e ∈ xs, e.asksUpdates = false) (hy : ∀ e ∈ ys.head?, e.asksUpdates = true) :
    inRounds (.updatesAsked force updates :: (xs ++ ys)) = xs := by
  have hnone : ys.takeWhile (!·.asksUpdates) = [] := by
    cases ys with
    | nil => rfl
    | cons e ys => rw [List.takeWhile_cons_of_neg (by simp [hy e rfl])]
  rw [inRounds, List.drop_one, List.tail_cons,
    List.takeWhile_append_of_pos fun e he => by simp [hx e he], hnone, List.append_nil]

end Journals

/-! ### The books of the paths -/

namespace SendStatistics

/-- The books once packets are entered that were sent. -/
def entering (s : SendStatistics) (packets : List Packet) : SendStatistics :=
  { s with
    packets := s.packets + UInt64.ofNat packets.length
    bytes := s.bytes + (packets.map (·.length)).sum }

theorem entering_nil (s : SendStatistics) : s.entering [] = s := by
  simp [entering]

theorem entering_append (s : SendStatistics) (xs ys : List Packet) :
    s.entering (xs ++ ys) = (s.entering xs).entering ys := by
  simp only [entering, List.length_append, List.map_append, List.sum_append, UInt64.ofNat_add,
    UInt64.add_assoc]

end SendStatistics

namespace PathSet

variable {s s' : PathSet} {id : PathId} {f : Path → Path}

/-- What has been sent, path by path. -/
def books (s : PathSet) : List (PathId × SendStatistics) := s.toList.map fun p => (p.id, p.sent)

theorem books_update (hf : ∀ p, (f p).sent = p.sent := by intro p; rfl)
    (k : ∀ p, (f p).id = p.id := by intro p; rfl) : (s.update id f k).books = s.books :=
  map_update fun p _ _ => Prod.ext (k p) (hf p)

theorem books_updateAll (hf : ∀ p, (f p).sent = p.sent := by intro p; rfl)
    (k : ∀ p, (f p).id = p.id := by intro p; rfl) : (s.updateAll f k).books = s.books :=
  map_updateAll fun p _ => Prod.ext (k p) (hf p)

/-- The books of a path on which a packet was sent. -/
theorem books_recordSent (s : PathSet) (id : PathId) (packet : Packet) :
    (s.update id (·.recordSent packet.length)).books =
      s.books.map fun b => (b.1, b.2.entering (sentOn b.1 [.sent id packet])) := by
  simp only [books, update, List.map_map]
  refine List.map_congr_left fun p _ => ?_
  simp only [Function.comp]
  by_cases hid : p.id = id
  · subst hid
    simp [sentOn, SendStatistics.entering, Path.recordSent]
  · simp [sentOn, hid, Ne.symm hid, SendStatistics.entering_nil]

/-- The books of the whole set tell those of every path. -/
theorem sent_get_of_books {g : PathId → SendStatistics → SendStatistics}
    (h : s'.books = s.books.map fun b => (b.1, g b.1 b.2)) (hid : id ∈ s.ids) :
    (s'.get id).sent = g id (s.get id).sent := by
  have hmem : (id, (s.get id).sent) ∈ s.books :=
    List.mem_map.mpr ⟨s.get id, get_mem hid, by rw [get_id]⟩
  have hmem' : (id, g id (s.get id).sent) ∈ s'.books := by
    rw [h]
    exact List.mem_map.mpr ⟨_, hmem, rfl⟩
  obtain ⟨q, hq, heq⟩ := List.mem_map.mp hmem'
  obtain ⟨rfl, hsent⟩ := Prod.mk.inj heq
  rw [get_of_mem hq, hsent]

end PathSet

namespace Connection

variable {σ : Type} {S : Session σ} {c c₁ c' : Connection σ}

/-! ### Sending a packet -/

theorem callOn_left {α : Type} (call : PacketCall) (id : PathId)
    (operation : σ → Path → Reply σ α) (event : α → Event) (c : Connection σ) :
    (left (callOn call id operation event c)).paths.books = c.paths.books ∧
      (left (callOn call id operation event c)).scheduler.quotas = c.scheduler.quotas := by
  rw [callOn_eq]
  dsimp only
  split <;> exact ⟨PathSet.books_update, rfl⟩

/-- A packet that is sent is entered into the journal and the books, and one that is not only into
the journal. -/
theorem transmit_cases (id : PathId) (packet : Packet) (c : Connection σ) :
    (∃ e c', transmit S id packet c = .error e c' ∧
        c'.events = c.events ++ [.failed .send id e] ∧ c'.paths.books = c.paths.books ∧
        c'.scheduler.quotas = c.scheduler.quotas) ∨
      ∃ c', transmit S id packet c = .ok () c' ∧ c'.events = c.events ++ [.sent id packet] ∧
        c'.paths.books =
          c.paths.books.map (fun b => (b.1, b.2.entering (sentOn b.1 [.sent id packet]))) ∧
        c'.scheduler.quotas = c.scheduler.quotas := by
  cases hresult : (S.send c.session packet (c.path id)).result with
  | error e =>
      refine .inl ⟨e, ⟨c.scheduler.note (.failed .send id e), c.paths.update id (·.setTelemetry
        (S.send c.session packet (c.path id)).telemetry), (S.send c.session packet
        (c.path id)).session⟩, ?_, events_note c _ _ _, PathSet.books_update, rfl⟩
      simp only [transmit, bind, EStateM.bind, callOn_eq, hresult]
  | ok a =>
      let paths := c.paths.update id (·.setTelemetry
        (S.send c.session packet (c.path id)).telemetry)
      refine .inr ⟨⟨c.scheduler.note (.sent id packet), paths.update id (·.recordSent
        packet.length), (S.send c.session packet (c.path id)).session⟩, ?_,
        events_note c _ _ _, ?_, rfl⟩
      · simp only [transmit, bind, EStateM.bind, callOn_eq, hresult]
        rfl
      · rw [PathSet.books_recordSent, show paths.books = c.paths.books from PathSet.books_update]

/-! ### The books -/

/-- The books have grown by what the journal says was sent. -/
def Entered (c c' : Connection σ) : Prop :=
  ∃ evs, c'.events = c.events ++ evs ∧
    c'.paths.books = c.paths.books.map fun b => (b.1, b.2.entering (sentOn b.1 evs))

theorem Entered.of_unsent (h : Grows (·.isSent = false) c c')
    (hbooks : c'.paths.books = c.paths.books) : Entered c c' := by
  obtain ⟨evs, hevents, hunsent⟩ := h
  refine ⟨evs, hevents, ?_⟩
  simp only [hbooks, sentOn_of_unsent hunsent, SendStatistics.entering_nil, List.map_id']

theorem accrues_entered : Accrues (Entered (σ := σ)) where
  refl c := .of_unsent (.of_eq rfl) rfl
  trans := by
    rintro c c₁ c₂ ⟨evs₁, h₁, hbooks₁⟩ ⟨evs₂, h₂, hbooks₂⟩
    refine ⟨evs₁ ++ evs₂, by rw [h₂, h₁, List.append_assoc], ?_⟩
    rw [hbooks₂, hbooks₁, List.map_map]
    refine List.map_congr_left fun b _ => ?_
    rw [sentOn_append, SendStatistics.entering_append]
    rfl

theorem entered_callOn {α : Type} {call : PacketCall} {id : PathId}
    {operation : σ → Path → Reply σ α} {event : α → Event}
    (h : ∀ a, (event a).isSent = false) : Keeps Entered (callOn call id operation event) := fun c =>
  .of_unsent (grows_callOn (P := (·.isSent = false)) h (fun _ => rfl) c) (callOn_left _ _ _ _ c).1

theorem entered_transmit (id : PathId) (packet : Packet) :
    Keeps Entered (transmit S id packet) := by
  intro c
  rcases transmit_cases (S := S) id packet c with
    ⟨e, c', htransmit, hevents, hbooks, -⟩ | ⟨c', htransmit, hevents, hbooks, -⟩
  · rw [htransmit]
    exact .of_unsent (.one hevents rfl) hbooks
  · rw [htransmit]
    exact ⟨_, hevents, hbooks⟩

theorem entered_takeAck (id : PathId) (now : Instant) :
    Keeps (Entered (σ := σ)) (takeAck id now) := by
  intro c
  rw [takeAck_eq]
  dsimp only
  split
  · exact .of_unsent (.one (events_note c _ _ _) rfl) (PathSet.books_update)
  · exact .of_unsent (.of_eq rfl) (PathSet.books_update)

theorem books_choose (demand : Demand) (c : Connection σ) :
    (left (choose S demand c)).paths.books = c.paths.books := by
  rw [choose_eq]
  dsimp only
  split
  · rfl
  · split <;> rfl

theorem books_finishStream (c : Connection σ) :
    (left (finishStream S c)).paths.books = c.paths.books := by
  revert c
  refine keeps_get_bind (R := fun c c' => c'.paths.books = c.paths.books) fun c => ?_
  dsimp only
  split
  · split <;> rfl
  · rfl

theorem books_endEpisode (e : Error) (c : Connection σ) :
    (left (endEpisodeOnOverflow e c : EStateM.Result Error _ Unit)).paths.books =
      c.paths.books := by
  revert c
  refine keeps_modify (R := fun c c' => c'.paths.books = c.paths.books) fun c => ?_
  split <;> rfl

theorem books_hedge (id : PathId) (packet : Packet) (c : Connection σ) :
    (left (hedge id packet c)).paths.books = c.paths.books := by
  rw [hedge_eq]
  dsimp only [left]
  split
  · exact PathSet.books_update
  · rfl

theorem tame_entered (S : Session σ) : Tame S Entered where
  toAccrues := accrues_entered
  queue _ _ c := .of_unsent (.one (events_note c _ _ _) rfl) rfl
  returnStream _ c := .of_unsent (.one (events_note c _ _ _) rfl) rfl
  schedulePaths c := .of_unsent (.one (events_note c _ _ _) rfl) rfl
  askUpdates _ c := .of_unsent (.one (events_note c _ _ _) rfl) rfl
  takePathControl _ := .of_unsent (.of_eq rfl) rfl
  unblock c := .of_unsent (.one (events_note c _ _ _) rfl) rfl
  pack _ := entered_callOn fun _ => rfl
  packAck _ := entered_callOn fun _ => rfl
  packHandshake _ _ := entered_callOn fun _ => rfl
  transmit := entered_transmit
  ping _ := entered_callOn fun _ => rfl
  announce id force c := .of_unsent (.of_eq rfl) (PathSet.books_update
    (fun p => by unfold Path.stopWaiting; split <;> rfl) (stopWaiting_id force))
  choose demand c :=
    .of_unsent (grows_choose (fun _ => rfl) (fun _ => rfl) demand c) (books_choose demand c)
  finishStream c := .of_unsent (grows_finishStream (fun _ => rfl) c) (books_finishStream c)
  drain c id packet paths h := by
    obtain ⟨-, -, -, -, -, -, -, -, rfl⟩ := PathSet.dequeue?_eq_some h
    exact .of_unsent (grows_drain rfl) PathSet.books_update
  bump _ _ := .of_unsent (.of_eq rfl) rfl
  endEpisode e c := .of_unsent (grows_endEpisode (fun _ => rfl) e c) (books_endEpisode e c)
  hedge id packet c :=
    .of_unsent (grows_hedge (P := (·.isSent = false)) rfl c) (books_hedge id packet c)
  publish _ := .of_unsent (.of_eq rfl) PathSet.books_updateAll

/-! ### The quotas in the rounds -/

/-- Nothing was sent and the session was not asked for window updates, and the quotas are as they
were. -/
def Idles (c c' : Connection σ) : Prop :=
  Grows (·.isIdle = true) c c' ∧ c'.scheduler.quotas = c.scheduler.quotas

theorem accrues_idles : Accrues (Idles (σ := σ)) where
  refl _ := ⟨.of_eq rfl, rfl⟩
  trans h h' := ⟨accrues_grows.trans h.1 h'.1, h'.2.trans h.2⟩

theorem Idles.one {e : Event} (h : c'.events = c.events ++ [e]) (he : e.isIdle = true)
    (hquotas : c'.scheduler.quotas = c.scheduler.quotas) : Idles c c' :=
  ⟨.one h he, hquotas⟩

theorem idles_callOn {α : Type} {call : PacketCall} {id : PathId}
    {operation : σ → Path → Reply σ α} {event : α → Event} (h : ∀ a, (event a).isIdle = true) :
    Keeps Idles (callOn call id operation event) := fun c =>
  ⟨grows_callOn (P := (·.isIdle = true)) h (fun _ => rfl) c, (callOn_left _ _ _ _ c).2⟩

theorem gentle_idles (S : Session σ) : Gentle S Idles where
  toAccrues := accrues_idles
  queue _ _ c := .one (events_note c _ _ _) rfl rfl
  returnStream _ c := .one (events_note c _ _ _) rfl rfl
  schedulePaths c := .one (events_note c _ _ _) rfl rfl
  takePathControl _ := ⟨.of_eq rfl, rfl⟩
  pack _ := idles_callOn fun _ => rfl
  ping _ := idles_callOn fun _ => rfl
  announce _ _ _ := ⟨.of_eq rfl, rfl⟩
  choose demand c := by
    refine ⟨grows_choose (fun _ => rfl) (fun _ => rfl) demand c, ?_⟩
    have hquotas := (c.scheduler.select_still c.paths demand (S.now c.session)).2
    rw [choose_eq]
    dsimp only
    split
    · exact hquotas
    · split <;> exact hquotas
  finishStream := by
    intro c
    refine ⟨grows_finishStream (fun _ => rfl) c, ?_⟩
    revert c
    refine keeps_get_bind (R := fun c c' => c'.scheduler.quotas = c.scheduler.quotas) fun c => ?_
    dsimp only
    split
    · split
      · exact (c.scheduler.endEpisode_still _).2
      · rfl
    · rfl

theorem idles_takeAck (id : PathId) (now : Instant) :
    Keeps (Idles (σ := σ)) (takeAck id now) := by
  intro c
  rw [takeAck_eq]
  dsimp only
  split
  · exact .one (events_note c _ _ _) rfl rfl
  · exact ⟨.of_eq rfl, rfl⟩

theorem idles_takeBack : Keeps Idles (takeBack S) :=
  keeps_get_bind fun c =>
    (gentle_idles S).takeBackUpTo (fun _ _ _ _ _ => ⟨grows_drain rfl, rfl⟩) c.paths.pending {} c

theorem idles_hedge (id : PathId) (packet : Packet) :
    Keeps (Idles (σ := σ)) (hedge id packet) := by
  intro c
  refine ⟨grows_hedge (P := (·.isIdle = true)) rfl c, ?_⟩
  rw [hedge_eq]
  dsimp only [left]
  split <;> rfl

theorem idles_endEpisode (e : Error) : Keeps (Idles (σ := σ)) (endEpisodeOnOverflow e) := by
  intro c
  refine ⟨grows_endEpisode (fun _ => rfl) e c, ?_⟩
  revert c
  refine keeps_modify (R := fun c c' => c'.scheduler.quotas = c.scheduler.quotas) fun c => ?_
  split
  · exact (c.scheduler.endEpisode_still _).2
  · rfl

/-- The session was not asked for window updates, and every quota has grown by the packets that the
packer built and that were sent. -/
def Carries (c c' : Connection σ) : Prop :=
  ∃ evs, c'.events = c.events ++ evs ∧ (∀ e ∈ evs, e.asksUpdates = false) ∧
    (∀ e ∈ evs.head?, e.isSent = false) ∧
    ∀ id, c'.scheduler.quota id = c.scheduler.quota id + (builtFor id evs).length

theorem quota_congr {s s' : Scheduler} (h : s'.quotas = s.quotas) (id : PathId) :
    s'.quota id = s.quota id := congrArg (Tally.count · id) h

theorem Idles.carries (h : Idles c c') : Carries c c' := by
  obtain ⟨⟨evs, hevents, hidle⟩, hquotas⟩ := h
  have hunsent : ∀ e ∈ evs, e.isSent = false := fun e he => (Event.isIdle_iff.mp (hidle e he)).1
  refine ⟨evs, hevents, fun e he => (Event.isIdle_iff.mp (hidle e he)).2,
    fun e he => hunsent e (List.mem_of_mem_head? he), fun id => ?_⟩
  rw [builtFor_of_unsent hunsent, quota_congr hquotas]
  rfl

theorem accrues_carries : Accrues (Carries (σ := σ)) where
  refl c := (accrues_idles.refl c).carries
  trans := by
    rintro c c₁ c₂ ⟨evs₁, h₁, hasks₁, hhead₁, hquota₁⟩ ⟨evs₂, h₂, hasks₂, hhead₂, hquota₂⟩
    refine ⟨evs₁ ++ evs₂, by rw [h₂, h₁, List.append_assoc], fun e he => ?_, fun e he => ?_,
      fun id => ?_⟩
    · rcases List.mem_append.mp he with he | he
      · exact hasks₁ e he
      · exact hasks₂ e he
    · cases evs₁ with
      | nil => exact hhead₂ e he
      | cons e₁ evs₁ => exact hhead₁ e he
    · rw [hquota₂, hquota₁, builtFor_append hhead₂, List.length_append, Nat.add_assoc]

theorem Keeps.carries {α : Type} {x : Act σ α} (h : Keeps Idles x) : Keeps Carries x :=
  h.mono Idles.carries

theorem callOn_cases {α : Type} (call : PacketCall) (id : PathId)
    (operation : σ → Path → Reply σ α) (event : α → Event) (c : Connection σ) :
    (∃ e c', callOn call id operation event c = .error e c' ∧ Idles c c') ∨
      ∃ a c', callOn call id operation event c = .ok a c' ∧ c'.events = c.events ++ [event a] ∧
        c'.scheduler.quotas = c.scheduler.quotas := by
  rw [callOn_eq]
  dsimp only
  cases (operation c.session (c.path id)).result with
  | error e => exact .inl ⟨e, _, rfl, .one (events_note c (.failed call id e) _ _) rfl rfl⟩
  | ok a => exact .inr ⟨a, _, rfl, events_note c (event a) _ _, rfl⟩

theorem carries_pair {built e : Event} (h : c'.events = c.events ++ [built, e])
    (hbuilt : built.isIdle = true) (he : e.asksUpdates = false) (hquota : ∀ id,
      c'.scheduler.quota id = c.scheduler.quota id + (handedOn id built (some e)).toList.length) :
    Carries c c' := by
  obtain ⟨hunsent, hasks⟩ := Event.isIdle_iff.mp hbuilt
  refine ⟨[built, e], h, ?_, ?_, fun id => ?_⟩
  · simp [hasks, he]
  · simp [hunsent]
  · rw [hquota, builtFor, builtFor, builtFor, handedOn_of_unsent (e := e) (by simp)]
    simp

/-- A handshake packet that is sent again is not counted. -/
theorem carries_resendHandshake (id : PathId) (lost : Packet) :
    Keeps Carries (resendHandshake S id lost) := by
  refine keeps_bind accrues_carries ((gentle_idles S).queueStopWaiting id true).carries fun _ => ?_
  intro c
  rcases callOn_cases .packHandshake id (S.packHandshake · lost ·) (.packedHandshake id lost) c with
    ⟨e, c₁, hpack, hidles⟩ | ⟨packet, c₁, hpack, hevents₁, hquotas₁⟩
  · have hpack : packHandshake S id lost c = .error e c₁ := hpack
    rw [bind_of_error hpack]
    exact hidles.carries
  · have hpack : packHandshake S id lost c = .ok packet c₁ := hpack
    rw [bind_of_ok hpack]
    rcases transmit_cases (S := S) id packet c₁ with
      ⟨e, c₂, htransmit, hevents₂, -, hquotas₂⟩ | ⟨c₂, htransmit, hevents₂, -, hquotas₂⟩ <;>
    · rw [htransmit]
      refine carries_pair (by rw [left, hevents₂, hevents₁, List.append_assoc]; rfl) rfl rfl
        fun j => ?_
      rw [left, quota_congr (hquotas₂.trans hquotas₁)]
      rfl

/-- What follows on a packet that was sent counts it; otherwise it is idle.  The quota is raised
after the window updates are queued, which makes no difference. -/
theorem idles_afterTransmit (updates : List WindowUpdate) (id : PathId) (packet : Packet)
    (c : Connection σ) :
    Idles { c with scheduler := c.scheduler.bumpQuota id } (left ((do
      queueUpdates S (some id) updates
      modify fun c => { c with scheduler := c.scheduler.bumpQuota id }
      packet.finishedStreams.forM fun _ => finishStream S
      return some packet : Act σ (Option Packet)) c)) := by
  obtain ⟨c₁, hupdates⟩ := queueUpdates_total (S := S) (some id) updates c
  obtain ⟨hgrows, hquotas⟩ := ((gentle_idles S).queueUpdates (some id) updates).ok hupdates
  have hqueued : Idles { c with scheduler := c.scheduler.bumpQuota id }
      { c₁ with scheduler := c₁.scheduler.bumpQuota id } :=
    ⟨hgrows, congrArg (Tally.bump · id) hquotas⟩
  rw [bind_of_ok hupdates]
  refine accrues_idles.trans hqueued ?_
  exact keeps_bind accrues_idles
    (keeps_forM accrues_idles fun _ _ => (gentle_idles S).finishStream)
    (fun _ => keeps_pure accrues_idles _) _

/-- A packet that the packer built is counted once it is sent. -/
theorem carries_built {id : PathId} {packet : Packet} (updates : List WindowUpdate)
    (hevents₁ : c₁.events = c.events ++ [.packed id (some packet)])
    (hquotas₁ : c₁.scheduler.quotas = c.scheduler.quotas) :
    Carries c (left (passOn S updates id (some packet) c₁)) := by
  rcases transmit_cases (S := S) id packet c₁ with
    ⟨e, c₂, htransmit, hevents₂, -, hquotas₂⟩ | ⟨c₂, htransmit, hevents₂, -, hquotas₂⟩
  · have hfails : passOn S updates id (some packet) c₁ = .error e c₂ := bind_of_error htransmit
    rw [hfails]
    refine carries_pair (by rw [left, hevents₂, hevents₁, List.append_assoc]; rfl) rfl rfl
      fun j => ?_
    rw [left, quota_congr (hquotas₂.trans hquotas₁)]
    rfl
  · have hsent : Carries c { c₂ with scheduler := c₂.scheduler.bumpQuota id } := by
      refine carries_pair (e := .sent id packet) (show c₂.events = _ by
        rw [hevents₂, hevents₁, List.append_assoc]; rfl) rfl rfl fun j => ?_
      rw [Scheduler.quota_bumpQuota, bumped, quota_congr (hquotas₂.trans hquotas₁),
        quota_congr (hquotas₂.trans hquotas₁), handedOn]
      by_cases hj : j = id
      · simp [hj]
      · simp [hj, Ne.symm hj]
    have hpasses : passOn S updates id (some packet) c₁ = _ := bind_of_ok htransmit
    rw [hpasses]
    exact accrues_carries.trans hsent (idles_afterTransmit updates id packet c₂).carries

theorem idles_signOfLife (id : PathId) : Keeps Idles (signOfLife S id) := by
  refine keeps_get_bind fun c => ?_
  split
  · exact (gentle_idles S).queue _ _ c
  · exact accrues_idles.refl c

theorem carries_sendNext (updates : List WindowUpdate) (id : PathId) :
    Keeps Carries (sendNext S updates id) := by
  intro c
  rw [sendNext_eq]
  refine keeps_bind accrues_carries (idles_signOfLife id).carries (fun _ c => ?_) c
  rcases callOn_cases .pack id S.pack (.packed id) c with
    ⟨e, c₁, hpack, hidles⟩ | ⟨built, c₁, hpack, hevents₁, hquotas₁⟩
  · have hpack : pack S id c = .error e c₁ := hpack
    rw [bind_of_error hpack]
    exact hidles.carries
  · have hpack : pack S id c = .ok built c₁ := hpack
    rw [bind_of_ok hpack]
    cases built with
    | none => exact (Idles.one hevents₁ rfl hquotas₁).carries
    | some packet => exact carries_built updates hevents₁ hquotas₁

/-! ### The flush -/

/-- The journal has grown, and the quotas are as they were. -/
def Stays (c c' : Connection σ) : Prop :=
  Grows (fun _ => True) c c' ∧ c'.scheduler.quotas = c.scheduler.quotas

theorem accrues_stays : Accrues (Stays (σ := σ)) where
  refl _ := ⟨.of_eq rfl, rfl⟩
  trans h h' := ⟨accrues_grows.trans h.1 h'.1, h'.2.trans h.2⟩

theorem Idles.stays (h : Idles c c') : Stays c c' := ⟨h.1.mono fun _ _ => trivial, h.2⟩

/-- What sends no packet of the packer's choice leaves the quotas alone. -/
theorem calm_stays (S : Session σ) : Calm S Stays where
  toGentle := (gentle_idles S).mono accrues_stays Idles.stays
  askUpdates _ c := ⟨.one (events_note c _ _ _) trivial, rfl⟩
  unblock c := ⟨.one (events_note c _ _ _) trivial, rfl⟩
  packAck _ := (idles_callOn fun _ => rfl).mono Idles.stays
  transmit id packet c := by
    rcases transmit_cases (S := S) id packet c with
      ⟨e, c', htransmit, hevents, -, hquotas⟩ | ⟨c', htransmit, hevents, -, hquotas⟩ <;>
    · rw [htransmit]
      exact ⟨.one hevents trivial, hquotas⟩

/-- The session was asked for window updates first, and the quotas are as they were. -/
def Closes (c c' : Connection σ) : Prop :=
  ∃ force updates evs, c'.events = c.events ++ .updatesAsked force updates :: evs ∧
    c'.scheduler.quotas = c.scheduler.quotas

theorem closes_askUpdates {α : Type} (force : Bool) {f : List WindowUpdate → Act σ α}
    (hf : ∀ updates, Keeps Stays (f updates)) : Keeps Closes (askUpdates S force >>= f) := by
  intro c
  rw [bind_of_ok (askUpdates_eq force c)]
  obtain ⟨⟨evs, hevents, -⟩, hquotas⟩ := hf (S.windowUpdates c.session force).1
    ⟨c.scheduler.note (.updatesAsked force (S.windowUpdates c.session force).1), c.paths,
      (S.windowUpdates c.session force).2⟩
  refine ⟨force, (S.windowUpdates c.session force).1, evs, ?_, hquotas⟩
  rw [hevents, events_note, List.append_assoc]
  rfl

theorem stays_takeAck (id : PathId) (now : Instant) :
    Keeps (Stays (σ := σ)) (takeAck id now) := (idles_takeAck id now).mono Idles.stays

theorem closes_flush : Keeps Closes (flush S []) :=
  keeps_get_bind fun c => closes_askUpdates _ ((calm_stays S).flushPaths stays_takeAck) c

/-! ### Runs -/

/-- The rounds carry packets, and after that there may be a flush. -/
def Concludes (c c' : Connection σ) : Prop :=
  ∃ c₁, Carries c c₁ ∧ (c' = c₁ ∨ Closes c₁ c')

theorem Carries.concludes (h : Carries c c') : Concludes c c' := ⟨c', h, .inl rfl⟩

theorem Closes.concludes (h : Closes c c') : Concludes c c' := ⟨c, accrues_carries.refl c, .inr h⟩

theorem Carries.trans_concludes (h : Carries c c₁) (h' : Concludes c₁ c') : Concludes c c' := by
  obtain ⟨c₂, hcarries, hend⟩ := h'
  exact ⟨c₂, accrues_carries.trans h hcarries, hend⟩

theorem concludes_bind {α β : Type} {x : Act σ α} {f : α → Act σ β} (hx : Keeps Carries x)
    (hf : ∀ a, Keeps Concludes (f a)) : Keeps Concludes (x >>= f) := by
  intro c
  have hxc := hx c
  cases h : x c with
  | ok a c₁ =>
      rw [bind_of_ok h]
      exact (hx.ok h).trans_concludes (hf a c₁)
  | error e c₁ =>
      rw [bind_of_error h]
      rw [h] at hxc
      exact hxc.concludes

theorem Keeps.concludes_pure {α β : Type} {x : Act σ α} (h : Keeps Closes x) (b : β) :
    Keeps Concludes (do let _ ← x; return b) := by
  intro c
  have hxc := h c
  cases hx : x c with
  | ok a c₁ =>
      rw [bind_of_ok hx]
      exact (h.ok hx).concludes
  | error e c₁ =>
      rw [bind_of_error hx]
      rw [hx] at hxc
      exact hxc.concludes

theorem concludes_round (updates : List WindowUpdate) :
    Keeps Concludes (sendRound S updates) := by
  have hpure : ∀ answer, Keeps Concludes (pure answer : Act σ (Option (List WindowUpdate))) :=
    fun answer c => (accrues_carries.refl c).concludes
  refine concludes_bind idles_takeBack.carries fun recovery => keeps_get_bind fun c =>
    concludes_bind ((gentle_idles S).choose _).carries (fun chosen => ?_) c
  cases chosen with
  | none =>
      intro c
      refine Closes.concludes (closes_askUpdates false (fun due => ?_) c)
      exact keeps_bind accrues_stays ((calm_stays S).flush stays_takeAck due) fun _ =>
        keeps_pure accrues_stays _
  | some id =>
      cases recovery.handshake with
      | some lost => exact concludes_bind (carries_resendHandshake id lost) fun _ => hpure _
      | none =>
          refine concludes_bind ((gentle_idles S).attachControl idles_takeAck id _).carries fun _ =>
            concludes_bind (keeps_onError accrues_carries (carries_sendNext updates id) fun e =>
              (idles_endEpisode e).carries) fun sent => ?_
          cases sent with
          | none => exact closes_flush.concludes_pure _
          | some packet =>
              exact concludes_bind (idles_hedge id packet).carries fun _ =>
                concludes_bind ((gentle_idles S).probe recovery.origin).carries fun _ => hpure _

/-- A round that is followed by another one does not flush. -/
theorem carries_round {updates updates' : List WindowUpdate}
    (h : sendRound S updates c = .ok (some updates') c') : Carries c c' := by
  obtain ⟨recovery, c₁, chosen, c₂, hback, hchoose, hproceeds⟩ := round_ok h
  have hback := idles_takeBack.carries.ok hback
  have hchoose := ((gentle_idles S).choose _).carries.ok hchoose
  refine accrues_carries.trans hback (accrues_carries.trans hchoose ?_)
  cases hproceeds with
  | resend _ hresend => exact (carries_resendHandshake _ _).ok hresend
  | carry _ hattach hsend hhedge hprobe =>
      have hattach := ((gentle_idles S).attachControl idles_takeAck _ _).carries.ok hattach
      have hsend := (carries_sendNext _ _).ok hsend
      have hhedge := (idles_hedge _ _).carries.ok hhedge
      have hprobe := ((gentle_idles S).probe _).carries.ok hprobe
      exact accrues_carries.trans hattach (accrues_carries.trans hsend
        (accrues_carries.trans hhedge hprobe))

theorem concludes_rounds (n : Nat) (updates : List WindowUpdate) :
    Keeps Concludes (sendRounds S n updates) := by
  induction n generalizing updates with
  | zero => exact fun c => (accrues_carries.refl c).concludes
  | succ n ih =>
      intro c
      have hround := concludes_round (S := S) updates c
      cases h : sendRound S updates c with
      | error e c₁ =>
          rw [h] at hround
          rw [sendRounds, bind_of_error h]
          exact hround
      | ok answer c₁ =>
          rw [h] at hround
          cases answer with
          | none =>
              rw [sendRounds_of_stop h]
              exact hround
          | some updates' =>
              rw [sendRounds_of_continue h]
              exact (carries_round h).trans_concludes (ih updates' c₁)

/-- The opening of a run enters what it queues, and leaves the quotas alone. -/
theorem opening_events {P : Event → Prop} (hP : ∀ frame, P (.queued none frame))
    {updates : List WindowUpdate} (h : opening S c = .ok updates c') :
    ∃ evs, c'.events = c.events ++ .updatesAsked false updates :: evs ∧ (∀ e ∈ evs, P e) ∧
      c'.scheduler.quotas = c.scheduler.quotas := by
  have hstays := ((calm_stays S).toFlushes.opening fun _ => ⟨.of_eq rfl, rfl⟩).ok h
  refine ⟨_, (events_opening h).2, fun e he => ?_, hstays.2⟩
  obtain ⟨f, -, rfl⟩ := List.mem_map.mp he
  exact hP _

/-- The quotas follow what the rounds of a run entered into the journal. -/
theorem quota_send {n : Nat} {evs : List Event}
    (h : (left (send S n c)).events = c.events ++ evs) (id : PathId) :
    (left (send S n c)).scheduler.quota id =
      c.scheduler.quota id + (builtFor id (inRounds evs)).length := by
  obtain ⟨updates, c₁, hopening, hsend⟩ := send_eq S c
  obtain ⟨opened, hopened, hidle, hquotas₁⟩ :=
    opening_events (P := (·.isIdle = true)) (fun _ => rfl) hopening
  have hconcludes := concludes_rounds (S := S) n updates c₁
  rw [hsend] at h ⊢
  obtain ⟨c₂, ⟨rounds, hrounds, hasks, hhead, hquota₂⟩, hend⟩ := hconcludes
  obtain ⟨flushed, hflushed, hstarts, hquotas₃⟩ : ∃ flushed,
      (left (sendRounds S n updates c₁)).events = c₂.events ++ flushed ∧
        (∀ e ∈ flushed.head?, e.asksUpdates = true) ∧
        (left (sendRounds S n updates c₁)).scheduler.quotas = c₂.scheduler.quotas := by
    rcases hend with heq | ⟨force, due, flushed, hflushed, hquotas₃⟩
    · exact ⟨[], by rw [heq, List.append_nil], by simp, by rw [heq]⟩
    · exact ⟨_, hflushed, by simp [Event.asksUpdates], hquotas₃⟩
  obtain rfl : evs = .updatesAsked false updates :: ((opened ++ rounds) ++ flushed) := by
    refine List.append_cancel_left (h.symm.trans ?_)
    simp [hflushed, hrounds, hopened]
  have hidle : ∀ e ∈ opened, e.isSent = false ∧ e.asksUpdates = false := fun e he =>
    Event.isIdle_iff.mp (hidle e he)
  have hbefore : ∀ e ∈ opened ++ rounds, e.asksUpdates = false := by
    intro e he
    rcases List.mem_append.mp he with he | he
    · exact (hidle e he).2
    · exact hasks e he
  rw [inRounds_of_split hbefore hstarts, builtFor_append hhead,
    builtFor_of_unsent fun e he => (hidle e he).1, quota_congr hquotas₃, hquota₂,
    quota_congr hquotas₁]
  rfl

end Connection

end Multipath
