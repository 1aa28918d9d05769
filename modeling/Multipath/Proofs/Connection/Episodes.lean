import Mathlib.Data.List.Flatten
import Multipath.Proofs.Connection.Overflows
import Multipath.Proofs.Session.LastPieces

/-!
# Episodes that end with their streams

In training the episode is closed whenever a packet of the packer's choice was sent that carries the
last piece of a stream.  A copy of such a packet brings the piece back, and so does a loss.  Then it
goes out in another packet, and the episode is closed a second time for the same stream.

* `closed`, `passed`, `restored`: the last pieces in packets that close the episode, in packets
  that do not, and those that come back to the session.
* `Balanced`: as many episodes end as last pieces are in packets of the packer's choice.
* `Settles`: what the session hands out, and what it is given, makes up for what it has.
* `episodes_close`: how often the episode is closed in a run that ends well, and for which streams.
-/

namespace Multipath

namespace Event

/-- The agent is told that the episode is over. -/
def endsEpisode : Event → Bool
  | .agent (.endEpisode ..) => true
  | _ => false

/-- The streams whose last pieces are in a packet of the packer's choice. -/
def closes : Event → List StreamId
  | .packed _ built => Packet.pieces? built
  | _ => []

/-- The streams whose last pieces are in any other packet. -/
def passes : Event → List StreamId
  | .packedHandshake _ _ packet => packet.finishedStreams
  | .packedAck _ packet => packet.finishedStreams
  | _ => []

/-- The streams whose last pieces the session is given. -/
def restores : Event → List StreamId
  | .streamReturned frame => (Frame.stream frame).finished?.toList
  | .queued _ frame => frame.finished?.toList
  | .packedHandshake _ lost _ => lost.finishedStreams
  | _ => []

/-- No episode ends, no packet of the packer's choice holds a last piece, and the session is not
asked for window updates. -/
structure Silent (e : Event) : Prop where
  asks : e.asksUpdates = false
  ends : e.endsEpisode = false
  closes : e.closes = []

end Event

/-- What the flush of a run entered. -/
def inFlush (evs : List Event) : List Event := (evs.drop 1).dropWhile (!·.asksUpdates)

/-- The streams for which a run closes the episode. -/
def closed (evs : List Event) : List StreamId := (inRounds evs).flatMap Event.closes

/-- The streams whose last pieces go out in a run without closing the episode: in a handshake packet
or in the flush. -/
def passed (evs : List Event) : List StreamId :=
  (inRounds evs).flatMap Event.passes ++ (inFlush evs).flatMap fun e => e.closes ++ e.passes

/-- The streams whose last pieces come back to the session in a run. -/
def restored (evs : List Event) : List StreamId := evs.flatMap Event.restores

/-- As many episodes end as last pieces are in packets of the packer's choice, and the session is
not asked for window updates. -/
structure Balanced (evs : List Event) : Prop where
  asks : ∀ e ∈ evs, e.asksUpdates = false
  ends : evs.countP (·.endsEpisode) = (evs.flatMap Event.closes).length

section Journals

variable {evs xs ys : List Event}

theorem ends_of_silent (h : ∀ e ∈ evs, e.endsEpisode = false) :
    evs.countP (·.endsEpisode) = 0 :=
  List.countP_eq_zero.mpr fun e he => by simp [h e he]

theorem closes_of_silent (h : ∀ e ∈ evs, e.closes = []) : evs.flatMap Event.closes = [] :=
  List.flatMap_eq_nil_iff.mpr h

theorem Balanced.of_silent (h : ∀ e ∈ evs, e.Silent) : Balanced evs where
  asks e he := (h e he).asks
  ends := by
    rw [ends_of_silent fun e he => (h e he).ends, closes_of_silent fun e he => (h e he).closes]
    rfl

theorem Balanced.append (hx : Balanced xs) (hy : Balanced ys) : Balanced (xs ++ ys) where
  asks e he := (List.mem_append.mp he).elim (hx.asks e) (hy.asks e)
  ends := by
    rw [List.countP_append, List.flatMap_append, List.length_append, hx.ends, hy.ends]

/-- The last pieces of a run in parts: those in packets that close the episode, and the others. -/
theorem closed_passed_perm {force : Bool} {updates : List WindowUpdate} :
    (closed (.updatesAsked force updates :: evs) ++
      passed (.updatesAsked force updates :: evs)).Perm
        ((.updatesAsked force updates :: evs).flatMap fun e => e.closes ++ e.passes) := by
  have hsplit : evs = inRounds (.updatesAsked force updates :: evs) ++
      inFlush (.updatesAsked force updates :: evs) := List.takeWhile_append_dropWhile.symm
  have hrounds := (List.flatMap_append_perm (inRounds (.updatesAsked force updates :: evs))
    Event.closes Event.passes).append_right
      ((inFlush (.updatesAsked force updates :: evs)).flatMap fun e => e.closes ++ e.passes)
  rw [← List.flatMap_append, ← hsplit, List.append_assoc] at hrounds
  exact hrounds

end Journals

namespace Scheduler

variable {s : Scheduler}

/-- The journal has grown by calls to the agent that tell it of no end. -/
def Asks (s s' : Scheduler) : Prop :=
  ∃ calls : List AgentCall, s'.journal.toList = s.journal.toList ++ calls.map .agent ∧
    ∀ call ∈ calls, (Event.agent call).endsEpisode = false

theorem Asks.of_eq {s s' : Scheduler} (h : s'.journal = s.journal) : Asks s s' :=
  ⟨[], by simp [h], by simp⟩

theorem asks_consult (s : Scheduler) (agent : Agent) (o : Observation) :
    Asks s (s.consult agent o).2 := by
  simp only [consult]
  generalize agent.policy s.journal.agentCalls o.state = action
  split
  · exact ⟨[.select o.state action, .outcome s.connection o.reward o.state action],
      by simp [note], by simp [Event.endsEpisode]⟩
  · exact ⟨[.select o.state action], by simp [note], by simp [Event.endsEpisode]⟩

/-- Only a selection that fails tells the agent of an end. -/
theorem asks_select {paths : PathSet} {demand : Demand} {now : Instant} {chosen : Option PathId}
    (h : (s.select paths demand now).1 = .ok chosen) : Asks s (s.select paths demand now).2 := by
  have hselects := s.selects_select paths demand now
  generalize s.select paths demand now = result at hselects h ⊢
  cases hselects with
  | settled chosen => exact .of_eq rfl
  | drawn chosen draws => exact .of_eq rfl
  | asked agent o => exact s.asks_consult agent o
  | stopped reason => cases h

end Scheduler

namespace Connection

variable {σ : Type} {S : Session σ} {c c₁ c' : Connection σ} {updates updates' : List WindowUpdate}

/-! ### Silent steps -/

theorem mild_silent (S : Session σ) : Mild S (Grows Event.Silent) where
  toAccrues := accrues_grows
  queue _ _ c := .one (events_note c _ _ _) ⟨rfl, rfl, rfl⟩
  returnStream _ c := .one (events_note c _ _ _) ⟨rfl, rfl, rfl⟩
  schedulePaths c := .one (events_note c _ _ _) ⟨rfl, rfl, rfl⟩
  takePathControl _ := .of_eq rfl
  ping _ := grows_callOn (fun _ => ⟨rfl, rfl, rfl⟩) fun _ => ⟨rfl, rfl, rfl⟩
  announce _ _ _ := .of_eq rfl

theorem silent_takeAck (id : PathId) (now : Instant) :
    Keeps (Grows (σ := σ) Event.Silent) (takeAck id now) :=
  grows_takeAck (fun _ _ => ⟨rfl, rfl, rfl⟩) id now

theorem silent_takeBack : Keeps (Grows Event.Silent) (takeBack S) :=
  keeps_get_bind fun c => (mild_silent S).takeBackUpTo
    (fun _ _ _ _ _ => grows_drain ⟨rfl, rfl, rfl⟩) c.paths.pending {} c

theorem silent_choose {demand : Demand} {chosen : Option PathId}
    (h : choose S demand c = .ok chosen c') : Grows Event.Silent c c' := by
  obtain ⟨hselect, rfl⟩ := choose_ok h
  obtain ⟨calls, hcalls, hends⟩ := Scheduler.asks_select hselect
  refine ⟨calls.map .agent, hcalls, fun e he => ?_⟩
  obtain ⟨call, hcall, rfl⟩ := List.mem_map.mp he
  exact ⟨rfl, hends call hcall, rfl⟩

theorem silent_transmit (id : PathId) (packet : Packet) :
    Keeps (Grows Event.Silent) (transmit S id packet) :=
  keeps_bind accrues_grows (grows_callOn (fun _ => ⟨rfl, rfl, rfl⟩) fun _ => ⟨rfl, rfl, rfl⟩)
    fun _ => keeps_modify fun _ => .of_eq rfl

theorem silent_resendHandshake {id : PathId} {lost : Packet}
    (h : resendHandshake S id lost c = .ok () c') : Grows Event.Silent c c' := by
  obtain ⟨packet, c₁, c₂, hstop, hpack, hsend⟩ := resendHandshake_ok h
  have hstop := ((mild_silent S).queueStopWaiting id true).ok hstop
  have hpack : Grows Event.Silent c₁ c₂ := .one (callOn_ok hpack).2.2.1 ⟨rfl, rfl, rfl⟩
  exact accrues_grows.trans hstop (accrues_grows.trans hpack ((silent_transmit id packet).ok hsend))

/-! ### Episodes end with last pieces -/

/-- The journal has grown by as many ends of episodes as last pieces in packets of the packer's
choice. -/
def Balances (c c' : Connection σ) : Prop :=
  ∃ evs, c'.events = c.events ++ evs ∧ Balanced evs

theorem accrues_balances : Accrues (Balances (σ := σ)) where
  refl c := ⟨[], (List.append_nil _).symm, .of_silent (by simp)⟩
  trans := by
    rintro c c₁ c₂ ⟨evs₁, h₁, hbalanced₁⟩ ⟨evs₂, h₂, hbalanced₂⟩
    exact ⟨evs₁ ++ evs₂, by rw [h₂, h₁, List.append_assoc], hbalanced₁.append hbalanced₂⟩

theorem Balances.of_silent (h : Grows Event.Silent c c') : Balances c c' := by
  obtain ⟨evs, hevents, hsilent⟩ := h
  exact ⟨evs, hevents, .of_silent hsilent⟩

/-- In training a stream that is finished ends the episode. -/
theorem finishStream_event (htrains : c.scheduler.Trains) (h : finishStream S c = .ok () c') :
    (∃ connection reward,
      c'.events = c.events ++ [.agent (.endEpisode connection reward false)]) ∧
      c'.scheduler.Trains := by
  rw [finishStream, get_bind] at h
  dsimp only at h
  rw [if_pos htrains.learning, if_pos htrains.training, htrains.endEpisode_eq] at h
  cases h
  exact ⟨⟨_, _, events_note c _ _ _⟩, htrains.learning, htrains.training, htrains.agent⟩

theorem finishStreams_events {streams : List StreamId} (htrains : c.scheduler.Trains)
    (h : streams.forM (fun _ => finishStream S) c = .ok () c') :
    ∃ ends, c'.events = c.events ++ ends ∧ ends.length = streams.length ∧
      ∀ e ∈ ends, ∃ connection reward, e = .agent (.endEpisode connection reward false) := by
  induction streams generalizing c with
  | nil =>
      obtain ⟨-, rfl⟩ := pure_ok h
      exact ⟨[], by simp, rfl, by simp⟩
  | cons stream streams ih =>
      obtain ⟨⟨⟩, c₁, hfinish, h⟩ := bind_ok h
      obtain ⟨⟨connection, reward, hevents⟩, htrains₁⟩ := finishStream_event htrains hfinish
      obtain ⟨ends, hevents', hlength, hends⟩ := ih htrains₁ h
      refine ⟨.agent (.endEpisode connection reward false) :: ends, ?_, by simp [hlength], ?_⟩
      · rw [hevents', hevents, List.append_assoc]
        rfl
      · rintro e he
        rcases List.mem_cons.mp he with rfl | he
        · exact ⟨connection, reward, rfl⟩
        · exact hends e he

/-- A packet of the packer's choice, what is queued after it, and an end for each last piece. -/
theorem balanced_packet {id : PathId} {packet : Packet} {after ends : List Event}
    (hafter : ∀ e ∈ after, e.Silent) (hlength : ends.length = packet.finishedStreams.length)
    (hends : ∀ e ∈ ends, ∃ connection reward, e = .agent (.endEpisode connection reward false)) :
    Balanced (.packed id (some packet) :: (after ++ ends)) := by
  have hasks : ∀ e ∈ ends, e.asksUpdates = false ∧ e.endsEpisode = true ∧ e.closes = [] := by
    intro e he
    obtain ⟨connection, reward, rfl⟩ := hends e he
    exact ⟨rfl, rfl, rfl⟩
  refine ⟨fun e he => ?_, ?_⟩
  · rcases List.mem_cons.mp he with rfl | he
    · rfl
    · exact (List.mem_append.mp he).elim (fun he => (hafter e he).asks) fun he => (hasks e he).1
  · rw [List.countP_cons_of_neg (by simp [Event.endsEpisode]), List.countP_append,
      ends_of_silent fun e he => (hafter e he).ends,
      List.countP_eq_length.mpr fun e he => (hasks e he).2.1, List.flatMap_cons,
      List.flatMap_append, closes_of_silent fun e he => (hafter e he).closes,
      closes_of_silent fun e he => (hasks e he).2.2, Nat.zero_add, hlength]
    simp [Event.closes, Packet.pieces?]

theorem balances_sendNext {id : PathId} {answer : Option Packet} (htrains : c.scheduler.Trains)
    (h : sendNext S updates id c = .ok answer c') : Balances c c' := by
  have htame := tame_sameTask S
  obtain ⟨c₁, c₂, hdue, hpack, hrest⟩ := sendNext_cases h
  obtain ⟨hsign, htask₁⟩ : Grows Event.Silent c c₁ ∧ SameTask c c₁ := by
    rcases hdue with ⟨-, rfl⟩ | ⟨-, hqueue⟩
    · exact ⟨.of_eq rfl, htame.refl c₁⟩
    · exact ⟨((mild_silent S).queue _ _).ok hqueue, (htame.queue _ _).ok hqueue⟩
  refine accrues_balances.trans (.of_silent hsign) ?_
  have hbuilt := (callOn_ok hpack).2.2.1
  rcases hrest with ⟨rfl, rfl⟩ | ⟨packet, c₃, c₄, rfl, hsend, hupdates, hfinish⟩
  · exact .of_silent (.one hbuilt ⟨rfl, rfl, rfl⟩)
  · have htask : SameTask c c₄ := htame.trans htask₁ (htame.trans ((htame.pack id).ok hpack)
      (htame.trans ((htame.transmit id packet).ok hsend)
        ((htame.queueUpdates (some id) updates).ok hupdates)))
    obtain ⟨after, hafter, hsilent⟩ := accrues_grows.trans ((silent_transmit id packet).ok hsend)
      (((mild_silent S).queueUpdates (some id) updates).ok hupdates)
    have hbumped : (c₄.scheduler.bumpQuota id).Trains :=
      ⟨(htask.trains htrains).learning, (htask.trains htrains).training,
        (htask.trains htrains).agent⟩
    obtain ⟨ends, hendsEvents, hlength, hends⟩ := finishStreams_events hbumped hfinish
    refine ⟨.packed id (some packet) :: (after ++ ends), ?_,
      balanced_packet hsilent hlength hends⟩
    have hc₄ : events { c₄ with scheduler := c₄.scheduler.bumpQuota id } = c₄.events := rfl
    rw [hendsEvents, hc₄, hafter, hbuilt]
    simp

/-! ### Rounds and runs -/

theorem flushes_unended (S : Session σ) : Flushes S (Grows (·.endsEpisode = false)) where
  toAccrues := accrues_grows
  queue _ _ c := .one (events_note c _ _ _) rfl
  returnStream _ c := .one (events_note c _ _ _) rfl
  schedulePaths c := .one (events_note c _ _ _) rfl
  takePathControl _ := .of_eq rfl
  ping _ := grows_callOn (fun _ => rfl) fun _ => rfl
  announce _ _ _ := .of_eq rfl
  pack _ := grows_callOn (fun _ => rfl) fun _ => rfl
  askUpdates _ c := .one (events_note c _ _ _) rfl
  unblock c := .one (events_note c _ _ _) rfl
  packAck _ := grows_callOn (fun _ => rfl) fun _ => rfl
  transmit id packet c := ((silent_transmit id packet) c).mono fun _ h => h.ends

theorem unended_takeAck (id : PathId) (now : Instant) :
    Keeps (Grows (σ := σ) (·.endsEpisode = false)) (takeAck id now) := fun c =>
  (silent_takeAck id now c).mono fun _ h => h.ends

/-- The session was asked for window updates first, and no episode ended. -/
def Hushes (c c' : Connection σ) : Prop :=
  ∃ force updates evs, c'.events = c.events ++ .updatesAsked force updates :: evs ∧
    ∀ e ∈ evs, e.endsEpisode = false

theorem hushes_askUpdates {α : Type} (force : Bool) {f : List WindowUpdate → Act σ α}
    (hf : ∀ updates, Keeps (Grows (·.endsEpisode = false)) (f updates)) :
    Keeps Hushes (askUpdates S force >>= f) := by
  intro c
  rw [bind_of_ok (askUpdates_eq force c)]
  obtain ⟨evs, hevents, hends⟩ := hf (S.windowUpdates c.session force).1
    ⟨c.scheduler.note (.updatesAsked force (S.windowUpdates c.session force).1), c.paths,
      (S.windowUpdates c.session force).2⟩
  refine ⟨force, (S.windowUpdates c.session force).1, evs, ?_, hends⟩
  rw [hevents, events_note, List.append_assoc]
  rfl

theorem hushes_flush : Keeps Hushes (flush S []) :=
  keeps_get_bind fun c => hushes_askUpdates _ ((flushes_unended S).flushPaths unended_takeAck) c

/-- What precedes the proceedings of a round is silent, and leaves the scheduler's task alone. -/
theorem round_prepares {recovery : Recovery} {chosen : Option PathId} {demand : Demand}
    {c₂ : Connection σ} (htrains : c.scheduler.Trains) (hback : takeBack S c = .ok recovery c₁)
    (hchoose : choose S demand c₁ = .ok chosen c₂) :
    Grows Event.Silent c c₂ ∧ c₂.scheduler.Trains := by
  have htask : SameTask c c₂ := accrues_sameTask.trans ((tame_sameTask S).takeBack.ok hback)
    (((tame_sameTask S).choose demand).ok hchoose)
  exact ⟨accrues_grows.trans (silent_takeBack.ok hback) (silent_choose hchoose),
    htask.trains htrains⟩

theorem trains_attachControl {id : PathId} {hasReturnedStreams : Bool}
    (htrains : c.scheduler.Trains) (h : attachControl S id hasReturnedStreams c = .ok () c') :
    c'.scheduler.Trains :=
  (((tame_sameTask S).attachControl sameTask_takeAck id hasReturnedStreams).ok h).trains htrains

/-- A round after which the run goes on. -/
theorem balances_round (htrains : c.scheduler.Trains)
    (h : sendRound S updates c = .ok (some updates') c') : Balances c c' := by
  obtain ⟨recovery, c₁, chosen, c₂, hback, hchoose, hproceeds⟩ := round_ok h
  obtain ⟨hprepares, htrains₂⟩ := round_prepares htrains hback hchoose
  refine accrues_balances.trans (.of_silent hprepares) ?_
  cases hproceeds with
  | resend _ hresend => exact .of_silent (silent_resendHandshake hresend)
  | @carry id packet c₃ c₄ c₅ _ _ hattach hsend hhedge hprobe =>
      have hsent := balances_sendNext (trains_attachControl htrains₂ hattach) hsend
      have hattach := ((mild_silent S).attachControl silent_takeAck id _).ok hattach
      have hhedge := (grows_hedge (P := Event.Silent) ⟨rfl, rfl, rfl⟩).ok hhedge
      have hprobe := ((mild_silent S).probe _).ok hprobe
      exact accrues_balances.trans (.of_silent hattach) (accrues_balances.trans hsent
        (.of_silent (accrues_grows.trans hhedge hprobe)))

/-- The round with which a run stops. -/
theorem balances_last (htrains : c.scheduler.Trains)
    (h : sendRound S updates c = .ok none c') : ∃ c₁, Balances c c₁ ∧ Hushes c₁ c' := by
  obtain ⟨recovery, c₁, chosen, c₂, hback, hchoose, hproceeds⟩ := round_ok h
  obtain ⟨hprepares, htrains₂⟩ := round_prepares htrains hback hchoose
  cases hproceeds with
  | @idle due c₃ _ hask hflush =>
      refine ⟨c₂, .of_silent hprepares, ?_⟩
      have hrun : (askUpdates S false >>= flush S) c₂ = .ok () c' := (bind_of_ok hask).trans hflush
      exact (hushes_askUpdates false ((flushes_unended S).flush unended_takeAck)).ok hrun
  | @decline id c₃ c₄ _ _ hattach hsend hflush =>
      have hsent := balances_sendNext (trains_attachControl htrains₂ hattach) hsend
      have hattach := ((mild_silent S).attachControl silent_takeAck id _).ok hattach
      exact ⟨c₄, accrues_balances.trans (.of_silent (accrues_grows.trans hprepares hattach)) hsent,
        hushes_flush.ok hflush⟩

theorem balances_rounds {n : Nat} {outcome : SendOutcome} (htrains : c.scheduler.Trains)
    (h : sendRounds S n updates c = .ok outcome c') :
    ∃ c₁, Balances c c₁ ∧ (c' = c₁ ∨ Hushes c₁ c') := by
  induction n generalizing updates c with
  | zero =>
      obtain ⟨-, rfl⟩ := pure_ok h
      exact ⟨c, accrues_balances.refl c, .inl rfl⟩
  | succ n ih =>
      obtain ⟨answer, c₁, hround, h⟩ := bind_ok h
      cases answer with
      | none =>
          obtain ⟨-, rfl⟩ := pure_ok h
          obtain ⟨c₂, hbalances, hhushes⟩ := balances_last htrains hround
          exact ⟨c₂, hbalances, .inr hhushes⟩
      | some updates' =>
          have htask := ((tame_sameTask S).keeps_sendRound sameTask_takeAck updates).ok hround
          obtain ⟨c₂, hbalances, hend⟩ := ih (htask.trains htrains) h
          exact ⟨c₂, accrues_balances.trans (balances_round htrains hround) hbalances, hend⟩

/-- In a run that ends well, as many episodes end as it closes streams. -/
theorem ends_send {n : Nat} {outcome : SendOutcome} (htrains : c.scheduler.Trains)
    (h : send S n c = .ok outcome c') :
    ∃ force updates evs, c'.events = c.events ++ .updatesAsked force updates :: evs ∧
      (Event.updatesAsked force updates :: evs).countP (·.endsEpisode) =
        (closed (.updatesAsked force updates :: evs)).length := by
  obtain ⟨updates, c₁, hopening, hsend⟩ := send_eq S c
  obtain ⟨opened, hopened, hqueued, -⟩ :=
    opening_events (P := fun e => ∃ frame, e = .queued none frame) (fun _ => ⟨_, rfl⟩) hopening
  have hsilent : ∀ e ∈ opened, e.Silent := fun e he => by
    obtain ⟨frame, rfl⟩ := hqueued e he
    exact ⟨rfl, rfl, rfl⟩
  have htask : SameTask c c₁ :=
    ((tame_sameTask S).toFlushes.opening (tame_sameTask S).publish).ok hopening
  obtain ⟨c₂, ⟨rounds, hrounds, hbalanced⟩, hend⟩ :=
    balances_rounds (htask.trains htrains) (hsend n ▸ h)
  obtain ⟨flushed, hflushed, hstarts, hunended⟩ : ∃ flushed, c'.events = c₂.events ++ flushed ∧
      (∀ e ∈ flushed.head?, e.asksUpdates = true) ∧ ∀ e ∈ flushed, e.endsEpisode = false := by
    rcases hend with rfl | ⟨force, due, flushed, hflushed, hunended⟩
    · exact ⟨[], (List.append_nil _).symm, by simp, by simp⟩
    · refine ⟨_, hflushed, by simp [Event.asksUpdates], fun e he => ?_⟩
      rcases List.mem_cons.mp he with rfl | he
      · rfl
      · exact hunended e he
  have hall : Balanced (opened ++ rounds) := (Balanced.of_silent hsilent).append hbalanced
  refine ⟨false, updates, (opened ++ rounds) ++ flushed, ?_, ?_⟩
  · rw [hflushed, hrounds, hopened]
    simp
  · rw [closed, inRounds_of_split hall.asks hstarts, ← hall.ends,
      List.countP_cons_of_neg (by simp [Event.endsEpisode]), List.countP_append,
      ends_of_silent hunended, Nat.add_zero]

/-! ### What becomes of the last pieces -/

section Pieces

variable {last : σ → List StreamId}

/-- What the session handed out and what it still has is what it had and what it was given. -/
def Settles (last : σ → List StreamId) (c c' : Connection σ) : Prop :=
  ∃ evs, c'.events = c.events ++ evs ∧
    (evs.flatMap (fun e => e.closes ++ e.passes) ++ last c'.session).Perm
      (last c.session ++ restored evs)

theorem accrues_settles : Accrues (Settles last) where
  refl c := ⟨[], (List.append_nil _).symm, .of_eq (by simp [restored])⟩
  trans := by
    rintro c c₁ c₂ ⟨evs₁, h₁, hperm₁⟩ ⟨evs₂, h₂, hperm₂⟩
    refine ⟨evs₁ ++ evs₂, by rw [h₂, h₁, List.append_assoc], ?_⟩
    rw [List.flatMap_append, restored, List.flatMap_append, List.append_assoc]
    refine (hperm₂.append_left _).trans ?_
    rw [← List.append_assoc, ← List.append_assoc]
    exact hperm₁.append_right _

/-- No last piece is handed out or given. -/
structure Neutral (e : Event) : Prop where
  closes : e.closes = []
  passes : e.passes = []
  restores : e.restores = []

theorem Settles.of_neutral (h : Grows Neutral c c') (hlast : last c'.session = last c.session) :
    Settles last c c' := by
  obtain ⟨evs, hevents, hneutral⟩ := h
  refine ⟨evs, hevents, .of_eq ?_⟩
  have hout : evs.flatMap (fun e => e.closes ++ e.passes) = [] :=
    List.flatMap_eq_nil_iff.mpr fun e he => by
      rw [(hneutral e he).closes, (hneutral e he).passes]
      rfl
  have hgiven : restored evs = [] :=
    List.flatMap_eq_nil_iff.mpr fun e he => (hneutral e he).restores
  rw [hout, hgiven, hlast, List.append_nil, List.nil_append]

/-- One event, which tells what was handed out and given. -/
theorem Settles.one {e : Event} (h : c'.events = c.events ++ [e])
    (hperm : ((e.closes ++ e.passes) ++ last c'.session).Perm (last c.session ++ e.restores)) :
    Settles last c c' :=
  ⟨[e], h, by simpa [restored] using hperm⟩

theorem settles_callOn {α : Type} {call : PacketCall} {id : PathId}
    {operation : σ → Path → Reply σ α} {event : α → Event} (out given : α → List StreamId)
    (h : ∀ s path, ((operation s path).pieces out ++ last (operation s path).session).Perm
      (last s ++ (operation s path).pieces given))
    (hout : ∀ a, (event a).closes ++ (event a).passes = out a)
    (hgiven : ∀ a, (event a).restores = given a) :
    Keeps (Settles last) (callOn call id operation event) := by
  intro c
  have hperm := h c.session (c.path id)
  rw [callOn_eq]
  dsimp only
  unfold Reply.pieces at hperm
  split
  · rename_i a hresult
    rw [hresult] at hperm
    exact .one (events_note c _ _ _) (by rw [hout, hgiven]; exact hperm)
  · rename_i e hresult
    rw [hresult] at hperm
    exact .one (events_note c _ _ _) hperm

theorem settles_takeAck (id : PathId) (now : Instant) :
    Keeps (Settles last) (takeAck id now) := by
  intro c
  rw [takeAck_eq]
  dsimp only
  split
  · exact .of_neutral (.one (events_note c _ _ _) ⟨rfl, rfl, rfl⟩) rfl
  · exact .of_neutral (.of_eq rfl) rfl

theorem last_finishStream (c : Connection σ) :
    last (left (finishStream S c)).session = last c.session := by
  revert c
  refine keeps_get_bind (R := fun c c' => last c'.session = last c.session) fun c => ?_
  dsimp only
  split
  · split <;> rfl
  · rfl

theorem last_endEpisode (e : Error) (c : Connection σ) :
    last (left (endEpisodeOnOverflow e c : EStateM.Result Error _ Unit)).session =
      last c.session := by
  revert c
  refine keeps_modify (R := fun c c' => last c'.session = last c.session) fun c => ?_
  split <;> rfl

theorem last_hedge (id : PathId) (packet : Packet) (c : Connection σ) :
    last (left (hedge id packet c)).session = last c.session := by
  rw [hedge_eq]
  dsimp only [left]
  split <;> rfl

variable (hS : DealsOut S last)

include hS

theorem last_choose (demand : Demand) (c : Connection σ) :
    last (left (choose S demand c)).session = last c.session := by
  rw [choose_eq]
  dsimp only
  split
  · rfl
  · split
    · exact hS.close _ _
    · rfl

theorem tame_settles : Tame S (Settles last) where
  toAccrues := accrues_settles
  queue _ frame c := .one (events_note c _ _ _) (hS.queueControl c.session frame _)
  returnStream frame c := .one (events_note c _ _ _) (hS.returnStream c.session frame)
  schedulePaths c := .of_neutral (.one (events_note c _ _ _) ⟨rfl, rfl, rfl⟩)
    (hS.schedulePaths c.session)
  askUpdates force c := .of_neutral (.one (events_note c _ _ _) ⟨rfl, rfl, rfl⟩)
    (hS.windowUpdates c.session force)
  takePathControl c := .of_neutral (.of_eq rfl) (hS.takePathControl c.session)
  unblock c := .of_neutral (.one (events_note c _ _ _) ⟨rfl, rfl, rfl⟩)
    (hS.clearPeerBlocked c.session)
  pack _ := settles_callOn Packet.pieces? (fun _ => [])
    (fun s path => by simpa only [Reply.pieces_nil, List.append_nil] using hS.pack s path)
    (fun _ => List.append_nil _) fun _ => rfl
  packAck _ := settles_callOn (·.finishedStreams) (fun _ => [])
    (fun s path => by simpa only [Reply.pieces_nil, List.append_nil] using hS.packAck s path)
    (fun _ => List.nil_append _) fun _ => rfl
  packHandshake _ lost := settles_callOn (·.finishedStreams) (fun _ => lost.finishedStreams)
    (fun s path => hS.packHandshake s lost path) (fun _ => List.nil_append _) fun _ => rfl
  transmit id packet := keeps_bind accrues_settles
    (settles_callOn (fun _ => []) (fun _ => [])
      (fun s path => .of_eq (by simp [Reply.pieces_nil, hS.send s packet path]))
      (fun _ => rfl) fun _ => rfl)
    fun _ => keeps_modify fun _ => .of_neutral (.of_eq rfl) rfl
  ping _ := settles_callOn (fun _ => []) (fun _ => [])
    (fun s path => .of_eq (by simp [Reply.pieces_nil, hS.ping s path])) (fun _ => rfl)
    fun _ => rfl
  announce _ _ _ := .of_neutral (.of_eq rfl) rfl
  choose demand c := .of_neutral
    (grows_choose (fun _ => ⟨rfl, rfl, rfl⟩) (fun _ => ⟨rfl, rfl, rfl⟩) demand c)
    (last_choose hS demand c)
  finishStream c := .of_neutral (grows_finishStream (fun _ => ⟨rfl, rfl, rfl⟩) c)
    (last_finishStream c)
  drain _ _ _ _ _ := .of_neutral (grows_drain ⟨rfl, rfl, rfl⟩) rfl
  bump _ _ := .of_neutral (.of_eq rfl) rfl
  endEpisode e c := .of_neutral (grows_endEpisode (fun _ => ⟨rfl, rfl, rfl⟩) e c)
    (last_endEpisode e c)
  hedge id packet c := .of_neutral (grows_hedge (P := Neutral) ⟨rfl, rfl, rfl⟩ c)
    (last_hedge id packet c)
  publish _ := .of_neutral (.of_eq rfl) rfl

end Pieces

/-! ### A stream that closes the episode twice -/

/-- An unmeasured path and a measured one, an agent in training that picks them in turn, and all the
data of a stream. -/
def hedgedEnd : Connection Script where
  scheduler := .trainee [0, 1]
  paths := ((PathSet.empty.insert (.new .initial {} default)).insert
    (.new .primary {} default)).insert (.new ⟨2⟩ { rtt := .ofMillis 10 } default)
  session := { data := [[⟨⟨5⟩, 1000, true⟩]] }

/-- What an action that succeeds answers. -/
def answer? {α : Type} : EStateM.Result Error (Connection σ) α → Option α
  | .ok a _ => some a
  | .error _ _ => none

theorem eq_ok_left {α : Type} {r : EStateM.Result Error (Connection σ) α} {a : α}
    (h : answer? r = some a) : r = .ok a (left r) := by
  cases r with
  | ok b c => rw [Option.some.inj h]; rfl
  | error e c => cases h

/-- The connection once the run is opened. -/
def hedgedOpen : Connection Script := left (opening Script.session hedgedEnd)

/-- The last piece went out on the unmeasured path, and was copied. -/
def hedgedOnce : Connection Script := left (sendRound Script.session [] hedgedOpen)

/-- The copy came back, and the last piece went out on the other path. -/
def hedgedTwice : Connection Script := left (sendRound Script.session [] hedgedOnce)

/-- Nothing is left to send. -/
def hedgedDone : Connection Script := left (sendRound Script.session [] hedgedTwice)

theorem send_hedgedEnd : send Script.session 3 hedgedEnd = .ok .finished hedgedDone := by
  obtain ⟨updates, c₁, hopening, hsend⟩ := send_eq Script.session hedgedEnd
  have hopened : opening Script.session hedgedEnd = .ok [] hedgedOpen :=
    eq_ok_left (by decide +kernel)
  rw [hopened] at hopening
  obtain ⟨rfl, rfl⟩ := EStateM.Result.ok.inj hopening
  have hfirst : sendRound Script.session [] hedgedOpen = .ok (some []) hedgedOnce :=
    eq_ok_left (by decide +kernel)
  have hsecond : sendRound Script.session [] hedgedOnce = .ok (some []) hedgedTwice :=
    eq_ok_left (by decide +kernel)
  have hthird : sendRound Script.session [] hedgedTwice = .ok none hedgedDone :=
    eq_ok_left (by decide +kernel)
  rw [hsend, sendRounds_of_continue hfirst, sendRounds_of_continue hsecond,
    sendRounds_of_stop hthird]

/-- **How often a run closes the episode.**  For every session, every set of paths and every state
of a scheduler that is being trained, a run that ends well tells the agent of an end as often as a
packet of the packer's choice carries the last piece of a stream.  If the session hands out each
last piece once, then the last pieces that close the episode, those that go out in other packets
and those that are left make up for those that there were and those that came back.  So with one
last piece of a stream to begin with, the episode is closed at most once for it if and only if
each last piece of it that comes back is left in the end or goes out in another packet. -/
theorem episodes_close (S : Session σ) (n : Nat) (c c' : Connection σ) (outcome : SendOutcome)
    (htrains : c.scheduler.Trains) (h : send S n c = .ok outcome c') :
    ∃ evs, c'.events = c.events ++ evs ∧
      evs.countP (·.endsEpisode) = (closed evs).length ∧
      ∀ last, DealsOut S last →
        (closed evs ++ (passed evs ++ last c'.session)).Perm (last c.session ++ restored evs) ∧
        ∀ stream, (last c.session).count stream = 1 →
          ((closed evs).count stream ≤ 1 ↔ (restored evs).count stream ≤
            (passed evs).count stream + (last c'.session).count stream) := by
  obtain ⟨force, updates, evs, hevents, hends⟩ := ends_send htrains h
  refine ⟨_, hevents, hends, fun last hS => ?_⟩
  obtain ⟨evs', hevents', hperm⟩ := ((tame_settles hS).keeps_send settles_takeAck n).ok h
  obtain rfl := List.append_cancel_left (hevents'.symm.trans hevents)
  have hall : (closed (.updatesAsked force updates :: evs) ++
      (passed (.updatesAsked force updates :: evs) ++ last c'.session)).Perm
        (last c.session ++ restored (.updatesAsked force updates :: evs)) := by
    rw [← List.append_assoc]
    exact (closed_passed_perm.append_right _).trans hperm
  refine ⟨hall, fun stream hone => ?_⟩
  have hcount := hall.count_eq stream
  simp only [List.count_append] at hcount
  omega

/-- The last piece came back once, and closes the episode twice. -/
theorem episodes_close_hedgedEnd :
    hedgedEnd.scheduler.Trains ∧ send Script.session 3 hedgedEnd = .ok .finished hedgedDone ∧
    hedgedDone.events.countP (·.endsEpisode) = (closed hedgedDone.events).length ∧
    (closed hedgedDone.events ++ (passed hedgedDone.events ++ hedgedDone.session.lastPieces)).Perm
      (hedgedEnd.session.lastPieces ++ restored hedgedDone.events) ∧
    hedgedEnd.session.lastPieces = [⟨5⟩] ∧ restored hedgedDone.events = [⟨5⟩] := by
  have htrains : hedgedEnd.scheduler.Trains := ⟨rfl, rfl, rfl⟩
  obtain ⟨evs, hevents, hends, hpieces⟩ := episodes_close _ _ _ _ _ htrains send_hedgedEnd
  obtain rfl : hedgedDone.events = evs := hevents
  exact ⟨htrains, send_hedgedEnd, hends, (hpieces _ Script.dealsOut_session).1, by decide +kernel,
    by decide +kernel⟩

/-- **One stream closes the episode twice.**  No packet waits in the beginning, and there is one
last piece.  The run ends well, and the agent is told twice that the episode is over. -/
theorem episode_closed_twice :
    hedgedEnd.scheduler.Trains ∧ hedgedEnd.paths.queued = [] ∧
    hedgedEnd.session.data = [[⟨⟨5⟩, 1000, true⟩]] ∧
    send Script.session 3 hedgedEnd = .ok .finished hedgedDone ∧
    hedgedDone.events.countP (·.endsEpisode) = 2 :=
  ⟨⟨rfl, rfl, rfl⟩, by decide +kernel, rfl, send_hedgedEnd, by decide +kernel⟩

end Connection

end Multipath
