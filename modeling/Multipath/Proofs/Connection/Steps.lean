import Multipath.Proofs.Connection.Actions
import Multipath.Proofs.Scheduler.Choices

/-!
# What the single steps keep, a round keeps

The send loop is made of single steps.  A relation that accrues and is kept by each of them is kept
by everything that is made of them.  There are steps that few relations are indifferent to: taking
a packet or an acknowledgement, copying a packet, building a handshake packet again, counting a
packet.

* `keeps_takeBackUpTo`, `keeps_attachControl`: parts of a round, by what their own steps keep.
* `Mild`: the steps that hand something to the session keep the relation; then so do the parts of
  a round that neither build a packet nor turn to the agent.
* `Gentle`: so do the steps that build a packet or turn to the agent.  `Flushes`: so do the steps of
  a flush.
* `Calm`: every step but those keeps the relation; then parts that do without them keep it, and
  parts with one of them keep it if that one does.
* `Tame`: every step but taking an acknowledgement keeps it.
* `Tame.keeps_send`: a tame relation that taking an acknowledgement keeps as well is kept by a
  whole run.
* `calm_ordinary`, `tame_quiet`: what the steps enter into the journal; nothing but taking an
  acknowledgement enters one.
-/

namespace Multipath

namespace Event

/-- The event is the handing out of an acknowledgement. -/
def isAcknowledged : Event → Bool
  | .acknowledged .. => true
  | _ => false

/-- The event hands out no acknowledgement, takes no packet from a queue, copies none, and builds
no handshake packet again. -/
def isOrdinary : Event → Bool
  | .acknowledged .. => false
  | .drained .. => false
  | .hedged .. => false
  | .packedHandshake .. => false
  | _ => true

theorem not_isAcknowledged {e : Event} (h : e.isOrdinary = true) : e.isAcknowledged = false := by
  cases e <;> first | rfl | cases h

end Event

namespace Scheduler

/-! ### Selecting a path -/

/-- The journal has grown by calls to the agent. -/
def Calls (s s' : Scheduler) : Prop :=
  ∃ calls : List AgentCall, s'.journal.toList = s.journal.toList ++ calls.map .agent

theorem Calls.of_eq {s s' : Scheduler} (h : s'.journal = s.journal) : Calls s s' :=
  ⟨[], by simp [h]⟩

theorem calls_endEpisode (s : Scheduler) (reward : Float) : Calls s (s.endEpisode reward) := by
  unfold endEpisode
  split
  · exact ⟨[.endEpisode s.connection reward false], by simp [note]⟩
  · exact .of_eq rfl

theorem calls_consult (s : Scheduler) (agent : Agent) (o : Observation) :
    Calls s (s.consult agent o).2 := by
  simp only [consult]
  generalize agent.policy s.journal.agentCalls o.state = action
  split
  · exact ⟨[.select o.state action, .outcome s.connection o.reward o.state action],
      by simp [note]⟩
  · exact ⟨[.select o.state action], by simp [note]⟩

/-- Whatever the strategy, a selection calls at most the agent. -/
theorem calls_select (s : Scheduler) (paths : PathSet) (demand : Demand) (now : Instant) :
    Calls s (s.select paths demand now).2 := by
  have hselects := s.selects_select paths demand now
  generalize s.select paths demand now = result at hselects ⊢
  cases hselects with
  | settled chosen => exact .of_eq rfl
  | drawn chosen draws => exact .of_eq rfl
  | asked agent o => exact s.calls_consult agent o
  | stopped reason => exact s.calls_endEpisode _

end Scheduler

namespace Connection

variable {σ : Type} {S : Session σ} {R : Connection σ → Connection σ → Prop}

/-- The steps keep `R` that hand something to the session, or ask for a sign of life. -/
structure Mild (S : Session σ) (R : Connection σ → Connection σ → Prop) : Prop
    extends Accrues R where
  queue : ∀ target frame, Keeps R (queue S target frame)
  returnStream : ∀ frame, Keeps R (returnStream S frame)
  schedulePaths : Keeps R (schedulePaths S)
  takePathControl : Keeps R (takePathControl S)
  ping : ∀ id, Keeps R (ping S id)
  announce : ∀ id force c, R c
    { c with
      paths := c.paths.update id (fun p => (p.stopWaiting force).2) (stopWaiting_id force) }

/-- The steps keep `R` that prepare a packet or follow it, as opposed to those that send or flush. -/
structure Gentle (S : Session σ) (R : Connection σ → Connection σ → Prop) : Prop
    extends Mild S R where
  pack : ∀ id, Keeps R (pack S id)
  choose : ∀ demand, Keeps R (choose S demand)
  finishStream : Keeps R (finishStream S)

/-- The steps keep `R` of which a flush is made, except for taking an acknowledgement. -/
structure Flushes (S : Session σ) (R : Connection σ → Connection σ → Prop) : Prop
    extends Mild S R where
  pack : ∀ id, Keeps R (pack S id)
  askUpdates : ∀ force, Keeps R (askUpdates S force)
  unblock : Keeps R (unblock S)
  packAck : ∀ id, Keeps R (packAck S id)
  transmit : ∀ id packet, Keeps R (transmit S id packet)

/-- The steps keep `R` that neither take, copy nor count anything, nor build a handshake packet
again. -/
structure Calm (S : Session σ) (R : Connection σ → Connection σ → Prop) : Prop
    extends Gentle S R, Flushes S R

/-- Every single step keeps `R`, except for taking an acknowledgement. -/
structure Tame (S : Session σ) (R : Connection σ → Connection σ → Prop) : Prop
    extends Calm S R where
  packHandshake : ∀ id lost, Keeps R (packHandshake S id lost)
  drain : ∀ c {id packet paths}, c.paths.dequeue? = some (id, packet, paths) →
    R c ⟨(c.scheduler.countDrained id).note (.drained id packet), paths, c.session⟩
  bump : ∀ c id, R c { c with scheduler := c.scheduler.bumpQuota id }
  endEpisode : ∀ e, Keeps R (endEpisodeOnOverflow e)
  hedge : ∀ id packet, Keeps R (hedge id packet)
  publish : ∀ c, R c { c with paths := c.paths.updateAll Path.publish }

/-! ### Parts of a round -/

section Parts

variable {id : PathId}

theorem keeps_queueStopWaiting {force : Bool} (hR : Accrues R)
    (hannounce : ∀ c, R c
      { c with
        paths := c.paths.update id (fun p => (p.stopWaiting force).2) (stopWaiting_id force) })
    (hqueue : ∀ n, Keeps R (queue S (some id) (.stopWaiting n))) :
    Keeps R (queueStopWaiting S id force) := by
  intro c
  rw [queueStopWaiting_eq]
  refine hR.trans (hannounce c) ?_
  cases ((c.path id).stopWaiting force).1 with
  | none => exact hR.refl _
  | some number => exact hqueue _ _

/-- Taking back keeps a relation that is kept where a handshake packet is taken, and where a packet
of application data is taken apart. -/
theorem keeps_takeBackUpTo (hR : Accrues R)
    (hdrop : ∀ c {id packet paths}, c.paths.dequeue? = some (id, packet, paths) →
      packet.isHandshake = true →
      R c ⟨(c.scheduler.countDrained id).note (.drained id packet), paths, c.session⟩)
    (hapart : ∀ c {id packet paths}, c.paths.dequeue? = some (id, packet, paths) →
      packet.isHandshake = false →
      R c (left (packet.framesToResend.forM (redistribute S id)
        ⟨(c.scheduler.countDrained id).note (.drained id packet), paths, c.session⟩)))
    (n : Nat) (found : Recovery) : Keeps R (takeBackUpTo S n found) := by
  induction n generalizing found with
  | zero => exact keeps_pure hR found
  | succ n ih =>
      -- a packet is drained, and the induction goes on with what is left of the budget
      refine keeps_get_bind fun c => ?_
      cases hdequeue : c.paths.dequeue? with
      | none => exact hR.refl c
      | some taken =>
          obtain ⟨id, packet, paths⟩ := taken
          simp only [set_bind, note_bind]
          cases hlevel : packet.isHandshake with
          | true =>
              refine hR.trans (hdrop c hdequeue hlevel) ?_
              rw [if_pos rfl]
              refine keeps_get_bind (fun c => ?_) _
              split
              · exact ih _ c
              · exact hR.refl c
          | false =>
              refine hR.trans (hapart c hdequeue hlevel) ?_
              rw [if_neg Bool.false_ne_true]
              exact left_bind hR (fun _ => ih _) _ _

theorem keeps_attachControl {hasReturnedStreams : Bool} (hR : Accrues R)
    (htake : ∀ now, Keeps R (takeAck id now : Act σ _))
    (hack : ∀ frame, Keeps R (queue S (some id) (.ack frame)))
    (hstop : Keeps R (queueStopWaiting S id hasReturnedStreams))
    (hframes : Keeps R (do
      let frames ← takePathControl S
      frames.forM (queue S (some id)))) :
    Keeps R (attachControl S id hasReturnedStreams) := by
  have hrest : ∀ found : Option AckFrame, Keeps R (do
      if found.isSome || hasReturnedStreams then queueStopWaiting S id hasReturnedStreams
      let frames ← takePathControl S
      frames.forM (queue S (some id))) := by
    intro found
    dsimp only
    split
    · exact keeps_bind hR hstop fun _ => hframes
    · exact hframes
  refine keeps_get_bind fun c => keeps_bind hR (htake _) (fun found => ?_) c
  cases found with
  | none => exact hrest none
  | some frame => exact keeps_bind hR (hack frame) fun _ => hrest (some frame)

theorem keeps_probe (hR : Accrues R) (hping : ∀ id, Keeps R (ping S id))
    (origin : Option PathId) : Keeps R (probe S origin) := by
  unfold probe
  split
  · rename_i origin
    refine keeps_get_bind fun c => ?_
    split
    · exact hping origin c
    · exact hR.refl c
  · exact keeps_pure hR _

end Parts

namespace Mild

theorem queueUpdates (h : Mild S R) (target : Option PathId) (updates : List WindowUpdate) :
    Keeps R (queueUpdates S target updates) :=
  keeps_forM h.toAccrues fun f _ => h.queue target (.windowUpdate f)

theorem queueStopWaiting (h : Mild S R) (id : PathId) (force : Bool) :
    Keeps R (queueStopWaiting S id force) :=
  keeps_queueStopWaiting h.toAccrues (h.announce id force) fun _ => h.queue _ _

theorem redistribute (h : Mild S R) (origin : PathId) (frame : Frame) :
    Keeps R (redistribute S origin frame) := by
  unfold Connection.redistribute
  split
  · exact h.returnStream _
  · refine keeps_get_bind fun c => ?_
    split
    · exact h.queue _ _ c
    · exact h.refl c
  · exact h.schedulePaths
  · exact h.queue _ _

theorem takeBackUpTo (h : Mild S R)
    (hdrain : ∀ c {id packet paths}, c.paths.dequeue? = some (id, packet, paths) →
      R c ⟨(c.scheduler.countDrained id).note (.drained id packet), paths, c.session⟩)
    (n : Nat) (found : Recovery) : Keeps R (takeBackUpTo S n found) :=
  keeps_takeBackUpTo h.toAccrues (fun c _ _ _ hdequeue _ => hdrain c hdequeue)
    (fun c id _ _ hdequeue _ => h.trans (hdrain c hdequeue)
      (keeps_forM h.toAccrues (fun frame _ => h.redistribute id frame) _)) n found

theorem probe (h : Mild S R) (origin : Option PathId) : Keeps R (probe S origin) :=
  keeps_probe h.toAccrues h.ping origin

theorem attachControl (htake : ∀ id now, Keeps R (takeAck id now : Act σ _)) (h : Mild S R)
    (id : PathId) (hasReturnedStreams : Bool) : Keeps R (attachControl S id hasReturnedStreams) :=
  keeps_attachControl h.toAccrues (htake id) (fun _ => h.queue _ _)
    (h.queueStopWaiting id hasReturnedStreams)
    (keeps_bind h.toAccrues h.takePathControl fun _ =>
      keeps_forM h.toAccrues fun frame _ => h.queue _ frame)

end Mild

/-- Gentle for a relation, gentle for a weaker one. -/
theorem Gentle.mono {R' : Connection σ → Connection σ → Prop} (h : Gentle S R) (hR' : Accrues R')
    (himp : ∀ {c c'}, R c c' → R' c c') : Gentle S R' where
  toAccrues := hR'
  queue target frame c := himp (h.queue target frame c)
  returnStream frame c := himp (h.returnStream frame c)
  schedulePaths c := himp (h.schedulePaths c)
  takePathControl c := himp (h.takePathControl c)
  pack id c := himp (h.pack id c)
  ping id c := himp (h.ping id c)
  announce id force c := himp (h.announce id force c)
  choose demand c := himp (h.choose demand c)
  finishStream c := himp (h.finishStream c)

namespace Flushes

theorem resendHandshake (h : Flushes S R) (hbuild : ∀ id lost, Keeps R (packHandshake S id lost))
    (id : PathId) (lost : Packet) : Keeps R (resendHandshake S id lost) :=
  keeps_bind h.toAccrues (h.queueStopWaiting id true) fun _ =>
    keeps_bind h.toAccrues (hbuild id lost) fun packet => h.transmit id packet

theorem packFlush (h : Flushes S R) (id : PathId) (found : Option AckFrame) :
    Keeps R (packFlush S id found) := by
  cases found with
  | none => exact h.pack id
  | some frame =>
      exact keeps_bind h.toAccrues (h.queue _ (.ack frame)) fun _ => keeps_map (h.packAck id)

section Acknowledging

variable (htake : ∀ id now, Keeps R (takeAck id now : Act σ _))

include htake

theorem flushPath (h : Flushes S R) (updates : List WindowUpdate) (now : Instant) (id : PathId) :
    Keeps R (flushPath S updates now id) := by
  refine keeps_bind h.toAccrues (htake id now) fun found =>
    keeps_bind h.toAccrues (h.queueUpdates (some id) updates) fun _ => ?_
  split
  · exact keeps_pure h.toAccrues _
  · refine keeps_bind h.toAccrues (h.queueStopWaiting id false) fun _ =>
      keeps_bind h.toAccrues (h.packFlush id found) fun built => ?_
    cases built with
    | none => exact keeps_pure h.toAccrues _
    | some packet => exact h.transmit id packet

theorem flushPaths (h : Flushes S R) (updates : List WindowUpdate) : Keeps R (do
    let c ← get
    c.paths.ids.forM (Connection.flushPath S updates (S.now c.session))
    Connection.unblock S : Act σ Unit) :=
  keeps_get_bind fun c => keeps_bind h.toAccrues
    (keeps_forM h.toAccrues fun id _ => h.flushPath htake updates _ id) (fun _ => h.unblock) c

theorem flush (h : Flushes S R) (updates : List WindowUpdate) : Keeps R (flush S updates) := by
  refine keeps_get_bind fun c => ?_
  dsimp only
  split
  · exact keeps_bind h.toAccrues (h.askUpdates _) (h.flushPaths htake) c
  · exact keeps_bind h.toAccrues (keeps_pure h.toAccrues updates) (h.flushPaths htake) c

end Acknowledging

end Flushes

namespace Calm

/-- Calm for a relation, calm for a weaker one. -/
theorem mono {R' : Connection σ → Connection σ → Prop} (h : Calm S R) (hR' : Accrues R')
    (himp : ∀ {c c'}, R c c' → R' c c') : Calm S R' where
  toGentle := h.toGentle.mono hR' himp
  askUpdates force c := himp (h.askUpdates force c)
  unblock c := himp (h.unblock c)
  packAck id c := himp (h.packAck id c)
  transmit id packet c := himp (h.transmit id packet c)

/-- Calm for two relations, calm for both at once. -/
theorem and {R' : Connection σ → Connection σ → Prop} (h : Calm S R) (h' : Calm S R') :
    Calm S fun c c' => R c c' ∧ R' c c' where
  refl c := ⟨h.refl c, h'.refl c⟩
  trans := fun ⟨h₁, h₁'⟩ ⟨h₂, h₂'⟩ => ⟨h.trans h₁ h₂, h'.trans h₁' h₂'⟩
  queue target frame c := ⟨h.queue target frame c, h'.queue target frame c⟩
  returnStream frame c := ⟨h.returnStream frame c, h'.returnStream frame c⟩
  schedulePaths c := ⟨h.schedulePaths c, h'.schedulePaths c⟩
  askUpdates force c := ⟨h.askUpdates force c, h'.askUpdates force c⟩
  takePathControl c := ⟨h.takePathControl c, h'.takePathControl c⟩
  unblock c := ⟨h.unblock c, h'.unblock c⟩
  pack id c := ⟨h.pack id c, h'.pack id c⟩
  packAck id c := ⟨h.packAck id c, h'.packAck id c⟩
  transmit id packet c := ⟨h.transmit id packet c, h'.transmit id packet c⟩
  ping id c := ⟨h.ping id c, h'.ping id c⟩
  announce id force c := ⟨h.announce id force c, h'.announce id force c⟩
  choose demand c := ⟨h.choose demand c, h'.choose demand c⟩
  finishStream c := ⟨h.finishStream c, h'.finishStream c⟩

/-- What a round does once its packet is sent. -/
theorem afterTransmit (h : Calm S R)
    (hbump : ∀ c id, R c { c with scheduler := c.scheduler.bumpQuota id }) (id : PathId)
    (updates : List WindowUpdate) (packet : Packet) :
    Keeps R (do
      Connection.queueUpdates S (some id) updates
      modify fun c => { c with scheduler := c.scheduler.bumpQuota id }
      packet.finishedStreams.forM fun _ => Connection.finishStream S
      return some packet) :=
  keeps_bind h.toAccrues (h.queueUpdates (some id) updates) fun _ =>
    keeps_bind h.toAccrues (keeps_modify fun c => hbump c id) fun _ =>
      keeps_bind h.toAccrues (keeps_forM h.toAccrues fun _ _ => h.finishStream) fun _ =>
        keeps_pure h.toAccrues _

theorem sendNext (h : Calm S R)
    (hbump : ∀ c id, R c { c with scheduler := c.scheduler.bumpQuota id })
    (updates : List WindowUpdate) (id : PathId) : Keeps R (sendNext S updates id) := by
  have hbuilt : ∀ packet, Keeps R (do
      Connection.transmit S id packet
      Connection.queueUpdates S (some id) updates
      modify fun c => { c with scheduler := c.scheduler.bumpQuota id }
      packet.finishedStreams.forM fun _ => Connection.finishStream S
      return some packet) := fun packet =>
    keeps_bind h.toAccrues (h.transmit id packet) fun _ => h.afterTransmit hbump id updates packet
  refine keeps_get_bind fun c => ?_
  split
  · refine keeps_bind h.toAccrues (h.queue _ _) (fun _ => ?_) c
    exact keeps_bind_option h.toAccrues (h.pack id) (keeps_pure h.toAccrues none) hbuilt
  · refine keeps_bind_option h.toAccrues (h.pack id) ?_ ?_ c
    · exact keeps_pure h.toAccrues none
    · exact hbuilt

end Calm

namespace Tame

theorem takeBackUpTo (h : Tame S R) (n : Nat) (found : Recovery) :
    Keeps R (takeBackUpTo S n found) := h.toCalm.takeBackUpTo h.drain n found

theorem takeBack (h : Tame S R) : Keeps R (takeBack S) :=
  keeps_get_bind fun c => h.takeBackUpTo c.paths.pending {} c

theorem resendHandshake (h : Tame S R) (id : PathId) (lost : Packet) :
    Keeps R (resendHandshake S id lost) := h.toCalm.resendHandshake h.packHandshake id lost

section Acknowledging

variable (htake : ∀ id now, Keeps R (takeAck id now : Act σ _))

include htake

theorem keeps_sendRound (h : Tame S R) (updates : List WindowUpdate) :
    Keeps R (sendRound S updates) := by
  refine keeps_bind h.toAccrues h.takeBack fun recovery => keeps_get_bind fun c =>
    keeps_bind h.toAccrues (h.choose _) (fun chosen => ?_) c
  cases chosen with
  | none =>
      exact keeps_bind h.toAccrues (h.askUpdates false) fun due =>
        keeps_bind h.toAccrues (h.toCalm.flush htake due) fun _ => keeps_pure h.toAccrues _
  | some id =>
      cases recovery.handshake with
      | some lost =>
          exact keeps_bind h.toAccrues (h.resendHandshake id lost) fun _ =>
            keeps_pure h.toAccrues _
      | none =>
          refine keeps_bind h.toAccrues (h.toCalm.attachControl htake id _) fun _ =>
            keeps_bind h.toAccrues
              (keeps_onError h.toAccrues (h.toCalm.sendNext h.bump updates id) h.endEpisode)
              fun sent => ?_
          cases sent with
          | none =>
              exact keeps_bind h.toAccrues (h.toCalm.flush htake []) fun _ =>
                keeps_pure h.toAccrues _
          | some packet =>
              exact keeps_bind h.toAccrues (h.hedge id packet) fun _ =>
                keeps_bind h.toAccrues (h.probe recovery.origin) fun _ =>
                  keeps_pure h.toAccrues _

theorem keeps_sendRounds (h : Tame S R) (n : Nat) (updates : List WindowUpdate) :
    Keeps R (sendRounds S n updates) := by
  induction n generalizing updates with
  | zero => exact keeps_pure h.toAccrues _
  | succ n ih =>
      refine keeps_bind h.toAccrues (h.keeps_sendRound htake updates) fun answer => ?_
      cases answer with
      | none => exact keeps_pure h.toAccrues _
      | some updates => exact ih updates

/-- **What every single step keeps, a whole run keeps.** -/
theorem keeps_send (h : Tame S R) (n : Nat) : Keeps R (send S n) :=
  keeps_bind h.toAccrues (keeps_modify h.publish) fun _ =>
    keeps_bind h.toAccrues (h.askUpdates false) fun updates =>
      keeps_bind h.toAccrues (h.queueUpdates none updates) fun _ =>
        h.keeps_sendRounds htake n updates

end Acknowledging

end Tame

/-! ### What the steps enter into the journal -/

section Journal

variable {P : Event → Prop}

theorem Grows.calls (hP : ∀ call, P (.agent call)) {c : Connection σ} {s : Scheduler}
    (h : Scheduler.Calls c.scheduler s) : Grows P c { c with scheduler := s } := by
  obtain ⟨calls, hcalls⟩ := h
  refine ⟨calls.map .agent, hcalls, fun e he => ?_⟩
  obtain ⟨call, -, rfl⟩ := List.mem_map.mp he
  exact hP call

theorem grows_callOn {α : Type} {call : PacketCall} {id : PathId}
    {operation : σ → Path → Reply σ α} {event : α → Event} (he : ∀ a, P (event a))
    (hfailed : ∀ e, P (.failed call id e)) :
    Keeps (Grows P) (callOn call id operation event) := by
  intro c
  rw [callOn_eq]
  dsimp only
  split
  · exact .one (events_note c _ _ _) (he _)
  · exact .one (events_note c _ _ _) (hfailed _)

theorem grows_takeAck (hP : ∀ id frame, P (.acknowledged id frame)) (id : PathId) (now : Instant) :
    Keeps (Grows (σ := σ) P) (takeAck id now) := by
  intro c
  rw [takeAck_eq]
  dsimp only
  split
  · exact .one (events_note c _ _ _) (hP _ _)
  · exact .of_eq rfl

theorem grows_choose (hP : ∀ call, P (.agent call)) (hclosed : ∀ e, P (.closed e))
    (demand : Demand) : Keeps (Grows P) (choose S demand) := by
  intro c
  have hselect := Grows.calls hP (c.scheduler.calls_select c.paths demand (S.now c.session))
  rw [choose_eq]
  dsimp only
  generalize c.scheduler.select c.paths demand (S.now c.session) = answer at hselect
  split
  · exact hselect
  · split
    · exact accrues_grows.trans hselect
        (.one (events_note { c with scheduler := answer.2 } _ _ _) (hclosed _))
    · exact hselect

theorem grows_finishStream (hP : ∀ call, P (.agent call)) :
    Keeps (Grows P) (finishStream S) := by
  refine keeps_get_bind fun c => ?_
  dsimp only
  split
  · split
    · exact Grows.calls hP (c.scheduler.calls_endEpisode _)
    · exact .of_eq rfl
  · exact .of_eq rfl

theorem grows_endEpisode (hP : ∀ call, P (.agent call)) (e : Error) :
    Keeps (Grows P) (endEpisodeOnOverflow e : Act σ Unit) := by
  refine keeps_modify fun c => ?_
  split
  · exact Grows.calls hP (c.scheduler.calls_endEpisode _)
  · exact .of_eq rfl

theorem grows_hedge {id : PathId} {packet : Packet} (hP : P (.hedged id packet)) :
    Keeps (Grows P) (hedge id packet : Act σ Unit) := by
  refine keeps_get_bind fun c => ?_
  split
  · exact .one (events_note c _ _ _) hP
  · exact .of_eq rfl

theorem grows_drain {c : Connection σ} {id : PathId} {packet : Packet} {paths : PathSet}
    (hP : P (.drained id packet)) :
    Grows P c ⟨(c.scheduler.countDrained id).note (.drained id packet), paths, c.session⟩ :=
  .one (events_note ⟨c.scheduler.countDrained id, paths, c.session⟩ _ _ _) hP

end Journal

/-- The calm steps enter ordinary events. -/
theorem calm_ordinary (S : Session σ) : Calm S (Grows (·.isOrdinary = true)) where
  toAccrues := accrues_grows
  queue _ _ c := .one (events_note c _ _ _) rfl
  returnStream _ c := .one (events_note c _ _ _) rfl
  schedulePaths c := .one (events_note c _ _ _) rfl
  askUpdates _ c := .one (events_note c _ _ _) rfl
  takePathControl _ := .of_eq rfl
  unblock c := .one (events_note c _ _ _) rfl
  pack _ := grows_callOn (fun _ => rfl) fun _ => rfl
  packAck _ := grows_callOn (fun _ => rfl) fun _ => rfl
  transmit _ _ := keeps_bind accrues_grows (grows_callOn (fun _ => rfl) fun _ => rfl) fun _ =>
    keeps_modify fun _ => .of_eq rfl
  ping _ := grows_callOn (fun _ => rfl) fun _ => rfl
  announce _ _ _ := .of_eq rfl
  choose := grows_choose (fun _ => rfl) fun _ => rfl
  finishStream := grows_finishStream fun _ => rfl

/-- The journal has grown, but not by an acknowledgement. -/
abbrev Quiet (c c' : Connection σ) : Prop := Grows (·.isAcknowledged = false) c c'

/-- **Only taking an acknowledgement enters one into the journal.** -/
theorem tame_quiet (S : Session σ) : Tame S Quiet where
  toCalm := (calm_ordinary S).mono accrues_grows fun h => h.mono fun _ => Event.not_isAcknowledged
  packHandshake _ _ := grows_callOn (fun _ => rfl) fun _ => rfl
  drain _ _ _ _ _ := grows_drain rfl
  bump _ _ := .of_eq rfl
  endEpisode := grows_endEpisode fun _ => rfl
  hedge _ _ := grows_hedge rfl
  publish _ := .of_eq rfl

end Connection

end Multipath
