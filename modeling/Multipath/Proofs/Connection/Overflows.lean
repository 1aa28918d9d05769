import Multipath.Proofs.Connection.Accounting
import Multipath.Proofs.Connection.Handshakes
import Multipath.Proofs.Scheduler.Consulting

/-!
# Full records of sent packets

A path's record of sent packets can be full, and then a call of the session fails and the run ends
with it.  In training the episode is to be closed.  The rounds do so where a packet of the packer's
choice is built and sent, but not where a handshake packet goes out again, where a sign of life is
asked for, or in the flush.

* `Scheduler.Trains`: the learned policy is being trained, and there is an agent to hear of it.
* `FailsWith`: a call failed, and nothing was entered into the journal after it.
* `FromPacker`, `Elsewhere`: what comes before a failure that the rounds look after, and before any
  other.
* `sendRounds_error`: how the rounds of a run fail.
* `send_overflows`: the episode is closed, once, if and only if the packer was to build the packet
  or had just built it, and the packet is in no books.
-/

namespace Multipath

namespace Event

/-- The packer built a packet. -/
def isBuilt : Event → Bool
  | .packed _ (some _) => true
  | _ => false

end Event

/-- A call concerns a packet of the packer's choice: the rounds of the run are not over, and the
packet is to be built, or was built just before and is to be sent.  `before` is what the run has
entered into the journal. -/
def concernsChoice (before : List Event) (call : PacketCall) : Bool :=
  (before.drop 1).all (!·.asksUpdates) &&
    (call == .pack || call == .send && before.getLast?.any (·.isBuilt))

/-! ### Books and journals in parts -/

/-- What sends nothing leaves the count of a path's packets as it was. -/
theorem builtFor_inRounds_append {id : PathId} {xs ys : List Event} (hx : xs ≠ [])
    (hy : ∀ e ∈ ys, e.isSent = false) :
    builtFor id (inRounds (xs ++ ys)) = builtFor id (inRounds xs) := by
  obtain ⟨x, xs, rfl⟩ := List.exists_cons_of_ne_nil hx
  simp only [inRounds, List.cons_append, List.drop_succ_cons, List.drop_zero]
  rw [List.takeWhile_append]
  split
  · rename_i hlength
    have hall : xs.takeWhile (!·.asksUpdates) = xs :=
      (List.takeWhile_prefix _).eq_of_length hlength
    have hunsent : ∀ e ∈ ys.takeWhile (!·.asksUpdates), e.isSent = false := fun e he =>
      hy e ((List.takeWhile_prefix _).subset he)
    rw [builtFor_append fun e he => hunsent e (List.mem_of_mem_head? he),
      builtFor_of_unsent hunsent, hall, List.append_nil]
  · rfl

namespace Scheduler

variable {s s' : Scheduler}

/-! ### Training -/

/-- The learned policy makes the decisions and is being trained, and there is an agent. -/
structure Trains (s : Scheduler) : Prop where
  learning : s.isLearning = true
  training : s.config.training = true
  agent : s.agent.isSome = true

/-- The agent hears of an episode that ends. -/
theorem Trains.endEpisode_eq (h : s.Trains) (reward : Float) :
    s.endEpisode reward = s.note (.agent (.endEpisode s.connection reward false)) :=
  if_pos h.agent

/-- What the scheduler knows of its connection and of the policy is as it was. -/
structure SameTask (s s' : Scheduler) : Prop where
  config : s'.config = s.config
  connection : s'.connection = s.connection
  agent : s'.agent = s.agent

theorem Wanders.sameTask (h : Wanders s s') : SameTask s s' := by
  obtain ⟨-, -, -, -, rfl⟩ := h
  exact ⟨rfl, rfl, rfl⟩

theorem SameTask.trains (h : SameTask s s') (hs : s.Trains) : s'.Trains where
  learning := by rw [isLearning, h.config]; exact hs.learning
  training := h.config ▸ hs.training
  agent := h.agent ▸ hs.agent

/-- A selection fails only to stop a training episode. -/
theorem select_error {paths : PathSet} {demand : Demand} {now : Instant} {e : Error}
    (h : (s.select paths demand now).1 = .error e) : ∃ reason, e = .zeroTolerance reason := by
  have hselects := s.selects_select paths demand now
  generalize s.select paths demand now = result at hselects h
  cases hselects with
  | settled chosen => cases h
  | drawn chosen draws => cases h
  | asked agent o => cases h
  | stopped reason =>
      cases h
      exact ⟨reason, rfl⟩

end Scheduler

namespace Connection

variable {σ : Type} {S : Session σ} {c c₁ c' : Connection σ} {e : Error}

/-- The scheduler's task is as it was. -/
abbrev SameTask (c c' : Connection σ) : Prop := Scheduler.SameTask c.scheduler c'.scheduler

theorem accrues_sameTask : Accrues (SameTask (σ := σ)) where
  refl _ := ⟨rfl, rfl, rfl⟩
  trans h h' := ⟨h'.config.trans h.config, h'.connection.trans h.connection,
    h'.agent.trans h.agent⟩

theorem sameTask_callOn {α : Type} {call : PacketCall} {id : PathId}
    {operation : σ → Path → Reply σ α} {event : α → Event} :
    Keeps SameTask (callOn call id operation event) := by
  intro c
  rw [callOn_eq]
  dsimp only
  split <;> exact ⟨rfl, rfl, rfl⟩

theorem sameTask_takeAck (id : PathId) (now : Instant) :
    Keeps (SameTask (σ := σ)) (takeAck id now) := by
  intro c
  rw [takeAck_eq]
  dsimp only
  split <;> exact ⟨rfl, rfl, rfl⟩

/-- A run never changes the scheduler's task. -/
theorem tame_sameTask (S : Session σ) : Tame S SameTask where
  toAccrues := accrues_sameTask
  queue _ _ _ := ⟨rfl, rfl, rfl⟩
  returnStream _ _ := ⟨rfl, rfl, rfl⟩
  schedulePaths _ := ⟨rfl, rfl, rfl⟩
  askUpdates _ _ := ⟨rfl, rfl, rfl⟩
  takePathControl _ := ⟨rfl, rfl, rfl⟩
  unblock _ := ⟨rfl, rfl, rfl⟩
  pack _ := sameTask_callOn
  packAck _ := sameTask_callOn
  packHandshake _ _ := sameTask_callOn
  transmit _ _ := keeps_bind accrues_sameTask sameTask_callOn fun _ =>
    keeps_modify fun _ => ⟨rfl, rfl, rfl⟩
  ping _ := sameTask_callOn
  announce _ _ _ := ⟨rfl, rfl, rfl⟩
  choose demand c := by
    have hselect := (c.scheduler.wanders_select c.paths demand (S.now c.session)).sameTask
    rw [choose_eq]
    dsimp only
    split
    · exact hselect
    · split
      · exact ⟨hselect.config, hselect.connection, hselect.agent⟩
      · exact hselect
  finishStream := by
    refine keeps_get_bind fun c => ?_
    dsimp only
    split
    · split
      · exact (c.scheduler.wanders_endEpisode _).sameTask
      · exact ⟨rfl, rfl, rfl⟩
    · exact ⟨rfl, rfl, rfl⟩
  drain _ _ _ _ _ := ⟨rfl, rfl, rfl⟩
  bump _ _ := ⟨rfl, rfl, rfl⟩
  endEpisode e := keeps_modify fun c => by
    split
    · exact (c.scheduler.wanders_endEpisode _).sameTask
    · exact ⟨rfl, rfl, rfl⟩
  hedge id packet c := by
    rw [hedge_eq]
    dsimp only [left]
    split <;> exact ⟨rfl, rfl, rfl⟩
  publish _ := ⟨rfl, rfl, rfl⟩

/-! ### Calls that fail -/

/-- A call failed with `e`, and that was entered into the journal last; `P` holds of what was
entered before it and of the call. -/
def FailsWith (P : List Event → PacketCall → Prop) (e : Error) (c c' : Connection σ) : Prop :=
  ∃ evs call id, c'.events = c.events ++ evs ++ [.failed call id e] ∧ P evs call

/-- The rounds close the episode after such a failure: the packer was to build a packet, or it just
built the one that was to be sent. -/
def FromPacker (evs : List Event) (call : PacketCall) : Prop :=
  (∀ x ∈ evs, x.asksUpdates = false) ∧
    (call = .pack ∨ call = .send ∧ ∃ x, evs.getLast? = some x ∧ x.isBuilt = true)

/-- Nothing looks after such a failure: the run was being flushed, or the packer had nothing to do
with the packet. -/
def Elsewhere (evs : List Event) (call : PacketCall) : Prop :=
  (∃ x ∈ evs, x.asksUpdates = true) ∨
    call ≠ .pack ∧ (call = .send → ∃ x, evs.getLast? = some x ∧ x.isBuilt = false)

section Parts

variable {P Q : List Event → PacketCall → Prop} {R : Event → Prop}

/-- What was entered before the part of a run that failed comes before the failure as well. -/
theorem FailsWith.after (h' : FailsWith P e c₁ c') (h : Grows R c c₁)
    (hPQ : ∀ {xs evs call}, (∀ x ∈ xs, R x) → P evs call → Q (xs ++ evs) call) :
    FailsWith Q e c c' := by
  obtain ⟨xs, hevents, hxs⟩ := h
  obtain ⟨evs, call, id, hevents', hevs⟩ := h'
  exact ⟨xs ++ evs, call, id, by rw [hevents', hevents, List.append_assoc c.events],
    hPQ hxs hevs⟩

theorem getLast?_append_of_some {xs evs : List Event} {x : Event} (h : evs.getLast? = some x) :
    (xs ++ evs).getLast? = some x := by
  rw [List.getLast?_append, h]
  rfl

theorem getLast?_cons_of_some {x y : Event} {evs : List Event} (h : evs.getLast? = some y) :
    (x :: evs).getLast? = some y := by
  rw [List.getLast?_cons, h, Option.getD_some]

theorem FromPacker.append {xs evs : List Event} {call : PacketCall}
    (hxs : ∀ x ∈ xs, x.asksUpdates = false) (h : FromPacker evs call) :
    FromPacker (xs ++ evs) call := by
  obtain ⟨hasks, hcall⟩ := h
  refine ⟨fun x hx => ?_, hcall.imp_right fun ⟨hsend, x, hlast, hbuilt⟩ =>
    ⟨hsend, x, getLast?_append_of_some hlast, hbuilt⟩⟩
  rcases List.mem_append.mp hx with hx | hx
  · exact hxs x hx
  · exact hasks x hx

theorem Elsewhere.append {xs evs : List Event} {call : PacketCall} (h : Elsewhere evs call) :
    Elsewhere (xs ++ evs) call := by
  rcases h with ⟨x, hx, hasks⟩ | ⟨hpack, hsend⟩
  · exact .inl ⟨x, List.mem_append_right _ hx, hasks⟩
  · refine .inr ⟨hpack, fun heq => ?_⟩
    obtain ⟨x, hlast, hbuilt⟩ := hsend heq
    exact ⟨x, getLast?_append_of_some hlast, hbuilt⟩

/-- After the question with which a run opens, the two kinds of failure are told apart by the
journal. -/
theorem FromPacker.concernsChoice {x : Event} {evs : List Event} {call : PacketCall}
    (h : FromPacker evs call) : concernsChoice (x :: evs) call = true := by
  obtain ⟨hasks, hcall⟩ := h
  have hall : evs.all (!·.asksUpdates) = true :=
    List.all_eq_true.mpr fun y hy => by simp [hasks y hy]
  rcases hcall with rfl | ⟨rfl, y, hlast, hbuilt⟩
  · simpa [Multipath.concernsChoice] using hall
  · have hlast' : (x :: evs).getLast? = some y := getLast?_cons_of_some hlast
    simpa [Multipath.concernsChoice, hlast', hbuilt] using hall

theorem Elsewhere.concernsChoice {x : Event} {evs : List Event} {call : PacketCall}
    (h : Elsewhere evs call) : concernsChoice (x :: evs) call = false := by
  rcases h with ⟨y, hy, hasks⟩ | ⟨hpack, hsend⟩
  · have hnot : evs.all (!·.asksUpdates) = false :=
      List.all_eq_false.mpr ⟨y, hy, by simp [hasks]⟩
    simp [Multipath.concernsChoice, hnot]
  · cases call with
    | send =>
        obtain ⟨y, hlast, hbuilt⟩ := hsend rfl
        have hlast' : (x :: evs).getLast? = some y := getLast?_cons_of_some hlast
        simp [Multipath.concernsChoice, hlast', hbuilt]
    | pack => exact absurd rfl hpack
    | packHandshake => simp [Multipath.concernsChoice]
    | packAck => simp [Multipath.concernsChoice]
    | ping => simp [Multipath.concernsChoice]

end Parts

/-! ### Steps that cannot fail -/

theorem takeAck_total (id : PathId) (now : Instant) (c : Connection σ) :
    ∃ found c', takeAck id now c = .ok found c' := by
  rw [takeAck_eq]
  dsimp only
  split <;> exact ⟨_, _, rfl⟩

theorem queueStopWaiting_total (id : PathId) (force : Bool) (c : Connection σ) :
    ∃ c', queueStopWaiting S id force c = .ok () c' := by
  rw [queueStopWaiting_eq]
  cases ((c.path id).stopWaiting force).1 <;> exact ⟨_, rfl⟩

theorem signOfLife_total (id : PathId) (c : Connection σ) :
    ∃ c', signOfLife S id c = .ok () c' := by
  rw [signOfLife, get_bind]
  split <;> exact ⟨_, rfl⟩

theorem queueAll_total (target : Option PathId) (frames : List Frame) (c : Connection σ) :
    ∃ c', frames.forM (queue S target) c = .ok () c' := by
  induction frames generalizing c with
  | nil => exact ⟨c, rfl⟩
  | cons frame frames ih => exact ih _

theorem attachControl_total (id : PathId) (hasReturnedStreams : Bool) (c : Connection σ) :
    ∃ c', attachControl S id hasReturnedStreams c = .ok () c' := by
  have hframes : ∀ c : Connection σ, ∃ c', (do
      let frames ← takePathControl S
      frames.forM (queue S (some id)) : Act σ Unit) c = .ok () c' := fun c =>
    queueAll_total (some id) (S.takePathControl c.session).1
      { c with session := (S.takePathControl c.session).2 }
  have hrest : ∀ (found : Option AckFrame) (c : Connection σ), ∃ c', (do
      if found.isSome || hasReturnedStreams then queueStopWaiting S id hasReturnedStreams
      let frames ← takePathControl S
      frames.forM (queue S (some id)) : Act σ Unit) c = .ok () c' := by
    intro found c
    dsimp only
    split
    · obtain ⟨c₁, hstop⟩ := queueStopWaiting_total (S := S) id hasReturnedStreams c
      rw [bind_of_ok hstop]
      exact hframes c₁
    · exact hframes c
  obtain ⟨found, c₁, htake⟩ := takeAck_total id (S.now c.session) c
  rw [attachControl, get_bind, bind_of_ok htake]
  cases found with
  | none => exact hrest none c₁
  | some frame => exact hrest (some frame) _

theorem finishStreams_total (packet : Packet) (c : Connection σ) :
    ∃ c', packet.finishedStreams.forM (fun _ => finishStream S) c = .ok () c' := by
  have hone : ∀ c : Connection σ, ∃ c', finishStream S c = .ok () c' := by
    intro c
    rw [finishStream, get_bind]
    dsimp only
    split
    · split <;> exact ⟨_, rfl⟩
    · exact ⟨_, rfl⟩
  induction packet.finishedStreams generalizing c with
  | nil => exact ⟨c, rfl⟩
  | cons stream streams ih =>
      obtain ⟨c₁, hfinish⟩ := hone c
      obtain ⟨c', hrest⟩ := ih c₁
      exact ⟨c', (bind_of_ok hfinish).trans hrest⟩

/-! ### Steps that fail -/

theorem choose_error {demand : Demand} (h : choose S demand c = .error e c') :
    ∃ reason, e = .zeroTolerance reason := by
  rw [choose_eq] at h
  dsimp only at h
  split at h
  · cases h
  · rename_i hselect
    obtain ⟨reason, rfl⟩ := Scheduler.select_error hselect
    cases h
    exact ⟨reason, rfl⟩

theorem transmit_error {id : PathId} {packet : Packet} (h : transmit S id packet c = .error e c') :
    c'.events = c.events ++ [.failed .send id e] := by
  rcases transmit_cases (S := S) id packet c with
    ⟨e', c₁, htransmit, hevents, -⟩ | ⟨c₁, htransmit, -⟩
  · rw [htransmit] at h
    cases h
    exact hevents
  · rw [htransmit] at h
    cases h

/-- A packet that was built and is not sent. -/
theorem FailsWith.send {P : List Event → PacketCall → Prop} {id : PathId} {packet : Packet}
    {built : Event} (hbuilt : c₁.events = c.events ++ [built])
    (h : transmit S id packet c₁ = .error e c') (hP : P [built] .send) : FailsWith P e c c' :=
  ⟨[built], .send, id, by rw [transmit_error h, hbuilt], hP⟩

theorem FailsWith.call {P : List Event → PacketCall → Prop} {call : PacketCall} {id : PathId}
    (h : c'.events = c.events ++ [.failed call id e]) (hP : P [] call) : FailsWith P e c c' :=
  ⟨[], call, id, by rw [h, List.append_nil], hP⟩

theorem resendHandshake_error {id : PathId} {lost : Packet}
    (h : resendHandshake S id lost c = .error e c') : FailsWith Elsewhere e c c' := by
  obtain ⟨c₁, hstop⟩ := queueStopWaiting_total (S := S) id true c
  have hgrows := (gentle_idles S).queueStopWaiting id true
  rw [resendHandshake, bind_of_ok hstop] at h
  refine FailsWith.after (P := Elsewhere) ?_ (hgrows.ok hstop).1 fun _ => Elsewhere.append
  rcases bind_error h with hpack | ⟨packet, c₂, hpack, hsend⟩
  · exact .call (callOn_error hpack) (.inr ⟨nofun, nofun⟩)
  · exact .send (callOn_ok hpack).2.2.1 hsend (.inr ⟨nofun, fun _ => ⟨_, rfl, rfl⟩⟩)

theorem probe_error {origin : Option PathId} (h : probe S origin c = .error e c') :
    FailsWith Elsewhere e c c' := by
  unfold probe at h
  split at h
  · rw [get_bind] at h
    split at h
    · exact .call (callOn_error h) (.inr ⟨nofun, nofun⟩)
    · cases h
  · cases h

/-- A round fails to send its packet where the packer fails or the packet cannot be sent. -/
theorem sendNext_error {updates : List WindowUpdate} {id : PathId}
    (h : sendNext S updates id c = .error e c') : FailsWith FromPacker e c c' := by
  obtain ⟨c₁, hsign⟩ := signOfLife_total (S := S) id c
  rw [sendNext_eq, bind_of_ok hsign] at h
  refine FailsWith.after (P := FromPacker) ?_ ((idles_signOfLife id).ok hsign).1 fun hxs =>
    FromPacker.append fun x hx => (Event.isIdle_iff.mp (hxs x hx)).2
  rcases bind_error h with hpack | ⟨built, c₂, hpack, h⟩
  · exact .call (callOn_error hpack) ⟨nofun, .inl rfl⟩
  · cases built with
    | none => cases h
    | some packet =>
        rcases bind_error h with hsend | ⟨⟨⟩, c₃, -, h⟩
        · exact .send (callOn_ok hpack).2.2.1 hsend
            ⟨by simp [Event.asksUpdates], .inr ⟨rfl, _, rfl, rfl⟩⟩
        · -- what follows on a packet that was sent cannot fail
          obtain ⟨c₄, hupdates⟩ := queueUpdates_total (S := S) (some id) updates c₃
          obtain ⟨c₅, hfinish⟩ := finishStreams_total (S := S) packet
            { c₄ with scheduler := c₄.scheduler.bumpQuota id }
          rw [bind_of_ok hupdates] at h
          rcases bind_error h with h | ⟨⟨⟩, c₆, hbump, h⟩
          · cases h
          · cases hbump
            rw [bind_of_ok hfinish] at h
            cases h

/-! ### The flush fails -/

/-- Any failure at all. -/
abbrev Somewhere (_ : List Event) (_ : PacketCall) : Prop := True

theorem FailsWith.somewhere (h' : FailsWith Somewhere e c₁ c') (h : Stays c c₁) :
    FailsWith Somewhere e c c' := h'.after h.1 fun _ _ => trivial

theorem packFlush_error {id : PathId} {found : Option AckFrame}
    (h : packFlush S id found c = .error e c') : FailsWith Somewhere e c c' := by
  cases found with
  | none => exact .call (callOn_error h) trivial
  | some frame =>
      rcases bind_error h with h | ⟨⟨⟩, c₁, hqueue, h⟩
      · cases h
      · refine FailsWith.somewhere ?_ (((calm_stays S).queue _ _).ok hqueue)
        cases hpack : packAck S id c₁ with
        | ok packet c₂ =>
            simp only [Functor.map, EStateM.map, hpack] at h
            cases h
        | error e₁ c₂ =>
            simp only [Functor.map, EStateM.map, hpack] at h
            cases h
            exact .call (callOn_error hpack) trivial

theorem flushPath_error {updates : List WindowUpdate} {now : Instant} {id : PathId}
    (h : flushPath S updates now id c = .error e c') : FailsWith Somewhere e c c' := by
  obtain ⟨found, c₁, htake⟩ := takeAck_total id now c
  obtain ⟨c₂, hupdates⟩ := queueUpdates_total (S := S) (some id) updates c₁
  have hstays : Stays c c₂ := accrues_stays.trans ((stays_takeAck id now).ok htake)
    (((calm_stays S).queueUpdates _ _).ok hupdates)
  refine FailsWith.somewhere ?_ hstays
  rw [flushPath, bind_of_ok htake, bind_of_ok hupdates] at h
  split at h
  · cases h
  · obtain ⟨c₃, hstop⟩ := queueStopWaiting_total (S := S) id false c₂
    rw [bind_of_ok hstop] at h
    refine FailsWith.somewhere ?_ (((calm_stays S).queueStopWaiting id false).ok hstop)
    rcases bind_error h with hbuild | ⟨built, c₄, hbuild, h⟩
    · exact packFlush_error hbuild
    · refine FailsWith.somewhere ?_ (((calm_stays S).packFlush id found).ok hbuild)
      cases built with
      | none => cases h
      | some packet => exact .call (transmit_error h) trivial

theorem flushPaths_error {updates : List WindowUpdate} (h : (do
      let c ← get
      c.paths.ids.forM (flushPath S updates (S.now c.session))
      unblock S : Act σ Unit) c = .error e c') : FailsWith Somewhere e c c' := by
  rw [get_bind] at h
  rcases bind_error h with h | ⟨⟨⟩, c₁, -, h⟩
  · obtain ⟨id, -, c₁, hstays, hfails⟩ := forM_error accrues_stays
      (fun id _ => ((calm_stays S).flushPath stays_takeAck updates _ id).ok) h
    exact (flushPath_error hfails).somewhere hstays
  · cases h

/-- What begins by asking for window updates fails elsewhere. -/
theorem asking_error {α : Type} {force : Bool} {f : List WindowUpdate → Act σ α}
    (hf : ∀ {updates c}, f updates c = .error e c' → FailsWith Somewhere e c c')
    (h : (askUpdates S force >>= f) c = .error e c') : FailsWith Elsewhere e c c' := by
  rw [bind_of_ok (askUpdates_eq force c)] at h
  obtain ⟨evs, call, id, hevents, -⟩ := hf h
  refine ⟨.updatesAsked force (S.windowUpdates c.session force).1 :: evs, call, id, ?_,
    .inl ⟨_, List.mem_cons_self, rfl⟩⟩
  rw [hevents, events_note]
  simp

theorem flush_error {updates : List WindowUpdate} (h : flush S updates c = .error e c') :
    FailsWith Somewhere e c c' := by
  rw [flush, get_bind] at h
  dsimp only at h
  split at h
  · obtain ⟨evs, call, id, hevents, -⟩ := asking_error flushPaths_error h
    exact ⟨evs, call, id, hevents, trivial⟩
  · exact flushPaths_error h

/-! ### Rounds and runs fail -/

/-- How the rounds of a run fail: a training episode must stop, or a call fails that the rounds
look after, or any other. -/
inductive Fails (e : Error) (c c' : Connection σ) : Prop
  | stopped {reason} : e = .zeroTolerance reason → Fails e c c'
  | heeded {m} : FailsWith FromPacker e c m → endEpisodeOnOverflow e m = .ok () c' → Fails e c c'
  | unheeded : FailsWith Elsewhere e c c' → Fails e c c'

theorem Fails.after (h' : Fails e c₁ c') (h : Grows (·.asksUpdates = false) c c₁) :
    Fails e c c' := by
  cases h' with
  | stopped hreason => exact .stopped hreason
  | heeded hfails hclean => exact .heeded (hfails.after h FromPacker.append) hclean
  | unheeded hfails => exact .unheeded (hfails.after h fun _ => Elsewhere.append)

theorem Idles.unasked (h : Idles c c₁) : Grows (·.asksUpdates = false) c c₁ :=
  h.1.mono fun _ hidle => (Event.isIdle_iff.mp hidle).2

theorem Carries.unasked (h : Carries c c₁) : Grows (·.asksUpdates = false) c c₁ := by
  obtain ⟨evs, hevents, hasks, -⟩ := h
  exact ⟨evs, hevents, hasks⟩

theorem sendRound_error {updates : List WindowUpdate}
    (h : sendRound S updates c = .error e c') : Fails e c c' := by
  obtain ⟨recovery, c₁, hback⟩ := takeBack_total (S := S) c
  rw [sendRound, bind_of_ok hback, get_bind] at h
  refine Fails.after ?_ (idles_takeBack.ok hback).unasked
  rcases bind_error h with hchoose | ⟨chosen, c₂, hchoose, h⟩
  · obtain ⟨reason, hreason⟩ := choose_error hchoose
    exact .stopped hreason
  · refine Fails.after ?_ (((gentle_idles S).choose _).ok hchoose).unasked
    cases chosen with
    | none =>
        refine .unheeded (asking_error (fun h => ?_) h)
        rcases bind_error h with h | ⟨⟨⟩, c₃, -, h⟩
        · exact flush_error h
        · cases h
    | some id =>
        cases hlost : recovery.handshake with
        | some lost =>
            simp only [hlost] at h
            rcases bind_error h with h | ⟨⟨⟩, c₃, -, h⟩
            · exact .unheeded (resendHandshake_error h)
            · cases h
        | none =>
            simp only [hlost] at h
            obtain ⟨c₃, hattach⟩ := attachControl_total (S := S) id
              (S.hasReturnedStreams c₁.session) c₂
            rw [bind_of_ok hattach] at h
            refine Fails.after ?_ (((gentle_idles S).attachControl idles_takeAck id _).ok
              hattach).unasked
            rcases bind_error h with hsend | ⟨sent, c₄, hsend, h⟩
            · obtain ⟨e₁, m, hfails, hclean | ⟨rfl, hclean⟩⟩ := onError_error hsend
              · cases hclean
              · exact .heeded (sendNext_error hfails) hclean
            · refine Fails.after ?_ ((carries_sendNext _ _).ok (onError_ok hsend)).unasked
              cases sent with
              | none =>
                  rcases bind_error h with h | ⟨⟨⟩, c₅, -, h⟩
                  · exact .unheeded (asking_error flushPaths_error h)
                  · cases h
              | some packet =>
                  rcases bind_error h with h | ⟨⟨⟩, c₅, hhedge, h⟩
                  · rw [hedge_eq] at h
                    cases h
                  · refine Fails.after ?_ ((idles_hedge id packet).ok hhedge).unasked
                    rcases bind_error h with h | ⟨⟨⟩, c₆, -, h⟩
                    · exact .unheeded (probe_error h)
                    · cases h

/-- Whatever the rounds before it did, a round fails as it does by itself. -/
theorem sendRounds_error {n : Nat} {updates : List WindowUpdate}
    (h : sendRounds S n updates c = .error e c') : Fails e c c' := by
  induction n generalizing updates c with
  | zero => cases h
  | succ n ih =>
      rcases bind_error h with hround | ⟨answer, c₁, hround, h⟩
      · exact sendRound_error hround
      · cases answer with
        | none => cases h
        | some updates' => exact (ih h).after (carries_round hround).unasked

/-- What ends the episode of a run that failed, if anything does. -/
def closing (s : Scheduler) (before : List Event) (call : PacketCall) : List Event :=
  if concernsChoice before call then [.agent (.endEpisode s.connection Reward.penalty false)]
  else []

theorem ended_events (htrains : c.scheduler.Trains)
    (h : endEpisodeOnOverflow .tooManyTrackedPackets c = .ok () c') : c'.events =
      c.events ++ [.agent (.endEpisode c.scheduler.connection Reward.penalty false)] := by
  cases h
  dsimp only
  rw [if_pos ⟨rfl, htrains.learning, htrains.training⟩, htrains.endEpisode_eq]
  exact events_note c _ _ _

/-- What a run that finds a record full has entered into the journal. -/
theorem overflow_events {n : Nat} (htrains : c.scheduler.Trains)
    (h : send S n c = .error .tooManyTrackedPackets c') :
    ∃ before call id, before ≠ [] ∧
      c'.events = c.events ++ (before ++ .failed call id .tooManyTrackedPackets ::
        closing c.scheduler before call) := by
  obtain ⟨updates, c₁, hopening, hsend⟩ := send_eq S c
  obtain ⟨opened, hopened, hunasked, -⟩ :=
    opening_events (P := (·.asksUpdates = false)) (fun _ => rfl) hopening
  -- the opening question comes first, and after it all is as in the rounds
  have hfails : ∀ {P : List Event → PacketCall → Prop} {m : Connection σ},
      FailsWith P .tooManyTrackedPackets c₁ m →
      (∀ {evs call}, P evs call → P (opened ++ evs) call) →
      ∃ evs call id, P evs call ∧ m.events = c.events ++ (.updatesAsked false updates :: evs ++
        [.failed call id .tooManyTrackedPackets]) := by
    rintro P m ⟨evs, call, id, hevents, hP⟩ happend
    exact ⟨opened ++ evs, call, id, happend hP, by rw [hevents, hopened]; simp⟩
  cases sendRounds_error (hsend n ▸ h) with
  | stopped hreason => cases hreason
  | @heeded m hfailed hclean =>
      obtain ⟨evs, call, id, hpacker, hevents⟩ := hfails hfailed (FromPacker.append hunasked)
      refine ⟨.updatesAsked false updates :: evs, call, id, List.cons_ne_nil _ _, ?_⟩
      have htask := Keeps.error ((tame_sameTask S).keeps_send sameTask_takeAck n) h
      have htask' := ((tame_sameTask S).endEpisode _).ok hclean
      have hm : m.scheduler.Trains := Scheduler.SameTask.trains
        ⟨htask'.config.symm.trans htask.config, htask'.connection.symm.trans htask.connection,
          htask'.agent.symm.trans htask.agent⟩ htrains
      rw [closing, if_pos hpacker.concernsChoice, ended_events hm hclean, hevents,
        ← htask'.connection, htask.connection]
      simp
  | unheeded hfailed =>
      obtain ⟨evs, call, id, helsewhere, hevents⟩ := hfails hfailed Elsewhere.append
      refine ⟨.updatesAsked false updates :: evs, call, id, List.cons_ne_nil _ _, ?_⟩
      rw [closing, if_neg (by simp [helsewhere.concernsChoice]), hevents]

/-! ### Two calls that nothing looks after -/

/-- What was done in a run that failed, and how it failed. -/
def failedEvents? : EStateM.Result Error (Connection σ) SendOutcome → Option (Error × List Event)
  | .error e c => some (e, c.events)
  | _ => none

theorem failedEvents?_eq_some {r : EStateM.Result Error (Connection σ) SendOutcome}
    {evs : List Event} (h : failedEvents? r = some (e, evs)) :
    ∃ c, r = .error e c ∧ c.events = evs := by
  unfold failedEvents? at h
  split at h
  · cases h
    exact ⟨_, rfl, rfl⟩
  · cases h

/-- A scheduler in training, with packets that wait on the initial path, and a session whose first
packet finds the record full. -/
def fullRecord (queue : List Packet) (session : Script) : Connection Script where
  scheduler := .trainee [0]
  paths := (PathSet.empty.insert { Path.new .initial {} default with queue }).insert
    (.new .primary {} default)
  session := { session with failures := [⟨.send, 1, .tooManyTrackedPackets⟩] }

/-- A packet that the session cannot send. -/
def rejected (frames : List Frame) (length : ByteCount) : Packet :=
  ⟨.one, frames, length, .forwardSecure, none⟩

/-- A lost handshake packet waits. -/
def fullHello : Connection Script := fullRecord [lostHello] { handshakeComplete := false }

/-- The peer is held up, and there is nothing else to send. -/
def fullUpdate : Connection Script :=
  fullRecord [] { peerBlocked := true, forced := [⟨⟨5⟩, 4096⟩] }

theorem failedEvents?_fullHello : failedEvents? (send Script.session 1 fullHello) = some
    (.tooManyTrackedPackets, [.updatesAsked false [], .drained .initial lostHello,
      .queued (some .primary) (.stopWaiting .one), .packedHandshake .primary lostHello newHello,
      .failed .send .primary .tooManyTrackedPackets]) := by
  decide +kernel

theorem failedEvents?_fullUpdate : failedEvents? (send Script.session 1 fullUpdate) = some
    (.tooManyTrackedPackets, [.updatesAsked false [], .packed .primary none,
      .updatesAsked true [⟨⟨5⟩, 4096⟩], .queued (some .initial) (.windowUpdate ⟨⟨5⟩, 4096⟩),
      .queued (some .primary) (.windowUpdate ⟨⟨5⟩, 4096⟩),
      .queued (some .primary) (.stopWaiting .one),
      .packed .primary (some (rejected [.windowUpdate ⟨⟨5⟩, 4096⟩, .stopWaiting .one] 100)),
      .failed .send .primary .tooManyTrackedPackets]) := by
  decide +kernel

/-- Data goes out in a packet of the packer's choice. -/
theorem failedEvents?_fullData :
    failedEvents? (send Script.session 1 (fullRecord [] { data := [[⟨⟨5⟩, 1000, false⟩]] })) = some
      (.tooManyTrackedPackets, [.updatesAsked false [],
        .packed .primary (some (rejected [.stream ⟨⟨5⟩, 0, 1000, false⟩] 1100)),
        .failed .send .primary .tooManyTrackedPackets,
        .agent (.endEpisode ⟨1⟩ Reward.penalty false)]) := rfl

/-- **Which full records end the episode.**  For every session, every set of paths and every state
of a scheduler that is being trained: a run that fails because a record of sent packets is full has
entered the failed call last, and after it, if and only if the packer was to build the packet or
had just built it, the end of the episode with the penalty.  A handshake packet that goes out
again, a sign of life and the flush leave the episode open.  On every path, what the books and the
quota count is what was sent before the failed call. -/
theorem send_overflows (S : Session σ) (n : Nat) (c c' : Connection σ)
    (htrains : c.scheduler.Trains) (h : send S n c = .error .tooManyTrackedPackets c') :
    ∃ before call failed,
      c'.events = c.events ++ (before ++ .failed call failed .tooManyTrackedPackets ::
        closing c.scheduler before call) ∧
      (∀ id ∈ c.paths.ids, (c'.path id).sent =
        { (c.path id).sent with
          packets := (c.path id).sent.packets + UInt64.ofNat (sentOn id before).length
          bytes := (c.path id).sent.bytes + ((sentOn id before).map (·.length)).sum }) ∧
      ∀ id, c'.scheduler.quota id =
        c.scheduler.quota id + (builtFor id (inRounds before)).length := by
  obtain ⟨before, call, failed, hbefore, hevents⟩ := overflow_events htrains h
  have hleft : left (send S n c) = c' := by rw [h, left]
  have hunsent : ∀ x ∈ .failed call failed .tooManyTrackedPackets ::
      closing c.scheduler before call, x.isSent = false := by
    intro x hx
    rcases List.mem_cons.mp hx with rfl | hx
    · rfl
    · unfold closing at hx
      split at hx
      · rw [List.mem_singleton.mp hx]
        rfl
      · cases hx
  refine ⟨before, call, failed, hevents, fun id hid => ?_, fun id => ?_⟩
  · obtain ⟨evs, hgrown, hbooks⟩ := (tame_entered S).keeps_send entered_takeAck n c
    rw [hleft] at hgrown hbooks
    obtain rfl := List.append_cancel_left (hgrown.symm.trans hevents)
    rw [show (c'.path id).sent = _ from
      PathSet.sent_get_of_books (g := fun i s => s.entering (sentOn i _)) hbooks hid,
      sentOn_append, sentOn_of_unsent hunsent, List.append_nil]
    rfl
  · have hquota := quota_send (S := S) (n := n) (hleft ▸ hevents) id
    rwa [hleft, builtFor_inRounds_append hbefore hunsent] at hquota

/-- Data that cannot be sent ends the episode: the call concerns a packet of the packer's choice. -/
theorem send_overflows_fullData :
    (fullRecord [] { data := [[⟨⟨5⟩, 1000, false⟩]] }).scheduler.Trains ∧
    ∃ c' before call failed,
      send Script.session 1 (fullRecord [] { data := [[⟨⟨5⟩, 1000, false⟩]] }) =
        .error .tooManyTrackedPackets c' ∧ concernsChoice before call = true ∧
      c'.events = before ++ [.failed call failed .tooManyTrackedPackets,
        .agent (.endEpisode ⟨1⟩ Reward.penalty false)] ∧
      ∀ id, c'.scheduler.quota id = (builtFor id (inRounds before)).length := by
  have htrains : (fullRecord [] { data := [[⟨⟨5⟩, 1000, false⟩]] }).scheduler.Trains :=
    ⟨rfl, rfl, rfl⟩
  obtain ⟨c', hrun, hevents⟩ := failedEvents?_eq_some failedEvents?_fullData
  obtain ⟨before, call, failed, hjournal, -, hquota⟩ := send_overflows _ _ _ _ htrains hrun
  have hchoice : concernsChoice before call = true := by
    cases hchoice : concernsChoice before call with
    | true => rfl
    | false =>
        -- then the failed call would be the last entry
        rw [closing, if_neg (by simp [hchoice])] at hjournal
        have hlast := congrArg List.getLast? (hevents.symm.trans hjournal)
        simp [fullRecord] at hlast
  rw [closing, if_pos hchoice] at hjournal
  exact ⟨htrains, c', before, call, failed, hrun, hchoice, hjournal,
    fun id => (hquota id).trans (Nat.zero_add _)⟩

/-- **Full records that leave the episode open.**  A handshake packet that goes out again and a
window update in the flush find the record full, and the agent never hears of it. -/
theorem overflow_unheard :
    fullHello.scheduler.Trains ∧ fullUpdate.scheduler.Trains ∧
    (∃ c', send Script.session 1 fullHello = .error .tooManyTrackedPackets c' ∧
      ∀ call, .agent call ∉ c'.events) ∧
    ∃ c', send Script.session 1 fullUpdate = .error .tooManyTrackedPackets c' ∧
      ∀ call, .agent call ∉ c'.events := by
  obtain ⟨c₁, hrun₁, hevents₁⟩ := failedEvents?_eq_some failedEvents?_fullHello
  obtain ⟨c₂, hrun₂, hevents₂⟩ := failedEvents?_eq_some failedEvents?_fullUpdate
  exact ⟨⟨rfl, rfl, rfl⟩, ⟨rfl, rfl, rfl⟩, ⟨c₁, hrun₁, by simp [hevents₁]⟩,
    c₂, hrun₂, by simp [hevents₂]⟩

end Connection

end Multipath
