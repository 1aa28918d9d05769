import Multipath.Proofs.Connection.Rounds
import Multipath.Proofs.Path.Waiting
import Multipath.Session.Scripted

/-!
# What taking back comes to

All that taking back does is determined by the packets that wait and by what the session answers at
the start, as long as the session does not change its answers in between.

* `reached`: the packets that are taken, all that wait or those up to a handshake packet.
* `Frame.delivery?`, `Packet.deliveries`: where the frames of a packet go that is taken apart.
* `Lasts`: the session does not change its answers while these deliveries are made.
* `takesBack_covering`, `TakesBack.takeBackUpTo_eq`: as many turns as packets wait are enough, and
  more change nothing.
* `takeBack_drains`: taking back ends, and what it takes, leaves, delivers, answers and counts.
-/

namespace Multipath

variable {σ : Type} {S : Session σ}

/-! ### Where frames go -/

/-- What becomes of a frame that has to be sent again. -/
inductive Delivery where
  /-- A piece of a stream is handed back to the session. -/
  | returned (frame : StreamFrame)
  /-- The frame is queued again for the path it came from. -/
  | requeued (origin : PathId) (frame : Frame)
  /-- A new announcement of the paths is scheduled. -/
  | announced
deriving DecidableEq, Repr

namespace Delivery

/-- The entry in the journal. -/
def event : Delivery → Event
  | .returned frame => .streamReturned frame
  | .requeued origin frame => .queued (some origin) frame
  | .announced => .pathsScheduled

/-- The session after the delivery. -/
def after (S : Session σ) (s : σ) : Delivery → σ
  | .returned frame => S.returnStream s frame
  | .requeued origin frame => S.queueControl s frame (some origin)
  | .announced => S.schedulePaths s

end Delivery

/-- The session after these deliveries, one after the other. -/
def Session.deliver (S : Session σ) (s : σ) (ds : List Delivery) : σ :=
  ds.foldl (Delivery.after S) s

/-- Where a frame from path `origin` goes, if it is not dropped.  Acknowledgements and stop-waiting
notices are dropped, and so are window updates of streams that are closed or whose window has
moved further. -/
def Frame.delivery? (window : StreamId → Option ByteCount) (origin : PathId) :
    Frame → Option Delivery
  | .ack _ => none
  | .stopWaiting _ => none
  | .stream f => some (.returned f)
  | .windowUpdate f =>
    match window f.stream with
    | some current =>
      if current ≤ f.offset then some (.requeued origin (.windowUpdate f)) else none
    | none => none
  | .paths _ _ => some .announced
  | frame => some (.requeued origin frame)

/-- Where the frames of a packet from path `origin` go, in order.  A handshake packet is not taken
apart. -/
def Packet.deliveries (window : StreamId → Option ByteCount) (origin : PathId) (p : Packet) :
    List Delivery :=
  if p.isHandshake then [] else p.frames.filterMap (·.delivery? window origin)

/-! ### How far taking back goes -/

/-- The packets that are taken among those that wait: all of them if the handshake is complete, and
otherwise those up to the first handshake packet. -/
def reached (complete : Bool) : List (PathId × Packet) → List (PathId × Packet)
  | [] => []
  | e :: rest => if e.2.isHandshake && !complete then [e] else e :: reached complete rest

/-- The first handshake packet among those that wait, unless the handshake is complete. -/
def stopper? (complete : Bool) (waiting : List (PathId × Packet)) : Option Packet :=
  (waiting.find? fun e => e.2.isHandshake && !complete).map (·.2)

theorem reached_of_none {complete : Bool} {l : List (PathId × Packet)}
    (h : complete = true ∨ ∀ e ∈ l, e.2.isHandshake = false) :
    reached complete l = l ∧ stopper? complete l = none := by
  have hgo : ∀ e ∈ l, (e.2.isHandshake && !complete) = false := by
    intro e he
    rcases h with rfl | h
    · simp
    · simp [h e he]
  refine ⟨?_, by simpa [stopper?] using hgo⟩
  clear h
  induction l with
  | nil => rfl
  | cons e rest ih =>
      simp [reached, hgo e List.mem_cons_self,
        ih fun e' he' => hgo e' (List.mem_cons_of_mem _ he')]

theorem reached_of_first {before : List (PathId × Packet)} {lost : Packet} (id : PathId)
    (after : List (PathId × Packet)) (hbefore : ∀ e ∈ before, e.2.isHandshake = false)
    (hlost : lost.isHandshake = true) :
    reached false (before ++ (id, lost) :: after) = before ++ [(id, lost)] ∧
      stopper? false (before ++ (id, lost) :: after) = some lost := by
  induction before with
  | nil => simp [reached, stopper?, hlost]
  | cons e rest ih =>
      obtain ⟨hreached, hstopper⟩ := ih fun e' he' => hbefore e' (List.mem_cons_of_mem _ he')
      have he := hbefore e List.mem_cons_self
      refine ⟨by simp [reached, he, hreached], ?_⟩
      simpa [stopper?, he] using hstopper

theorem reached_stop {complete : Bool} {e : PathId × Packet} {rest : List (PathId × Packet)}
    (h : (e.2.isHandshake && !complete) = true) : reached complete (e :: rest) = [e] := by
  rw [reached, if_pos h]

theorem reached_go {complete : Bool} {e : PathId × Packet} {rest : List (PathId × Packet)}
    (h : (e.2.isHandshake && !complete) = false) :
    reached complete (e :: rest) = e :: reached complete rest := by
  rw [reached, if_neg (by simp [h])]

theorem reached_prefix (complete : Bool) (l : List (PathId × Packet)) :
    reached complete l <+: l := by
  induction l with
  | nil => exact List.nil_prefix
  | cons e rest ih =>
      cases h : e.2.isHandshake && !complete with
      | true =>
          rw [reached_stop h]
          exact ⟨rest, rfl⟩
      | false =>
          rw [reached_go h]
          exact (List.prefix_cons_inj e).mpr ih

/-- The deliveries made for packets that are taken. -/
def deliveries (window : StreamId → Option ByteCount) (taken : List (PathId × Packet)) :
    List Delivery :=
  taken.flatMap fun e => e.2.deliveries window e.1

/-- The entries in the journal for packets that are taken: each packet, and then where its frames
go. -/
def entries (window : StreamId → Option ByteCount) (taken : List (PathId × Packet)) : List Event :=
  taken.flatMap fun e => .drained e.1 e.2 :: (e.2.deliveries window e.1).map (·.event)

/-- What is found in the end, given what was found before and the packets that wait. -/
def Recovery.covering (found : Recovery) (complete : Bool) (waiting : List (PathId × Packet)) :
    Recovery where
  any := found.any || !waiting.isEmpty
  handshake := (stopper? complete waiting).or found.handshake
  origin := ((reached complete waiting).getLast?.map (·.1)).or found.origin

namespace Recovery

variable {found : Recovery} {complete : Bool} {e : PathId × Packet}
  {rest : List (PathId × Packet)}

theorem covering_nil : found.covering complete [] = found := by
  simp [covering, stopper?, reached]

theorem covering_stop (h : (e.2.isHandshake && !complete) = true) :
    found.covering complete (e :: rest) =
      { any := true, origin := some e.1, handshake := some e.2 } := by
  simp [covering, reached_stop h, stopper?, h]

theorem covering_go (h : (e.2.isHandshake && !complete) = false) :
    found.covering complete (e :: rest) =
      { found with any := true, origin := some e.1 }.covering complete rest := by
  have horigin : ((e :: reached complete rest).getLast?.map (·.1)).or found.origin =
      ((reached complete rest).getLast?.map (·.1)).or (some e.1) := by
    rw [List.getLast?_cons]
    cases (reached complete rest).getLast? <;> rfl
  simp [covering, reached_go h, stopper?, h, horigin]

end Recovery

/-! ### Answers that last -/

/-- While these deliveries are made, the session goes on to give the same answers about the
handshake and the receive windows. -/
def Lasts (S : Session σ) (complete : Bool) (window : StreamId → Option ByteCount) (s : σ)
    (ds : List Delivery) : Prop :=
  ∀ made, made <+: ds → S.handshakeComplete (S.deliver s made) = complete ∧
    S.receiveWindow (S.deliver s made) = window

namespace Lasts

variable {complete : Bool} {window : StreamId → Option ByteCount} {s : σ} {ds ds' : List Delivery}

theorem now (h : Lasts S complete window s ds) :
    S.handshakeComplete s = complete ∧ S.receiveWindow s = window :=
  h [] List.nil_prefix

theorem left (h : Lasts S complete window s (ds ++ ds')) : Lasts S complete window s ds :=
  fun made hmade => h made (hmade.trans (List.prefix_append ds ds'))

theorem right (h : Lasts S complete window s (ds ++ ds')) :
    Lasts S complete window (S.deliver s ds) ds' := by
  intro made hmade
  have := h (ds ++ made) ((List.prefix_append_right_inj ds).mpr hmade)
  rwa [Session.deliver, List.foldl_append] at this

end Lasts

/-- A scripted session does not change its answers while frames are handed back to it. -/
theorem Script.lasts_session (s : Script) (ds : List Delivery) :
    Lasts Script.session s.handshakeComplete (Script.session.receiveWindow s) s ds := by
  have hkeeps : ∀ made : List Delivery,
      (Script.session.deliver s made).handshakeComplete = s.handshakeComplete ∧
        (Script.session.deliver s made).windows = s.windows := by
    intro made
    induction made generalizing s with
    | nil => exact ⟨rfl, rfl⟩
    | cons d rest ih =>
        obtain ⟨hcomplete, hwindows⟩ := ih (d.after Script.session s)
        rw [Session.deliver, List.foldl_cons]
        cases d <;> exact ⟨hcomplete, hwindows⟩
  intro made _
  obtain ⟨hcomplete, hwindows⟩ := hkeeps made
  refine ⟨hcomplete, funext fun stream => ?_⟩
  simp only [Script.session] at hwindows ⊢
  rw [hwindows]

namespace Connection

variable {window : StreamId → Option ByteCount} {complete : Bool} {found recovery : Recovery}
  {c c' : Connection σ} {id : PathId} {packet : Packet}

/-! ### Taking a packet apart -/

/-- These deliveries are made, each with its entry in the journal. -/
def delivered (S : Session σ) (c : Connection σ) (ds : List Delivery) : Connection σ :=
  ds.foldl (fun c d => ⟨c.scheduler.note d.event, c.paths, d.after S c.session⟩) c

theorem delivered_eq (ds : List Delivery) : c.delivered S ds =
    ⟨{ c.scheduler with journal := c.scheduler.journal ++ (ds.map (·.event)).toArray }, c.paths,
      S.deliver c.session ds⟩ := by
  induction ds generalizing c with
  | nil => simp [delivered, Session.deliver]
  | cons d rest ih =>
      have hrest := @ih ⟨c.scheduler.note d.event, c.paths, d.after S c.session⟩
      simp only [delivered, List.foldl_cons] at hrest ⊢
      rw [hrest]
      simp [Session.deliver, Scheduler.note]

theorem events_delivered (ds : List Delivery) :
    (c.delivered S ds).events = c.events ++ ds.map (·.event) := by
  rw [delivered_eq]
  simp [events]

theorem delivered_append (ds ds' : List Delivery) :
    c.delivered S (ds ++ ds') = (c.delivered S ds).delivered S ds' :=
  List.foldl_append

/-- A frame goes where it has to go. -/
theorem redistribute_eq (id : PathId) (frame : Frame) (hframe : frame.isRetransmittable = true)
    (hwindow : S.receiveWindow c.session = window) :
    redistribute S id frame c = .ok () (c.delivered S (frame.delivery? window id).toList) := by
  cases frame with
  | ack f => cases hframe
  | stopWaiting n => cases hframe
  | windowUpdate f =>
      subst hwindow
      simp only [redistribute, get_bind]
      cases hopen : S.receiveWindow c.session f.stream with
      | none => simp [Frame.delivery?, hopen, delivered]; rfl
      | some current =>
          by_cases hle : current ≤ f.offset
          · simp only [Frame.delivery?, hopen, Option.any_some, hle, decide_true, if_true]
            rfl
          · simp only [Frame.delivery?, hopen, Option.any_some, hle, decide_false, if_false]
            rfl
  | _ => rfl

/-- Frames that are dropped make no difference to where the frames of a packet go. -/
theorem filterMap_framesToResend (p : Packet) :
    p.framesToResend.filterMap (·.delivery? window id) =
      p.frames.filterMap (·.delivery? window id) := by
  rw [Packet.framesToResend, List.filterMap_filter]
  congr 1
  funext frame
  cases frame <;> rfl

/-- While the session's answers last, all frames go where they have to go. -/
theorem redistribute_frames {frames : List Frame}
    (hframes : ∀ frame ∈ frames, frame.isRetransmittable = true)
    (hlasts : Lasts S complete window c.session (frames.filterMap (·.delivery? window id))) :
    frames.forM (redistribute S id) c =
      .ok () (c.delivered S (frames.filterMap (·.delivery? window id))) := by
  induction frames generalizing c with
  | nil => rfl
  | cons frame rest ih =>
      have hsplit : (frame :: rest).filterMap (·.delivery? window id) =
          (frame.delivery? window id).toList ++ rest.filterMap (·.delivery? window id) := by
        cases h : frame.delivery? window id <;> simp [h]
      rw [hsplit] at hlasts ⊢
      have hfirst := redistribute_eq id frame (hframes frame List.mem_cons_self)
        hlasts.now.2
      have hrest := ih (c := c.delivered S (frame.delivery? window id).toList)
        (fun f hf => hframes f (List.mem_cons_of_mem _ hf))
        (by rw [delivered_eq]; exact hlasts.right)
      rw [delivered_append, ← hrest]
      exact bind_of_ok hfirst

/-! ### Taking back packet by packet -/

/-- The connection after one packet was taken and its frames went where they have to go. -/
def recovered (S : Session σ) (window : StreamId → Option ByteCount) (c : Connection σ)
    (e : PathId × Packet) : Connection σ :=
  (c.drained e.1 e.2 (c.paths.without [e])).delivered S (e.2.deliveries window e.1)

/-- **Taking back comes to its end**, where the packets reached are gone from their queues and
their frames are where they have to go. -/
theorem takesBack_covering
    (hlasts : Lasts S complete window c.session
      (deliveries window (reached complete c.paths.waiting))) :
    TakesBack S found c (found.covering complete c.paths.waiting)
      ((reached complete c.paths.waiting).foldl (recovered S window) c) := by
  generalize hw : c.paths.waiting = waiting at hlasts ⊢
  induction waiting generalizing c found with
  | nil =>
      rw [Recovery.covering_nil]
      exact .stop (PathSet.dequeue?_eq_none_iff.mpr hw)
  | cons e rest ih =>
      obtain ⟨id, packet⟩ := e
      obtain ⟨paths, hdequeue, hrest⟩ := PathSet.dequeue?_of_waiting hw
      have hcomplete := hlasts.now.1
      have hafter : recovered S window c (id, packet) =
          (c.drained id packet paths).delivered S (packet.deliveries window id) := by
        rw [recovered, PathSet.eq_without_of_dequeue? hdequeue]
      cases hstops : packet.isHandshake && !complete with
      | true =>
          obtain ⟨hlevel, rfl⟩ : packet.isHandshake = true ∧ complete = false := by
            simpa using hstops
          rw [Recovery.covering_stop hstops, reached_stop hstops, List.foldl_cons, List.foldl_nil,
            hafter, Packet.deliveries, if_pos hlevel]
          exact .handshake hdequeue hlevel hcomplete
      | false =>
          rw [reached_go hstops, deliveries, List.flatMap_cons] at hlasts
          have hnext := @ih { found with any := true, origin := some id }
            (recovered S window c (id, packet))
            (by rw [hafter, delivered_eq, paths_drained, hrest])
            (by rw [hafter, delivered_eq]; exact hlasts.right)
          rw [Recovery.covering_go hstops, reached_go hstops, List.foldl_cons]
          cases hlevel : packet.isHandshake with
          | true =>
              obtain rfl : complete = true := by simpa [hlevel] using hstops
              rw [hafter, Packet.deliveries, if_pos hlevel] at hnext ⊢
              exact .drop hdequeue hlevel hcomplete hnext
          | false =>
              refine .apart hdequeue hlevel ?_ hnext
              have hframes : packet.deliveries window id =
                  packet.framesToResend.filterMap (·.delivery? window id) := by
                rw [Packet.deliveries, hlevel, if_neg Bool.false_ne_true,
                  filterMap_framesToResend]
              rw [hafter, hframes]
              refine redistribute_frames (fun frame hframe => ?_) (hframes ▸ hlasts.left)
              exact (List.mem_filter.mp hframe).2

/-- A turn that finds a packet. -/
theorem takeBackUpTo_succ {n : Nat} {paths : PathSet}
    (h : c.paths.dequeue? = some (id, packet, paths)) :
    takeBackUpTo S (n + 1) found c =
      (if packet.isHandshake then
        if S.handshakeComplete c.session then
          takeBackUpTo S n { found with any := true, origin := some id }
        else pure { any := true, origin := some id, handshake := some packet }
      else do
        packet.framesToResend.forM (redistribute S id)
        takeBackUpTo S n { found with any := true, origin := some id })
      (c.drained id packet paths) := by
  simp only [takeBackUpTo, get_bind, h, set_bind, note_bind]
  cases packet.isHandshake with
  | true =>
      simp only [if_true, get_bind]
      split <;> rfl
  | false => rfl

/-- With at least as many turns as packets wait, taking back comes to its end. -/
theorem TakesBack.takeBackUpTo_eq (h : TakesBack S found c recovery c') {n : Nat}
    (hn : c.paths.pending ≤ n) : takeBackUpTo S n found c = .ok recovery c' := by
  -- a packet that is taken leaves one less to wait, and takes one of the turns
  have hturn : ∀ {c : Connection σ} {id packet paths n}, c.paths.pending ≤ n →
      c.paths.dequeue? = some (id, packet, paths) → ∃ m, n = m + 1 ∧ paths.pending ≤ m := by
    intro c id packet paths n hn hdequeue
    rw [PathSet.pending, PathSet.queued_of_dequeue? hdequeue, List.length_cons] at hn
    exact ⟨n - 1, by omega, by rw [PathSet.pending]; omega⟩
  induction h generalizing n with
  | stop hdequeue =>
      cases n with
      | zero => rfl
      | succ n =>
          simp only [takeBackUpTo, get_bind, hdequeue]
          rfl
  | drop hdequeue hlevel hcomplete _ ih =>
      obtain ⟨m, rfl, hm⟩ := hturn hn hdequeue
      rw [takeBackUpTo_succ hdequeue, if_pos hlevel, if_pos hcomplete]
      exact ih hm
  | handshake hdequeue hlevel hcomplete =>
      obtain ⟨m, rfl, hm⟩ := hturn hn hdequeue
      rw [takeBackUpTo_succ hdequeue, if_pos hlevel, if_neg (by simp [hcomplete])]
      rfl
  | apart hdequeue hlevel hframes _ ih =>
      obtain ⟨m, rfl, hm⟩ := hturn hn hdequeue
      have hpaths := (keeps_forM accrues_paths fun frame _ =>
        keeps_paths_redistribute _ frame).ok hframes
      rw [takeBackUpTo_succ hdequeue, if_neg (by simp [hlevel]), bind_of_ok hframes]
      exact ih (hpaths ▸ hm)

/-! ### What is left, and where everything went -/

theorem paths_recovered (e : PathId × Packet) :
    (recovered S window c e).paths = c.paths.without [e] := by
  rw [recovered, delivered_eq, paths_drained]

theorem foldl_recovered_paths (taken : List (PathId × Packet)) :
    (taken.foldl (recovered S window) c).paths = c.paths.without taken := by
  induction taken generalizing c with
  | nil => exact PathSet.without_nil.symm
  | cons e taken ih =>
      rw [List.foldl_cons, ih, paths_recovered, ← PathSet.without_append, List.singleton_append]

theorem foldl_recovered_session (taken : List (PathId × Packet)) :
    (taken.foldl (recovered S window) c).session =
      S.deliver c.session (deliveries window taken) := by
  induction taken generalizing c with
  | nil => rfl
  | cons e taken ih =>
      rw [List.foldl_cons, ih, recovered, delivered_eq, deliveries, deliveries, List.flatMap_cons,
        Session.deliver, Session.deliver, Session.deliver, List.foldl_append]
      rfl

theorem foldl_recovered_events (taken : List (PathId × Packet)) :
    (taken.foldl (recovered S window) c).events = c.events ++ entries window taken := by
  induction taken generalizing c with
  | nil => simp [entries]
  | cons e taken ih =>
      rw [List.foldl_cons, ih, recovered, events_delivered, events_drained, entries, entries,
        List.flatMap_cons]
      simp

theorem foldl_recovered_counts (taken : List (PathId × Packet)) (id : PathId) :
    (taken.foldl (recovered S window) c).scheduler.drained.count id =
      c.scheduler.drained.count id + PathSet.share taken id := by
  induction taken generalizing c with
  | nil => rfl
  | cons e taken ih =>
      have hcount : (recovered S window c e).scheduler.drained = c.scheduler.drained.bump e.1 := by
        rw [recovered, delivered_eq]
        rfl
      rw [List.foldl_cons, ih, hcount, Tally.count_bump, PathSet.share, PathSet.share,
        List.countP_cons]
      by_cases hid : id = e.1
      · simp [hid]
        omega
      · simp [hid, Ne.symm hid]

theorem foldl_recovered_scheduler (taken : List (PathId × Packet)) :
    (taken.foldl (recovered S window) c).scheduler =
      { c.scheduler with
        drained := (taken.foldl (recovered S window) c).scheduler.drained
        journal := (taken.foldl (recovered S window) c).scheduler.journal } := by
  induction taken generalizing c with
  | nil => rfl
  | cons e taken ih =>
      rw [List.foldl_cons, ih, recovered, delivered_eq]
      rfl

/-- What taking back does to a connection whose session answers `complete` about the handshake and
`window` about the receive windows: the packets `taken` are taken, and `rest` are left. -/
structure Drains (S : Session σ) (complete : Bool) (window : StreamId → Option ByteCount)
    (taken rest : List (PathId × Packet)) (c : Connection σ) (recovery : Recovery)
    (c' : Connection σ) : Prop where
  /-- The packets are taken in the order in which they wait. -/
  order : c.paths.waiting = taken ++ rest
  /-- With the handshake complete, or with no handshake packet, every queue ends empty. -/
  all : (complete = true ∨ ∀ e ∈ c.paths.waiting, e.2.isHandshake = false) →
    (∀ p ∈ c'.paths, p.queue = []) ∧ recovery.handshake = none
  /-- Otherwise the first handshake packet is the last one taken, and it is found. -/
  first : ∀ before id lost after, complete = false →
    c.paths.waiting = before ++ (id, lost) :: after →
    (∀ e ∈ before, e.2.isHandshake = false) → lost.isHandshake = true →
    taken = before ++ [(id, lost)] ∧ rest = after ∧ recovery.handshake = some lost
  /-- Each queue has lost from its front what was taken from it, and nothing else has happened to
  the paths. -/
  paths : c'.paths = c.paths.without taken
  waiting : c'.paths.waiting = rest
  /-- The frames of the packets taken have gone where they have to go, in order. -/
  session : c'.session = S.deliver c.session (deliveries window taken)
  events : c'.events = c.events ++ entries window taken
  any : recovery.any = true ↔ ∃ p ∈ c.paths, p.queue ≠ []
  origin : recovery.origin = taken.getLast?.map (·.1)
  /-- Each path's count has grown by the packets taken from it. -/
  counts : ∀ id, c'.scheduler.drained.count id =
    c.scheduler.drained.count id + PathSet.share taken id
  scheduler : c'.scheduler =
    { c.scheduler with drained := c'.scheduler.drained, journal := c'.scheduler.journal }

/-- **Taking back drains the queues.**  While the session's answers about the handshake and the
receive windows last, taking back ends by itself: with at least as many turns as packets wait it
comes to the same.  It takes the packets path by path and of each path the oldest first, up to a
handshake packet that has to be sent again, and each frame of the packets taken goes where it has
to go. -/
theorem takeBack_drains (hlasts : Lasts S complete window c.session
    (deliveries window (reached complete c.paths.waiting))) :
    ∃ recovery c' rest, takeBack S c = .ok recovery c' ∧
      (∀ n, c.paths.pending ≤ n → takeBackUpTo S n {} c = .ok recovery c') ∧
      Drains S complete window (reached complete c.paths.waiting) rest c recovery c' := by
  have htakes : TakesBack S {} c _ _ := takesBack_covering hlasts
  obtain ⟨rest, horder⟩ := reached_prefix complete c.paths.waiting
  refine ⟨_, _, rest, htakes.takeBackUpTo_eq (Nat.le_refl _),
    fun n hn => htakes.takeBackUpTo_eq hn, ?_⟩
  have hpaths : ((reached complete c.paths.waiting).foldl (recovered S window) c).paths
      = c.paths.without (reached complete c.paths.waiting) := foldl_recovered_paths _
  have hwaiting := (congrArg PathSet.waiting hpaths).trans
    (PathSet.waiting_without horder.symm)
  refine
    { order := horder.symm
      all := fun h => ?_
      first := fun before id lost after hcomplete hwait hbefore hlost => ?_
      paths := hpaths
      waiting := hwaiting
      session := foldl_recovered_session _
      events := foldl_recovered_events _
      any := ?_
      origin := ?_
      counts := foldl_recovered_counts _
      scheduler := foldl_recovered_scheduler _ }
  · obtain ⟨hreached, hstopper⟩ := reached_of_none h
    have hrest : rest = [] := by simpa [hreached] using horder
    refine ⟨PathSet.waiting_eq_nil_iff.mp (hwaiting.trans hrest), ?_⟩
    simp [Recovery.covering, hstopper]
  · subst hcomplete
    obtain ⟨hreached, hstopper⟩ := reached_of_first id after hbefore hlost
    rw [← hwait] at hreached hstopper
    refine ⟨hreached, ?_, by simp [Recovery.covering, hstopper]⟩
    rw [hreached, hwait, List.append_assoc] at horder
    exact (List.cons.inj (List.append_cancel_left horder)).2
  · rw [← PathSet.waiting_ne_nil_iff]
    simp [Recovery.covering]
  · simp [Recovery.covering]

/-! ### Losses of all kinds -/

/-- A lost packet of application data: an acknowledgement, pieces of two streams, window updates of
an open stream, one of them overtaken, and of a closed stream, an announcement and a ping. -/
def lostData : Packet where
  number := .one
  frames := [.ack ⟨.one, .one, ⟨0⟩, [], 0, 0, 0, 10⟩, .stream ⟨⟨5⟩, 0, 100, false⟩,
    .windowUpdate ⟨⟨5⟩, 4000⟩, .windowUpdate ⟨⟨5⟩, 3999⟩, .windowUpdate ⟨⟨7⟩, 9000⟩,
    .paths [.initial] [.zero], .ping, .stopWaiting .one, .stream ⟨⟨3⟩, 50, 20, true⟩]
  length := 400
  level := .forwardSecure
  deadline := none

/-- A lost handshake packet. -/
def lostGreeting : Packet := ⟨.one, [.stream ⟨⟨1⟩, 0, 200, false⟩], 300, .secure, none⟩

/-- Data is lost on the initial path, and a handshake packet and more data on another one, while
the handshake goes on. -/
def mixedLosses : Connection Script where
  scheduler := .new {} {} ⟨1⟩ ⟨0⟩ none default default
  paths := (PathSet.empty.insert ((Path.new .initial {} default).queueLost lostData)).insert
    (((Path.new .primary {} default).queueLost lostGreeting).queueLost lostData)
  session := { handshakeComplete := false, windows := [(⟨5⟩, 4000)] }

/-- Taking back stops at the handshake packet and leaves the data behind it.  Of the frames of the
data before it, one window update, the ping and the announcement go out again, and the pieces of
the streams are returned. -/
theorem takeBack_drains_mixedLosses :
    ∃ recovery c', takeBack Script.session mixedLosses = .ok recovery c' ∧
      Drains Script.session false (Script.session.receiveWindow mixedLosses.session)
        [(.initial, lostData), (.primary, lostGreeting)] [(.primary, lostData)] mixedLosses recovery
        c' ∧
      recovery.handshake = some lostGreeting ∧ recovery.origin = some .primary ∧
      c'.events = [.drained .initial lostData, .streamReturned ⟨⟨5⟩, 0, 100, false⟩,
        .queued (some .initial) (.windowUpdate ⟨⟨5⟩, 4000⟩), .pathsScheduled,
        .queued (some .initial) .ping, .streamReturned ⟨⟨3⟩, 50, 20, true⟩,
        .drained .primary lostGreeting] := by
  have hwaiting : mixedLosses.paths.waiting =
      [(.initial, lostData)] ++ (.primary, lostGreeting) :: [(.primary, lostData)] := by
    decide +kernel
  have hreached : reached mixedLosses.session.handshakeComplete mixedLosses.paths.waiting =
      [(.initial, lostData), (.primary, lostGreeting)] := by decide +kernel
  obtain ⟨recovery, c', rest, hrun, -, hdrains⟩ := takeBack_drains (S := Script.session)
    (c := mixedLosses) (Script.lasts_session _ _)
  rw [hreached] at hdrains
  obtain ⟨-, rfl, hlost⟩ := hdrains.first _ _ _ _ rfl hwaiting (by decide) rfl
  refine ⟨recovery, c', hrun, hdrains, hlost, hdrains.origin, ?_⟩
  rw [hdrains.events]
  decide +kernel

end Connection

end Multipath
