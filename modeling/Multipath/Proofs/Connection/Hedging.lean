import Multipath.Proofs.Connection.Draining
import Multipath.Proofs.Connection.Steadiness
import Multipath.Proofs.Scheduler.Best

/-!
# Copies of packets, and where they move

A round that makes a copy of a packet leaves nothing else to be taken back: the queues were emptied
at its beginning.  The next round takes back the copy alone, and if it brings a piece of a stream
with it, the lowest round-trip time looks for another path with a lower quota.  The path that made
the copy necessary is one, so the copy moves.

A path that has carried the packet has a quota at least as high as each path after it, and only a
path with a lower quota comes next.  So no path comes twice.

* `Recalls`: the session knows that pieces of streams were handed back.
* `CopyWaits`: the copy is all there is to take back.  `CopyRound`: the steps of a round that makes
  a copy; such a round leaves it so.
* `CopyWaits.moves`: what the next round takes back, and the path it chooses.
* `Chain`: rounds of a run, one after the other, each of which makes a copy.
* `copies_move`: where a copy moves, and how long a chain can be.
-/

namespace Multipath

variable {σ : Type} {S : Session σ}

/-- Pieces of streams that were handed back wait to be sent again, whatever else is queued. -/
structure Recalls (S : Session σ) : Prop where
  returnStream : ∀ s frame, S.hasReturnedStreams (S.returnStream s frame) = true
  queueControl : ∀ {s frame target}, S.hasReturnedStreams s = true →
    S.hasReturnedStreams (S.queueControl s frame target) = true
  schedulePaths : ∀ {s}, S.hasReturnedStreams s = true →
    S.hasReturnedStreams (S.schedulePaths s) = true

theorem Script.recalls_tireless : Recalls Script.tireless where
  returnStream s frame := by simp [Script.tireless, Script.session]
  queueControl h := h
  schedulePaths h := h

theorem Path.queueCopy_id (packet : Packet) (p : Path) : (p.queueCopy packet).id = p.id := rfl

namespace PathSet

variable {s s' : PathSet} {p q : Path} {id : PathId} {packet : Packet}

/-! ### Paths and what they show -/

theorem face_get_of_mem (h : s.faces = s'.faces) (hid : id ∈ s.ids) :
    (s.get id).face = (s'.get id).face := by
  obtain ⟨q, hq, hface⟩ := mem_faces.mp (h ▸ mem_faces.mpr ⟨s.get id, get_mem hid, rfl⟩)
  have hqid : q.id = id := (congrArg Face.id hface).trans get_id
  rw [← hface, ← hqid, get_of_mem hq]

theorem ids_congr (h : s.faces = s'.faces) : s.ids = s'.ids := by
  have hshown : ∀ t : PathSet, t.ids = t.faces.map (·.id) := fun t => by
    rw [faces, List.map_map]
    rfl
  rw [hshown, hshown, h]

/-- The numbers of the additional paths are shown. -/
theorem additional_ids_congr (h : s.faces = s'.faces) :
    s.additional.map (·.id) = s'.additional.map (·.id) := by
  have hshown : ∀ t : PathSet,
      t.additional.map (·.id) = (t.faces.filter (!·.isInitial)).map (·.id) := by
    intro t
    rw [faces, List.filter_map, List.map_map]
    rfl
  rw [hshown, hshown, h]

theorem two_le_size (hp : p ∈ s) (hq : q ∈ s) (hne : p.id ≠ q.id) : 2 ≤ s.size := by
  change p ∈ s.toList at hp
  change q ∈ s.toList at hq
  unfold size
  match hlist : s.toList with
  | [] => simp [hlist] at hp
  | [r] =>
      simp only [hlist, List.mem_singleton] at hp hq
      exact absurd (hp ▸ hq ▸ rfl) hne
  | _ :: _ :: _ => simp

/-! ### A copy that waits -/

theorem waiting_congr (h : s.queues = s'.queues) : s.waiting = s'.waiting := by
  have hqueues : ∀ t : PathSet, t.waiting = t.queues.flatMap fun e => e.2.map (e.1, ·) := by
    intro t
    rw [waiting, queues, List.flatMap_map]
  rw [hqueues, hqueues, h]

/-- Where nothing waits, a copy is all that waits. -/
theorem waiting_queueCopy (h : s.waiting = []) (hid : id ∈ s.ids) :
    (s.update id (·.queueCopy packet)).waiting = [(id, packet)] := by
  obtain ⟨p, hp, rfl⟩ := mem_ids.mp hid
  have hempty := waiting_eq_nil_iff.mp h
  obtain ⟨before, after, hsplit⟩ := List.append_of_mem (show p ∈ s.toList from hp)
  have hnone : ∀ l : List Path, (∀ q ∈ l, q ∈ s.toList) →
      l.flatMap (fun q => q.queue.map (q.id, ·)) = [] := fun l hl =>
    List.flatMap_eq_nil_iff.mpr fun q hq => by simp [hempty q (hl q hq)]
  have hlist : (s.update p.id (·.queueCopy packet)).toList =
      before ++ p.queueCopy packet :: after := toList_update hsplit
  rw [waiting, hlist, List.flatMap_append, List.flatMap_cons,
    hnone before fun q hq => hsplit ▸ List.mem_append_left _ hq,
    hnone after fun q hq => hsplit ▸ List.mem_append_right _ (List.mem_cons_of_mem _ hq)]
  simp [Path.queueCopy, hempty p hp]

theorem queued_eq_waiting (s : PathSet) : s.queued = s.waiting.map (·.2) := by
  simp [queued, waiting, List.map_flatMap, Function.comp_def]

end PathSet

namespace Connection

variable {c c₁ c' m m' : Connection σ} {id : PathId} {packet : Packet} {k : Nat}
  {updates updates' : List WindowUpdate}

/-! ### Frames that are handed on -/

/-- Once a piece of a stream is handed back, the session knows of it. -/
theorem recalls_frames (hR : Recalls S) {origin : PathId} {frames : List Frame}
    (h : frames.forM (redistribute S origin) c = .ok () c')
    (hstream : S.hasReturnedStreams c.session = true ∨ ∃ f, .stream f ∈ frames) :
    S.hasReturnedStreams c'.session = true := by
  have hkeeps : ∀ frame, Keeps (fun c c' => S.hasReturnedStreams c.session = true →
      S.hasReturnedStreams c'.session = true) (redistribute S origin frame) := by
    intro frame
    unfold redistribute
    split
    · exact fun c _ => hR.returnStream c.session _
    · refine keeps_get_bind fun c => ?_
      split
      · exact hR.queueControl
      · exact id
    · exact fun c => hR.schedulePaths
    · exact fun c => hR.queueControl
  induction frames generalizing c with
  | nil =>
      obtain ⟨-, rfl⟩ := pure_ok h
      exact hstream.resolve_right (by simp)
  | cons frame frames ih =>
      obtain ⟨⟨⟩, c₁, hframe, h⟩ := bind_ok h
      refine ih h ?_
      rcases hstream with hstream | ⟨f, hf⟩
      · exact .inl ((hkeeps frame).ok hframe hstream)
      · rcases List.mem_cons.mp hf with rfl | hf
        · cases hframe
          exact .inl (hR.returnStream c.session f)
        · exact .inr ⟨f, hf⟩

/-! ### The round after a copy -/

/-- A copy of `packet` waits on the additional path `id`, and nothing else waits.  The packet brings
back a piece of a stream from the path, which is unmeasured and has carried more packets than
another additional path. -/
structure CopyWaits (c : Connection σ) (id : PathId) (packet : Packet) : Prop where
  strategy : c.scheduler.config.strategy = .lowestRtt
  waiting : c.paths.waiting = [(id, packet)]
  data : packet.isHandshake = false
  stream : ∃ f, .stream f ∈ packet.frames
  mem : id ∈ c.paths.additional.map (·.id)
  unmeasured : (c.path id).isMeasured = false
  relief : ∃ p ∈ c.paths.additional, p.id ≠ id ∧ c.scheduler.quota p.id < c.scheduler.quota id

/-- What taking back finds where only a copy waits. -/
def onlyFrom (id : PathId) : Recovery := ⟨true, none, some id⟩

/-- The copy is taken back, and nothing else. -/
theorem CopyWaits.taken (hT : Steady S) (hR : Recalls S) (h : CopyWaits c id packet) :
    ∃ c₁, takeBack S c = .ok (onlyFrom id) c₁ ∧ c₁.paths.waiting = [] ∧ Still c c₁ ∧
      S.hasReturnedStreams c₁.session = true ∧
      ∃ rest, c₁.events = c.events ++ .drained id packet :: rest ∧
        ∀ e ∈ rest, e.isOrdinary = true := by
  obtain ⟨paths, hdequeue, hrest⟩ := PathSet.dequeue?_of_waiting h.waiting
  obtain ⟨c₁, hframes⟩ := redistribute_total (S := S) id packet.framesToResend
    (c.drained id packet paths)
  have hpending : c.paths.pending = 1 := by
    rw [PathSet.pending, PathSet.queued_eq_waiting, h.waiting]
    rfl
  have hpaths : c₁.paths = paths := (keeps_forM accrues_paths fun frame _ =>
    keeps_paths_redistribute id frame).ok hframes
  refine ⟨c₁, ?_, hpaths ▸ hrest, ?_, ?_, ?_⟩
  · rw [takeBack, get_bind, hpending, takeBackUpTo_succ hdequeue,
      if_neg (by simp [h.data]), bind_of_ok hframes]
    rfl
  · exact accrues_still.trans (still_drain hdequeue)
      ((keeps_forM accrues_still fun frame _ => (calm_still hT).redistribute id frame).ok hframes)
  · obtain ⟨f, hf⟩ := h.stream
    exact recalls_frames hR hframes (.inr ⟨f, List.mem_filter.mpr ⟨hf, rfl⟩⟩)
  · obtain ⟨rest, hevents, hordinary⟩ := (keeps_forM accrues_grows fun frame _ =>
      (calm_ordinary S).redistribute id frame).ok hframes
    refine ⟨rest, ?_, hordinary⟩
    rw [hevents, events_drained, List.append_assoc]
    rfl

/-- **Where the copy moves.**  The next round chooses another additional path, with a lower
quota. -/
theorem CopyWaits.moves (hT : Steady S) (hR : Recalls S) (h : CopyWaits c id packet) :
    ∃ c₁ next, takeBack S c = .ok (onlyFrom id) c₁ ∧ c₁.paths.waiting = [] ∧
      (∃ rest, c₁.events = c.events ++ .drained id packet :: rest ∧
        ∀ e ∈ rest, e.isOrdinary = true) ∧
      choose S (c₁.demand S (onlyFrom id)) c₁ = .ok (some next) c₁ ∧
      next ∈ c.paths.additional.map (·.id) ∧ next ≠ id ∧
      c.scheduler.quota next < c.scheduler.quota id := by
  obtain ⟨c₁, hback, hnone, hstill, hreturned, hevents⟩ := h.taken hT hR
  have hadditional : c₁.paths.additional.map (·.id) = c.paths.additional.map (·.id) :=
    PathSet.additional_ids_congr hstill.faces
  obtain ⟨p, hp, hpid⟩ := List.mem_map.mp (hadditional ▸ h.mem)
  have hmem : id ∈ c₁.paths.ids := PathSet.mem_ids.mpr ⟨p, (PathSet.mem_additional.mp hp).1, hpid⟩
  have hreturns : Scheduler.Returns (c₁.demand S (onlyFrom id)) (c₁.path id) :=
    ⟨rfl, hreturned, rfl, (congrArg Face.isMeasured
      (PathSet.face_get_of_mem hstill.faces hmem)).trans h.unmeasured⟩
  have hpath : (c₁.path id).id = id := PathSet.get_id
  -- the path that made the copy necessary relieves this one
  obtain ⟨r, hr, hne, hlt⟩ := h.relief
  obtain ⟨r', hr', hrid⟩ : ∃ r' ∈ c₁.paths.additional, r'.id = r.id :=
    List.mem_map.mp (hadditional ▸ List.mem_map.mpr ⟨r, hr, rfl⟩)
  have hspreads : c₁.scheduler.Spreads c₁.paths (c₁.demand S (onlyFrom id)) := by
    refine ⟨r', hr', c₁.path id, hreturns, ?_, ?_⟩
    · rwa [hpath, hrid]
    · rwa [hpath, hrid, hstill.quota]
  obtain ⟨next, hspread⟩ := Option.ne_none_iff_exists'.mp
    (mt Scheduler.spread_eq_none_iff_not_spreads.mp (not_not_intro hspreads))
  obtain ⟨q, ⟨hq, origin, horigin, hqne, hqlt⟩, -, rfl⟩ := Scheduler.spread_eq_some_iff.mp hspread
  obtain rfl : c₁.path id = origin := Option.some.inj (hreturns.from_origin.symm.trans
    horigin.from_origin)
  rw [hpath] at hqne hqlt
  refine ⟨c₁, q.id, hback, hnone, hevents, ?_, hadditional ▸ List.mem_map.mpr ⟨q, hq, rfl⟩, hqne,
    by rwa [hstill.quota] at hqlt⟩
  have hsize : 2 ≤ c₁.paths.size := PathSet.two_le_size (PathSet.mem_additional.mp hq).1
    (PathSet.mem_additional.mp hp).1 (hpid ▸ hqne)
  rw [choose_eq, Scheduler.select_of_lowestRtt hsize (hstill.config ▸ h.strategy),
    Scheduler.lowestRtt, hspread]

/-! ### A round that makes a copy -/

/-- The journal has grown, but not by a copy. -/
abbrev Uncopied (c c' : Connection σ) : Prop :=
  Grows (fun e => ∀ id packet, e ≠ .hedged id packet) c c'

theorem calm_uncopied (S : Session σ) : Calm S Uncopied :=
  (calm_ordinary S).mono accrues_grows fun h => h.mono fun e he id packet heq => by
    subst heq
    cases he

theorem uncopied_takeAck (id : PathId) (now : Instant) :
    Keeps (Uncopied (σ := σ)) (takeAck id now) := grows_takeAck (fun _ _ => by simp) id now

theorem uncopied_takeBack : Keeps Uncopied (takeBack S) :=
  keeps_get_bind fun c => (calm_uncopied S).takeBackUpTo (fun _ _ _ _ _ => grows_drain (by simp))
    c.paths.pending {} c

/-- The connection after a copy is made. -/
def copied (c : Connection σ) (id : PathId) (packet : Packet) : Connection σ where
  scheduler := c.scheduler.note (.hedged id packet)
  paths := c.paths.update id (·.queueCopy packet) (Path.queueCopy_id packet)
  session := c.session

/-- A round that leads from `m` to `m'` and copies the packet it sends on path `id`.  In between are
the connections once the queues are empty, the path is chosen, the control frames are attached, and
the packet is sent. -/
structure CopyRound (S : Session σ) (id : PathId) (packet : Packet) (recovery : Recovery)
    (m c₁ c₂ c₃ c₄ m' : Connection σ) : Prop where
  back : takeBack S m = .ok recovery c₁
  lost : recovery.handshake = none
  choose : choose S (c₁.demand S recovery) c₁ = .ok (some id) c₂
  attach : attachControl S id (S.hasReturnedStreams c₁.session) c₂ = .ok () c₃
  send : ∃ updates, sendNext S updates id c₃ = .ok (some packet) c₄
  hedge : c₄.needsHedge id = true
  probe : probe S recovery.origin (c₄.copied id packet) = .ok () m'

/-- **A round makes a copy of the packet it sends**, and of no other one. -/
theorem round_of_copy {evs : List Event} (h : sendRound S updates m = .ok (some updates') m')
    (hevents : m'.events = m.events ++ evs) (hcopy : .hedged id packet ∈ evs) :
    ∃ recovery c₁ c₂ c₃ c₄, CopyRound S id packet recovery m c₁ c₂ c₃ c₄ m' := by
  have hcalm := calm_uncopied S
  have hnone : ¬ Uncopied m m' := by
    rintro ⟨evs', hevents', hother⟩
    obtain rfl : evs = evs' := List.append_cancel_left (hevents.symm.trans hevents')
    exact hother _ hcopy id packet rfl
  obtain ⟨recovery, c₁, chosen, c₂, hback, hchoose, hproceeds⟩ := round_ok h
  have huncopied₂ : Uncopied m c₂ :=
    accrues_grows.trans (uncopied_takeBack.ok hback) ((hcalm.choose _).ok hchoose)
  cases hproceeds with
  | resend _ hresend =>
      refine absurd (accrues_grows.trans huncopied₂ ?_) hnone
      exact (hcalm.resendHandshake (fun _ _ => grows_callOn (by simp) (by simp)) _ _).ok hresend
  | @carry id' packet' c₃ c₄ c₅ _ hlost hattach hsend hhedge hprobe =>
      have huncopied₄ : Uncopied m c₄ := accrues_grows.trans huncopied₂
        (accrues_grows.trans ((hcalm.attachControl uncopied_takeAck _ _).ok hattach)
          ((hcalm.sendNext (fun _ _ => .of_eq rfl) _ _).ok hsend))
      rw [hedge_eq] at hhedge
      cases hneeds : c₄.needsHedge id' with
      | false =>
          rw [hneeds] at hhedge
          obtain rfl : c₄ = c₅ := (EStateM.Result.ok.inj hhedge).2
          exact absurd (accrues_grows.trans huncopied₄ ((hcalm.probe _).ok hprobe)) hnone
      | true =>
          rw [hneeds] at hhedge
          obtain rfl : c₄.copied id' packet' = c₅ := (EStateM.Result.ok.inj hhedge).2
          -- the copy is the only one of the round
          obtain ⟨before, hbefore, hother⟩ := huncopied₄
          obtain ⟨after, hafter, hother'⟩ := (hcalm.probe _).ok hprobe
          have hall : evs = before ++ .hedged id' packet' :: after := by
            refine List.append_cancel_left (hevents.symm.trans ?_)
            rw [hafter, copied, events_note, hbefore]
            simp
          rw [hall] at hcopy
          rcases List.mem_append.mp hcopy with hcopy | hcopy
          · exact absurd rfl (hother _ hcopy id packet)
          · rcases List.mem_cons.mp hcopy with heq | hcopy
            · cases heq
              exact ⟨recovery, c₁, c₂, c₃, c₄, hback, hlost, hchoose, hattach, ⟨_, hsend⟩, hneeds,
                hprobe⟩
            · exact absurd rfl (hother' _ hcopy id packet)

/-- A round that finds no handshake packet to send empties the queues. -/
theorem TakesBack.waiting_eq_nil {found recovery : Recovery} (h : TakesBack S found c recovery c')
    (hnone : recovery.handshake = none) : c'.paths.waiting = [] := by
  induction h with
  | stop hdequeue => exact PathSet.dequeue?_eq_none_iff.mp hdequeue
  | drop _ _ _ _ ih => exact ih hnone
  | handshake => cases hnone
  | apart _ _ _ _ ih => exact ih hnone

section CopyRound

variable {recovery : Recovery} {c₂ c₃ c₄ : Connection σ}

/-- The queues are empty from the beginning until the copy is made. -/
theorem CopyRound.waiting (h : CopyRound S id packet recovery m c₁ c₂ c₃ c₄ m')
    (hmem : id ∈ c₄.paths.ids) : m'.paths.waiting = [(id, packet)] := by
  have hqueues := calm_sameQueues S
  obtain ⟨updates, hsend⟩ := h.send
  have hsent : SameQueues c₁ c₄ := accrues_sameQueues.trans ((hqueues.choose _).ok h.choose)
    (accrues_sameQueues.trans ((hqueues.attachControl sameQueues_takeAck _ _).ok h.attach)
      ((hqueues.sendNext (fun _ _ => rfl) _ _).ok hsend))
  have hempty : c₄.paths.waiting = [] :=
    (PathSet.waiting_congr hsent).trans ((takeBack_ok h.back).waiting_eq_nil h.lost)
  have hprobed : SameQueues (c₄.copied id packet) m' := (hqueues.probe _).ok h.probe
  exact (PathSet.waiting_congr hprobed).trans (PathSet.waiting_queueCopy hempty hmem)

/-- A copy is made because another additional path has carried less. -/
theorem CopyRound.relief (h : CopyRound S id packet recovery m c₁ c₂ c₃ c₄ m')
    (hmem : id ∈ c₄.paths.ids) {n : Connection σ} (hn : n.paths.faces = c₄.paths.faces) :
    ∃ p ∈ n.paths.additional, p.id ≠ id ∧ c₄.scheduler.quota p.id < c₄.scheduler.quota id := by
  obtain ⟨-, g, hg, htarget, hne, hlt⟩ :=
    exists_target_of_needsHedge h.hedge (PathSet.get_mem hmem) PathSet.get_id
  obtain ⟨p, hp, rfl⟩ := PathSet.mem_faces.mp (hn ▸ hg)
  have hadditional : p.isInitial = false :=
    (Bool.not_eq_true' _).mp (Bool.and_eq_true_iff.mp htarget).1
  exact ⟨p, PathSet.mem_additional.mpr ⟨hp, hadditional⟩, hne, hlt⟩

variable (hT : Steady S)

include hT

/-- Until the packet is sent, the settings, the quotas and what the paths show stay as they are. -/
theorem CopyRound.still_before (h : CopyRound S id packet recovery m c₁ c₂ c₃ c₄ m') :
    Still m c₁ ∧ Still m c₃ := by
  have hcalm := calm_still hT
  have htaken : Still m c₁ := still_takesBack hT (takeBack_ok h.back)
  exact ⟨htaken, accrues_still.trans htaken (accrues_still.trans ((hcalm.choose _).ok h.choose)
    ((hcalm.attachControl still_takeAck _ _).ok h.attach))⟩

/-- So they do once it is sent. -/
theorem CopyRound.still_after (h : CopyRound S id packet recovery m c₁ c₂ c₃ c₄ m') :
    Still c₄ m' := by
  have hcopied : Still c₄ (c₄.copied id packet) := ⟨rfl, rfl, PathSet.faces_update⟩
  exact accrues_still.trans hcopied (((calm_still hT).probe _).ok h.probe)

/-- In between, the quota of the path is raised. -/
theorem CopyRound.counted (h : CopyRound S id packet recovery m c₁ c₂ c₃ c₄ m') :
    Counted id m c₄ := by
  obtain ⟨updates, hsend⟩ := h.send
  have hcounted := counted_sendNext hT hsend
  obtain ⟨-, hstill⟩ := h.still_before hT
  exact ⟨hcounted.config.trans hstill.config, by rw [hcounted.quota, hstill.quota],
    hcounted.faces.trans hstill.faces⟩

/-- With two paths in the set, the strategy chooses an additional one. -/
theorem CopyRound.mem_additional (h : CopyRound S id packet recovery m c₁ c₂ c₃ c₄ m')
    (hstrategy : m.scheduler.config.strategy = .lowestRtt) (hmem : id ∈ c₁.paths.ids) :
    id ∈ c₁.paths.additional.map (·.id) := by
  obtain ⟨hstill, -⟩ := h.still_before hT
  have hfaces : c₁.paths.faces = c₄.paths.faces := hstill.faces.trans (h.counted hT).faces.symm
  obtain ⟨r, hr, hne, -⟩ := h.relief (PathSet.ids_congr hfaces ▸ hmem) hfaces
  have hsize : 2 ≤ c₁.paths.size := PathSet.two_le_size (PathSet.mem_additional.mp hr).1
    (PathSet.get_mem hmem) (by rwa [PathSet.get_id])
  have hselect := (choose_ok h.choose).1
  rw [Scheduler.select_of_lowestRtt hsize (hstill.config ▸ hstrategy)] at hselect
  obtain ⟨p, hp, hpid⟩ := Scheduler.mem_additional_of_lowestRtt (Except.ok.inj hselect)
  exact List.mem_map.mpr ⟨p, hp, hpid⟩

/-- **A round that makes a copy leaves the copy and nothing else to be taken back.** -/
theorem CopyRound.copyWaits (h : CopyRound S id packet recovery m c₁ c₂ c₃ c₄ m')
    (hstrategy : m.scheduler.config.strategy = .lowestRtt) (hdata : packet.isHandshake = false)
    (hstream : ∃ f, .stream f ∈ packet.frames) : CopyWaits m' id packet := by
  obtain ⟨htaken, -⟩ := h.still_before hT
  have hcounted := h.counted hT
  have hstill := h.still_after hT
  have hfaces : c₄.paths.faces = c₁.paths.faces := hcounted.faces.trans htaken.faces.symm
  have hmem : id ∈ c₁.paths.ids := Scheduler.mem_ids_of_select (choose_ok h.choose).1
  have hmem₄ : id ∈ c₄.paths.ids := PathSet.ids_congr hfaces ▸ hmem
  have hmeasured : (c₄.path id).face.isMeasured = false :=
    (exists_target_of_needsHedge h.hedge (PathSet.get_mem hmem₄) PathSet.get_id).1
  constructor
  · rw [hstill.config, hcounted.config, hstrategy]
  · exact h.waiting hmem₄
  · exact hdata
  · exact hstream
  · rw [PathSet.additional_ids_congr (hstill.faces.trans hfaces)]
    exact h.mem_additional hT hstrategy hmem
  · have hface := PathSet.face_get_of_mem hstill.faces.symm hmem₄
    exact (congrArg Face.isMeasured hface).symm.trans hmeasured
  · obtain ⟨p, hp, hne, hlt⟩ := h.relief hmem₄ hstill.faces
    exact ⟨p, hp, hne, by rwa [hstill.quota]⟩

end CopyRound

/-! ### The rounds of a run -/

/-- The settings, and what the paths show, are as they were. -/
def Fixed (c c' : Connection σ) : Prop :=
  c'.scheduler.config = c.scheduler.config ∧ c'.paths.faces = c.paths.faces

theorem accrues_fixed : Accrues (Fixed (σ := σ)) where
  refl _ := ⟨rfl, rfl⟩
  trans h h' := ⟨h'.1.trans h.1, h'.2.trans h.2⟩

theorem Still.fixed (h : Still c c') : Fixed c c' := ⟨h.config, h.faces⟩

theorem tame_fixed (hT : Steady S) : Tame S Fixed where
  toCalm := (calm_still hT).mono accrues_fixed Still.fixed
  packHandshake _ lost c :=
    Still.fixed (still_callOn (fun s path => hT.packHandshake s lost path) c)
  drain _ _ _ _ h := (still_drain h).fixed
  bump _ _ := ⟨rfl, rfl⟩
  endEpisode e := by
    refine keeps_modify fun c => ?_
    split
    · exact ⟨(c.scheduler.endEpisode_still _).1, rfl⟩
    · exact accrues_fixed.refl c
  hedge _ _ c := Still.fixed (still_hedge c)
  publish c := (still_publish c).fixed

/-- What comes after some rounds of a run is another round. -/
theorem exists_round {updates : List WindowUpdate}
    (h : sendRounds S k updates c = .ok .outOfRounds m)
    (h' : sendRounds S (k + 1) updates c = .ok .outOfRounds m') :
    ∃ updates updates', sendRound S updates m = .ok (some updates') m' := by
  induction k generalizing updates c with
  | zero =>
      obtain ⟨-, rfl⟩ := pure_ok h
      obtain ⟨answer, c₁, hround, h'⟩ := bind_ok h'
      cases answer with
      | none => cases (pure_ok h').1
      | some updates' =>
          obtain ⟨-, rfl⟩ := pure_ok h'
          exact ⟨updates, updates', hround⟩
  | succ k ih =>
      obtain ⟨answer, c₁, hround, h⟩ := bind_ok h
      cases answer with
      | none => cases (pure_ok h).1
      | some updates' =>
          rw [sendRounds_of_continue hround] at h'
          exact ih h h'

/-- The round of a run that follows the first `k` leads from `m` to `m'` and makes a copy of
`packet`, which carries application data and a piece of a stream, on path `id`. -/
structure Copies (S : Session σ) (c : Connection σ) (k : Nat) (id : PathId) (packet : Packet)
    (m m' : Connection σ) : Prop where
  before : send S k c = .ok .outOfRounds m
  after : send S (k + 1) c = .ok .outOfRounds m'
  copy : ∃ evs, m'.events = m.events ++ evs ∧ .hedged id packet ∈ evs
  data : packet.isHandshake = false
  stream : ∃ f, .stream f ∈ packet.frames

/-- The rounds after the first `k` make copies, one round after the other, on these paths. -/
inductive Chain (S : Session σ) (c : Connection σ) : Nat → List PathId → Prop
  | nil (k : Nat) : Chain S c k []
  | cons {k id ids packet m m'} : Copies S c k id packet m m' → Chain S c (k + 1) ids →
      Chain S c k (id :: ids)

section Run

variable (hT : Steady S) (hR : Recalls S) (hstrategy : c.scheduler.config.strategy = .lowestRtt)

include hT hstrategy

theorem Copies.copyWaits (h : Copies S c k id packet m m') :
    CopyWaits m' id packet ∧ m'.scheduler.quota = bumped m.scheduler.quota id ∧
      m'.paths.faces = c.paths.faces ∧
      ∃ recovery c₁ c₂, takeBack S m = .ok recovery c₁ ∧
        choose S (c₁.demand S recovery) c₁ = .ok (some id) c₂ := by
  have hfixed : ∀ {n n'}, send S n c = .ok .outOfRounds n' → Fixed c n' := fun hsend =>
    ((tame_fixed hT).keeps_send (fun id now c => Still.fixed (still_takeAck id now c)) _).ok hsend
  obtain ⟨evs, hevents, hcopy⟩ := h.copy
  obtain ⟨updates, updates', hround⟩ : ∃ updates updates',
      sendRound S updates m = .ok (some updates') m' := by
    obtain ⟨updates, c₁, -, hsend⟩ := send_eq S c
    exact exists_round (hsend k ▸ h.before) (hsend (k + 1) ▸ h.after)
  obtain ⟨recovery, c₁, c₂, c₃, c₄, hcopies⟩ := round_of_copy hround hevents hcopy
  exact ⟨hcopies.copyWaits hT ((hfixed h.before).1 ▸ hstrategy) h.data h.stream,
    (hcopies.still_after hT).quota.trans (hcopies.counted hT).quota, (hfixed h.after).2,
    recovery, c₁, c₂, hcopies.back, hcopies.choose⟩

include hR

/-- A copy that follows another one is made on a path with a lower quota. -/
theorem CopyWaits.quota_lt {packet' : Packet} {next : PathId} (h : CopyWaits m id packet)
    (hnext : Copies S c k next packet' m m') :
    m.scheduler.quota next < m.scheduler.quota id := by
  obtain ⟨-, -, -, recovery, c₁, c₂, hback, hchoose⟩ := hnext.copyWaits hT hstrategy
  obtain ⟨c₁', next', hback', -, -, hchoose', -, -, hlt⟩ := h.moves hT hR
  -- taking back and choosing have one answer each
  cases hback.symm.trans hback'
  cases hchoose.symm.trans hchoose'
  exact hlt

/-- No path of a chain is one of the paths before it, and there is a path besides. -/
theorem Chain.follows {ids : List PathId} (h : Chain S c k ids) (earlier : List PathId)
    (hm : send S k c = .ok .outOfRounds m) (hwaits : CopyWaits m id packet)
    (hfaces : m.paths.faces = c.paths.faces)
    (hearlier : ∀ j ∈ earlier, m.scheduler.quota id ≤ m.scheduler.quota j)
    (hnodup : (id :: earlier).Nodup) :
    (∀ j ∈ ids, j ∈ c.paths.additional.map (·.id)) ∧
      ∃ j ∈ c.paths.additional.map (·.id), (j :: (ids ++ id :: earlier)).Nodup := by
  induction h generalizing m id packet earlier with
  | nil k =>
      obtain ⟨p, hp, hne, hlt⟩ := hwaits.relief
      refine ⟨by simp, p.id, ?_, List.nodup_cons.mpr ⟨fun hmem => ?_, hnodup⟩⟩
      · exact PathSet.additional_ids_congr hfaces ▸ List.mem_map.mpr ⟨p, hp, rfl⟩
      · rcases List.mem_cons.mp hmem with heq | hmem
        · exact hne heq
        · exact absurd (hearlier _ hmem) (Nat.not_le_of_lt hlt)
  | @cons k next ids packet' n m' hcopies _ ih =>
      obtain rfl : m = n := (EStateM.Result.ok.inj (hm.symm.trans hcopies.before)).2
      have hlt := hwaits.quota_lt hT hR hstrategy hcopies
      obtain ⟨hwaits', hquota', hfaces', -⟩ := hcopies.copyWaits hT hstrategy
      -- every path so far has a quota above that of the next one
      have habove : ∀ j ∈ id :: earlier, m.scheduler.quota next < m.scheduler.quota j := by
        intro j hj
        rcases List.mem_cons.mp hj with rfl | hj
        · exact hlt
        · exact Nat.lt_of_lt_of_le hlt (hearlier j hj)
      have hfresh : next ∉ id :: earlier := fun hmem => Nat.lt_irrefl _ (habove next hmem)
      have hraised : ∀ j ∈ id :: earlier, m'.scheduler.quota next ≤ m'.scheduler.quota j := by
        intro j hj
        rw [hquota', bumped_self, bumped_ne fun heq : j = next => hfresh (heq ▸ hj)]
        exact habove j hj
      obtain ⟨hmem, j, hj, hall⟩ := ih (id :: earlier) hcopies.after hwaits' hfaces' hraised
        (List.nodup_cons.mpr ⟨hfresh, hnodup⟩)
      refine ⟨fun i hi => ?_, j, hj, ?_⟩
      · rcases List.mem_cons.mp hi with rfl | hi
        · exact PathSet.additional_ids_congr hfaces' ▸ hwaits'.mem
        · exact hmem i hi
      · exact (List.Perm.nodup_iff (.cons j List.perm_middle)).mp hall

end Run

/-- **A copy moves elsewhere, and a chain of copies is bounded.**  In every run under the lowest
round-trip time with fixed telemetry, the round that follows a copy of a packet with application
data and a piece of a stream takes back the copy and nothing else.  It chooses an additional path,
not the one the copy was made on, with a lower quota.  The paths of rounds that make such copies one
after the other are distinct additional paths, so there are no more of these rounds than additional
paths; in fact there are fewer. -/
theorem copies_move (hT : Steady S) (hR : Recalls S)
    (hstrategy : c.scheduler.config.strategy = .lowestRtt) :
    (∀ (k : Nat) (id : PathId) (packet : Packet) (m m' : Connection σ),
      Copies S c k id packet m m' →
      ∃ m₁ next rest, takeBack S m' = .ok ⟨true, none, some id⟩ m₁ ∧
        m'.paths.queued = [packet] ∧ m₁.paths.queued = [] ∧
        m₁.events = m'.events ++ .drained id packet :: rest ∧
        (∀ j packet', .drained j packet' ∉ rest) ∧
        choose S (m₁.demand S ⟨true, none, some id⟩) m₁ = .ok (some next) m₁ ∧
        next ∈ c.paths.ids ∧ next ≠ .initial ∧ next ≠ id ∧
        m'.scheduler.quota next < m'.scheduler.quota id) ∧
    ∀ (k : Nat) (ids : List PathId), Chain S c k ids →
      ids.Nodup ∧ (∀ id ∈ ids, id ∈ c.paths.ids ∧ id ≠ .initial) ∧
        ids.length ≤ c.paths.additional.length ∧
        (ids ≠ [] → ids.length < c.paths.additional.length) := by
  have hadditional : ∀ id ∈ c.paths.additional.map (·.id), id ∈ c.paths.ids ∧ id ≠ .initial := by
    rintro id hid
    obtain ⟨p, hp, rfl⟩ := List.mem_map.mp hid
    exact ⟨PathSet.mem_ids.mpr ⟨p, (PathSet.mem_additional.mp hp).1, rfl⟩,
      PathSet.id_of_mem_additional hp⟩
  constructor
  · intro k id packet m m' hcopies
    obtain ⟨hwaits, -, hfaces, -⟩ := hcopies.copyWaits hT hstrategy
    obtain ⟨m₁, next, hback, hnone, ⟨rest, hevents, hordinary⟩, hchoose, hmem, hne, hlt⟩ :=
      hwaits.moves hT hR
    obtain ⟨hids, hinitial⟩ := hadditional next (PathSet.additional_ids_congr hfaces ▸ hmem)
    refine ⟨m₁, next, rest, hback, ?_, ?_, hevents, fun j packet' hdrained => ?_, hchoose, hids,
      hinitial, hne, hlt⟩
    · rw [PathSet.queued_eq_waiting, hwaits.waiting]
      rfl
    · rw [PathSet.queued_eq_waiting, hnone]
      rfl
    · cases hordinary _ hdrained
  · intro k ids hchain
    cases hchain with
    | nil => simp
    | @cons _ id ids packet m m' hcopies hchain =>
        obtain ⟨hwaits, -, hfaces, -⟩ := hcopies.copyWaits hT hstrategy
        obtain ⟨hmem, j, hj, hall⟩ := hchain.follows hT hR hstrategy [] hcopies.after hwaits
          hfaces (by simp) (by simp)
        have hall : (j :: id :: ids).Nodup :=
          (List.Perm.nodup_iff (.cons j (List.perm_middle.trans (by simp)))).mp hall
        have hevery : ∀ i ∈ id :: ids, i ∈ c.paths.additional.map (·.id) := by
          intro i hi
          rcases List.mem_cons.mp hi with rfl | hi
          · exact PathSet.additional_ids_congr hfaces ▸ hwaits.mem
          · exact hmem i hi
        -- the paths of the chain and one more are all additional
        have hlt : (id :: ids).length < c.paths.additional.length := by
          have hsub : j :: id :: ids ⊆ c.paths.additional.map (·.id) :=
            List.cons_subset.mpr ⟨hj, hevery⟩
          have hle := (List.subperm_of_subset hall hsub).length_le
          rwa [List.length_map] at hle
        exact ⟨(List.nodup_cons.mp hall).2, fun i hi => hadditional i (hevery i hi),
          Nat.le_of_lt hlt, fun _ => hlt⟩

/-! ### A chain of two copies -/

/-- What was done in a run that used up its rounds. -/
def unfinishedEvents? : EStateM.Result Error (Connection σ) SendOutcome → Option (List Event)
  | .ok .outOfRounds c => some c.events
  | _ => none

theorem unfinishedEvents?_eq_some {r : EStateM.Result Error (Connection σ) SendOutcome}
    {evs : List Event} (h : unfinishedEvents? r = some evs) :
    ∃ c, r = .ok .outOfRounds c ∧ c.events = evs := by
  unfold unfinishedEvents? at h
  split at h
  · exact ⟨_, rfl, Option.some.inj h⟩
  · cases h

/-- Three additional paths, all unmeasured, and data for one packet. -/
def threeUnmeasured : Connection Script where
  scheduler := Scheduler.following .lowestRtt
  paths := [.new .initial {} default, .new .primary {} default, .new ⟨2⟩ {} default,
    .new ⟨3⟩ {} default].foldl PathSet.insert PathSet.empty
  session := { data := [[⟨⟨5⟩, 1000, false⟩]] }

/-- The packet with the data. -/
def original : Packet := ⟨.one, [.stream ⟨⟨5⟩, 0, 1000, false⟩], 1100, .forwardSecure, none⟩

/-- The packet that carries the data a second time. -/
def repetition : Packet :=
  ⟨.next .one, [.stopWaiting .one, .stream ⟨⟨5⟩, 0, 1000, false⟩], 1100, .forwardSecure, none⟩

/-- The first round sends the data on the third path and copies it. -/
def firstCopying : List Event :=
  [.packed ⟨3⟩ (some original), .sent ⟨3⟩ original, .hedged ⟨3⟩ original]

/-- The second round takes the copy back, sends the data on the primary path and copies it again:
the second path has still carried less. -/
def secondCopying : List Event :=
  [.drained ⟨3⟩ original, .streamReturned ⟨⟨5⟩, 0, 1000, false⟩,
    .queued (some .primary) (.stopWaiting .one), .packed .primary (some repetition),
    .sent .primary repetition, .hedged .primary repetition]

theorem unfinishedEvents?_threeUnmeasured :
    unfinishedEvents? (send Script.tireless 0 threeUnmeasured) = some [.updatesAsked false []] ∧
    unfinishedEvents? (send Script.tireless 1 threeUnmeasured) =
      some (.updatesAsked false [] :: firstCopying) ∧
    unfinishedEvents? (send Script.tireless 2 threeUnmeasured) =
      some (.updatesAsked false [] :: firstCopying ++ secondCopying) := by
  refine ⟨?_, ?_, ?_⟩ <;> decide +kernel

/-- The copy moves from the third path to the primary one, and both are distinct from a third
additional path. -/
theorem copies_move_threeUnmeasured :
    Chain Script.tireless threeUnmeasured 0 [⟨3⟩, .primary] ∧
    [⟨3⟩, PathId.primary].length < threeUnmeasured.paths.additional.length ∧
    ∃ m m₁ next, send Script.tireless 1 threeUnmeasured = .ok .outOfRounds m ∧
      takeBack Script.tireless m = .ok ⟨true, none, some ⟨3⟩⟩ m₁ ∧
      choose Script.tireless (m₁.demand Script.tireless ⟨true, none, some ⟨3⟩⟩) m₁ =
        .ok (some next) m₁ ∧ next ≠ ⟨3⟩ ∧ m.scheduler.quota next < m.scheduler.quota ⟨3⟩ := by
  obtain ⟨h₀, h₁, h₂⟩ := unfinishedEvents?_threeUnmeasured
  obtain ⟨m₀, hrun₀, hevents₀⟩ := unfinishedEvents?_eq_some h₀
  obtain ⟨m₁, hrun₁, hevents₁⟩ := unfinishedEvents?_eq_some h₁
  obtain ⟨m₂, hrun₂, hevents₂⟩ := unfinishedEvents?_eq_some h₂
  have hfirst : Copies Script.tireless threeUnmeasured 0 ⟨3⟩ original m₀ m₁ :=
    ⟨hrun₀, hrun₁, ⟨firstCopying, by rw [hevents₀, hevents₁]; rfl, by simp [firstCopying]⟩, rfl,
      _, .head _⟩
  have hsecond : Copies Script.tireless threeUnmeasured 1 .primary repetition m₁ m₂ :=
    ⟨hrun₁, hrun₂, ⟨secondCopying, by rw [hevents₁, hevents₂], by simp [secondCopying]⟩, rfl,
      _, .tail _ (.head _)⟩
  have hchain : Chain Script.tireless threeUnmeasured 0 [⟨3⟩, .primary] :=
    .cons hfirst (.cons hsecond (.nil 2))
  obtain ⟨hmoves, hbounded⟩ := copies_move (c := threeUnmeasured) Script.steady_tireless
    Script.recalls_tireless rfl
  obtain ⟨m₁', next, -, hback, -, -, -, -, hchoose, -, -, hne, hlt⟩ := hmoves _ _ _ _ _ hfirst
  exact ⟨hchain, (hbounded _ _ hchain).2.2.2 (by simp), m₁, m₁', next, hrun₁, hback, hchoose,
    hne, hlt⟩

end Connection

end Multipath
