import Multipath.Proofs.Connection.Weights
import Multipath.Proofs.Scheduler.Quotas

/-!
# Rounds with fixed telemetry

If no operation of the session changes the telemetry of a path, then all that a selection reads of
the paths is fixed, and only the packets that are sent change the quotas.

* `Still`: the settings, the quotas and what the paths show are as they were.
* `calm_still`: the calm steps leave them so.
* `round_moves`: what a round does to the quotas and to what is left to send.
-/

namespace Multipath

namespace Connection

variable {σ : Type} {S : Session σ}

/-- The settings, the quotas and what the paths show are as they were. -/
structure Still (c c' : Connection σ) : Prop where
  config : c'.scheduler.config = c.scheduler.config
  quotas : c'.scheduler.quotas = c.scheduler.quotas
  faces : c'.paths.faces = c.paths.faces

theorem accrues_still : Accrues (Still (σ := σ)) where
  refl _ := ⟨rfl, rfl, rfl⟩
  trans h h' := ⟨h'.config.trans h.config, h'.quotas.trans h.quotas, h'.faces.trans h.faces⟩

theorem still_callOn {α : Type} {call : PacketCall} {id : PathId}
    {operation : σ → Path → Reply σ α} {event : α → Event}
    (h : ∀ s path, (operation s path).telemetry = path.telemetry) :
    Keeps Still (callOn call id operation event) := by
  intro c
  have hfaces : (c.paths.update id (·.setTelemetry
      (operation c.session (c.path id)).telemetry)).faces = c.paths.faces := by
    refine PathSet.faces_update fun p hp hid => ?_
    rw [h, path, ← hid, PathSet.get_of_mem hp]
    rfl
  rw [callOn_eq]
  dsimp only
  split <;> exact ⟨rfl, rfl, hfaces⟩

end Connection

namespace Scheduler

/-- The scheduler with other draws, records, decisions and entries. -/
def Wanders (s s' : Scheduler) : Prop :=
  ∃ draws recorder lastDecision journal,
    s' = { s with draws, recorder, lastDecision, journal }

theorem wanders_endEpisode (s : Scheduler) (reward : Float) : Wanders s (s.endEpisode reward) := by
  unfold endEpisode
  split <;> exact ⟨_, _, _, _, rfl⟩

theorem wanders_consult (s : Scheduler) (agent : Agent) (o : Observation) :
    Wanders s (s.consult agent o).2 := by
  simp only [consult]
  split <;> exact ⟨_, _, _, _, rfl⟩

/-- A selection changes neither the settings nor the quotas, nor what the scheduler knows of its
connection. -/
theorem wanders_select (s : Scheduler) (paths : PathSet) (demand : Demand) (now : Instant) :
    Wanders s (s.select paths demand now).2 := by
  have hselects := s.selects_select paths demand now
  generalize s.select paths demand now = result at hselects ⊢
  cases hselects with
  | settled chosen => exact ⟨_, _, _, _, rfl⟩
  | drawn chosen draws => exact ⟨_, _, _, _, rfl⟩
  | asked agent o => exact s.wanders_consult agent o
  | stopped reason => exact s.wanders_endEpisode _

theorem Wanders.still {s s' : Scheduler} (h : Wanders s s') :
    s'.config = s.config ∧ s'.quotas = s.quotas := by
  obtain ⟨-, -, -, -, rfl⟩ := h
  exact ⟨rfl, rfl⟩

theorem endEpisode_still (s : Scheduler) (reward : Float) :
    (s.endEpisode reward).config = s.config ∧ (s.endEpisode reward).quotas = s.quotas :=
  (s.wanders_endEpisode reward).still

theorem select_still (s : Scheduler) (paths : PathSet) (demand : Demand) (now : Instant) :
    (s.select paths demand now).2.config = s.config ∧
      (s.select paths demand now).2.quotas = s.quotas :=
  (s.wanders_select paths demand now).still

end Scheduler

namespace Connection

variable {σ : Type} {S : Session σ} {load : σ → Nat}

theorem calm_still (hT : Steady S) : Calm S Still where
  toAccrues := accrues_still
  queue _ _ _ := ⟨rfl, rfl, rfl⟩
  returnStream _ _ := ⟨rfl, rfl, rfl⟩
  schedulePaths _ := ⟨rfl, rfl, rfl⟩
  askUpdates _ _ := ⟨rfl, rfl, rfl⟩
  takePathControl _ := ⟨rfl, rfl, rfl⟩
  unblock _ := ⟨rfl, rfl, rfl⟩
  pack _ := still_callOn hT.pack
  packAck _ := still_callOn hT.packAck
  transmit _ packet := keeps_bind accrues_still (still_callOn fun s path => hT.send s packet path)
    fun _ => keeps_modify fun _ => ⟨rfl, rfl, PathSet.faces_update⟩
  ping _ := still_callOn hT.ping
  announce id force c := ⟨rfl, rfl, PathSet.faces_update
    (fun p _ _ => by unfold Path.stopWaiting; split <;> rfl) (stopWaiting_id force)⟩
  choose demand c := by
    obtain ⟨hconfig, hquotas⟩ := c.scheduler.select_still c.paths demand (S.now c.session)
    rw [choose_eq]
    dsimp only
    split
    · exact ⟨hconfig, hquotas, rfl⟩
    · split <;> exact ⟨hconfig, hquotas, rfl⟩
  finishStream := by
    refine keeps_get_bind fun c => ?_
    dsimp only
    split
    · split
      · obtain ⟨hconfig, hquotas⟩ := c.scheduler.endEpisode_still _
        exact ⟨hconfig, hquotas, rfl⟩
      · exact ⟨rfl, rfl, rfl⟩
    · exact ⟨rfl, rfl, rfl⟩

theorem still_takeAck (id : PathId) (now : Instant) :
    Keeps (Still (σ := σ)) (takeAck id now) := by
  intro c
  rw [takeAck_eq]
  dsimp only
  split <;> exact ⟨rfl, rfl, PathSet.faces_update⟩

theorem still_drain {c : Connection σ} {id : PathId} {packet : Packet} {paths : PathSet}
    (h : c.paths.dequeue? = some (id, packet, paths)) : Still c (c.drained id packet paths) := by
  obtain ⟨-, -, -, -, -, -, -, -, rfl⟩ := PathSet.dequeue?_eq_some h
  exact ⟨rfl, rfl, PathSet.faces_update⟩


theorem still_publish (c : Connection σ) :
    Still c { c with paths := c.paths.updateAll Path.publish } :=
  ⟨rfl, rfl, PathSet.faces_updateAll⟩

/-! ### What a round moves -/

/-- What becomes of the quotas in a round, and of what is left to send, which is `w` before and
`w'` after.  A handshake packet is sent, or another packet, or a packet that is copied: then its
path is unmeasured, and `g` is a target for the copy. -/
inductive Moved (faces : List Face) (quota quota' : PathId → Nat) (w w' : Nat) : Prop
  | resent : quota' = quota → w' < w → Moved faces quota quota' w w'
  | sent {id} : quota' = bumped quota id → w' < w → Moved faces quota quota' w w'
  | copied {f g} : quota' = bumped quota f.id → w' ≤ w → f ∈ faces → f.isMeasured = false →
      Levels quota faces f → g ∈ faces → g.isTarget = true → g.id ≠ f.id →
      quota g.id ≤ quota f.id → Moved faces quota quota' w w'

section Round

variable {load : σ → Nat} {updates updates' : List WindowUpdate} {id : PathId} {packet : Packet}
  {c c' : Connection σ}

/-- Another packet on the path `id`, and otherwise all as it was. -/
structure Counted (id : PathId) (c c' : Connection σ) : Prop where
  config : c'.scheduler.config = c.scheduler.config
  quota : c'.scheduler.quota = bumped c.scheduler.quota id
  faces : c'.paths.faces = c.paths.faces

theorem Still.quota (h : Still c c') : c'.scheduler.quota = c.scheduler.quota :=
  funext fun j => congrArg (Tally.count · j) h.quotas

theorem Counted.of_still {c₁ c₂ : Connection σ} (h : Still c c₁) (h' : Still
    { c₁ with scheduler := c₁.scheduler.bumpQuota id } c₂) : Counted id c c₂ where
  config := h'.config.trans h.config
  quota := by rw [h'.quota, Scheduler.quota_bumpQuota, h.quota]
  faces := h'.faces.trans h.faces

theorem still_hedge : Keeps (Still (σ := σ)) (hedge id packet) := by
  intro c
  rw [hedge_eq]
  dsimp only [left]
  split
  · exact ⟨rfl, rfl, PathSet.faces_update⟩
  · exact accrues_still.refl c

/-- A copy is made of a packet on an unmeasured path, if there is a target for it. -/
theorem exists_target_of_needsHedge (h : c.needsHedge id = true) {p : Path} (hp : p ∈ c.paths)
    (hid : p.id = id) : p.face.isMeasured = false ∧ ∃ g ∈ c.paths.faces, g.isTarget = true ∧
      g.id ≠ id ∧ c.scheduler.quota g.id < c.scheduler.quota id := by
  simp only [needsHedge, path, ← hid, PathSet.get_of_mem hp, Bool.and_eq_true,
    Bool.not_eq_true', List.any_eq_true, bne_iff_ne, ne_eq, decide_eq_true_eq] at h
  obtain ⟨hmeasured, q, hq, ⟨⟨hinitial, hne⟩, hlt⟩, hallowed⟩ := h
  refine ⟨hmeasured, q.face, PathSet.mem_faces.mpr ⟨q, hq, rfl⟩, ?_, hid ▸ hne, hid ▸ hlt⟩
  exact Bool.and_eq_true_iff.mpr ⟨Bool.not_eq_true' _ |>.mpr hinitial, hallowed⟩

variable (hT : Steady S)

include hT

theorem still_takesBack {found recovery : Recovery} (h : TakesBack S found c recovery c') :
    Still c c' := by
  induction h with
  | stop => exact accrues_still.refl _
  | drop hdequeue _ _ _ ih => exact accrues_still.trans (still_drain hdequeue) ih
  | handshake hdequeue => exact still_drain hdequeue
  | apart hdequeue _ hframes _ ih =>
      have hsplit := (keeps_forM accrues_still fun frame _ =>
        (calm_still hT).redistribute _ frame).ok hframes
      exact accrues_still.trans (still_drain hdequeue) (accrues_still.trans hsplit ih)

theorem counted_sendNext (h : sendNext S updates id c = .ok (some packet) c') :
    Counted id c c' := by
  have hcalm := calm_still hT
  obtain ⟨c₁, c₂, hdue, hpack, hrest⟩ := sendNext_cases h
  obtain ⟨packet', c₃, c₄, -, hsend, hupdates, hfinish⟩ := hrest.resolve_left (by simp)
  have hstill : Still c c₁ := by
    rcases hdue with ⟨-, rfl⟩ | ⟨-, hqueue⟩
    · exact accrues_still.refl c₁
    · exact (hcalm.queue _ _).ok hqueue
  have hsent : Still c₁ c₄ := accrues_still.trans ((hcalm.pack id).ok hpack)
    (accrues_still.trans ((hcalm.transmit id packet').ok hsend)
      ((hcalm.queueUpdates (some id) updates).ok hupdates))
  exact .of_still (accrues_still.trans hstill hsent)
    ((keeps_forM accrues_still fun _ _ => hcalm.finishStream).ok hfinish)

/-- **What a round does after which the run goes on**, if no sign of life is due. -/
theorem round_moves (hS : Spends S load) (h : sendRound S updates c = .ok (some updates') c')
    (hdue : ∀ f ∈ c.paths.faces, f.telemetry.retransmittableDue = false)
    (hmove : CopiesMove c.scheduler.config.strategy c.paths.faces) :
    c'.scheduler.config = c.scheduler.config ∧ c'.paths.faces = c.paths.faces ∧
      Moved c.paths.faces c.scheduler.quota c'.scheduler.quota
        (weight load c + updates.length) (weight load c' + updates'.length) := by
  have hcalm := calm_still hT
  obtain ⟨recovery, c₁, chosen, c₂, hback, hchoose, hproceeds⟩ := round_ok h
  have htakes := takeBack_ok hback
  have hstill₁ := still_takesBack hT htakes
  have hstill₂ : Still c c₂ := accrues_still.trans hstill₁ ((hcalm.choose _).ok hchoose)
  have hweight₁ := weight_takesBack hS htakes rfl
  have hweight₂ : weight load c₂ = weight load c₁ := by
    rw [(choose_ok hchoose).2]
    rfl
  cases hproceeds with
  | @resend id lost c' hlost hresend =>
      have hstill : Still c c' := accrues_still.trans hstill₂
        ((hcalm.resendHandshake (fun _ lost => still_callOn fun s path =>
          hT.packHandshake s lost path) id lost).ok hresend)
      have hweight₃ := weight_resendHandshake hS hresend
      rw [hlost, Option.toList_some, List.length_singleton] at hweight₁
      exact ⟨hstill.config, hstill.faces, .resent hstill.quota (by omega)⟩
  | @carry id packet c₃ c₄ c₅ c' hlost hattach hsend hhedge hprobe =>
      have hstill₃ : Still c c₃ :=
        accrues_still.trans hstill₂ ((hcalm.attachControl still_takeAck _ _).ok hattach)
      have hcounted := counted_sendNext hT hsend
      have hstill₆ : Still c₄ c' :=
        accrues_still.trans (still_hedge.ok hhedge) ((hcalm.probe _).ok hprobe)
      have hquota₄ : c₄.scheduler.quota = bumped c.scheduler.quota id := by
        rw [hcounted.quota, hstill₃.quota]
      have hfaces₄ : c₄.paths.faces = c.paths.faces := hcounted.faces.trans hstill₃.faces
      have hquota : c'.scheduler.quota = bumped c.scheduler.quota id :=
        hstill₆.quota.trans hquota₄
      have hweight₃ := weight_attachControl hS hattach
      have hweight₆ := weight_probe hS hprobe
      -- the selection was made among the same faces, with the same quotas
      obtain ⟨p, hp, hid, hlevels⟩ := Scheduler.levels_of_select
        (hstill₁.config ▸ hstill₁.faces ▸ hmove) (htakes.origin_id_mem nofun)
        (choose_ok hchoose).1
      rw [hstill₁.quota, hstill₁.faces] at hlevels
      have hface : p.face ∈ c.paths.faces :=
        hstill₁.faces ▸ PathSet.mem_faces.mpr ⟨p, hp, rfl⟩
      have hshown : ∀ {m : Connection σ}, m.paths.faces = c.paths.faces →
          ∃ q ∈ m.paths, q.face = p.face ∧ q.id = id := fun hfaces => by
        obtain ⟨q, hq, hqface⟩ := PathSet.mem_faces.mp (hfaces ▸ hface)
        exact ⟨q, hq, hqface, (congrArg Face.id hqface).trans hid⟩
      have hnot : (c₃.path id).telemetry.retransmittableDue = false := by
        obtain ⟨q, hq, hqface, rfl⟩ := hshown hstill₃.faces
        rw [path, PathSet.get_of_mem hq]
        exact hdue q.face (hqface ▸ hface)
      have hweight₄ := (weight_sendNext hS hsend).2 hnot
      have hworth := packet.one_le_weight
      refine ⟨hstill₆.config.trans (hcounted.config.trans hstill₃.config),
        hstill₆.faces.trans hfaces₄, ?_⟩
      rcases hedge_cases load hhedge with ⟨hneeds, hweight₅, -⟩ | ⟨-, rfl⟩
      · obtain ⟨q, hq, hqface, hqid⟩ := hshown hfaces₄
        obtain ⟨hmeasured, g, hg, htarget, hne, hlt⟩ := exists_target_of_needsHedge hneeds hq hqid
        rw [hquota₄, bumped_ne hne, bumped_self] at hlt
        subst hid
        exact .copied (f := p.face) hquota (by simp only [List.length_nil]; omega) hface
          (hqface ▸ hmeasured) hlevels (hfaces₄ ▸ hg) htarget hne (Nat.le_of_lt_succ hlt)
      · exact .sent hquota (by simp only [List.length_nil]; omega)

end Round

end Connection

end Multipath
