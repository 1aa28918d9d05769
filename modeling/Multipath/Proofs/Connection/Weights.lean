import Multipath.Proofs.Connection.Rounds
import Multipath.Proofs.Session.Spending

/-!
# What is left to send

The weight of a connection is what its session has to send, together with the packets that wait to
be sent again.  A round moves weight between the two, and takes a packet's worth out of it.  Only
two things add weight: a copy of a packet, and a sign of life.

* `weight`, `lively`: what is left to send, and how often something was added to it.
* `weight_takesBack`, `load_attachControl`, `load_sendNext`, `weight_hedge`: the parts of a round.
* `round_spends`: what a round takes out.
-/

namespace Multipath

/-- The event adds something to send: a copy of a packet, or a sign of life. -/
def Event.isLively : Event → Bool
  | .hedged .. => true
  | .queued _ .ping => true
  | _ => false

namespace PathSet

variable {s : PathSet} {id : PathId}

/-- All that waits to be sent again. -/
def weight (s : PathSet) : Nat := (s.queued.map Packet.weight).sum

theorem weight_congr {s' : PathSet} (h : s'.queues = s.queues) : s'.weight = s.weight := by
  rw [weight, weight, queued_eq_flatMap_queues, queued_eq_flatMap_queues, h]

theorem weight_of_dequeue? {s' : PathSet} {packet : Packet}
    (h : s.dequeue? = some (id, packet, s')) : s.weight = packet.weight + s'.weight := by
  rw [weight, queued_of_dequeue? h, List.map_cons, List.sum_cons, weight]

theorem weight_queueCopy_le (s : PathSet) (id : PathId) (packet : Packet) :
    (s.update id (·.queueCopy packet)).weight ≤ s.weight + packet.weight := by
  by_cases hid : id ∈ s.ids
  · obtain ⟨p, hp, rfl⟩ := mem_ids.mp hid
    obtain ⟨before, after, hsplit⟩ := List.append_of_mem hp
    unfold weight queued
    rw [toList_update (f := (·.queueCopy packet)) (k := fun _ => rfl) hsplit, hsplit]
    simp only [Path.queueCopy, List.flatMap_append, List.flatMap_cons, List.map_append,
      List.sum_append, List.map_cons, List.map_nil, List.sum_singleton]
    omega
  · unfold weight queued
    rw [toList_update_of_not_mem (f := (·.queueCopy packet)) (k := fun _ => rfl) hid]
    exact Nat.le_add_right _ _

end PathSet

namespace Connection

variable {σ : Type} {S : Session σ} {load : σ → Nat}

/-- All that is left to send. -/
def weight (load : σ → Nat) (c : Connection σ) : Nat := load c.session + c.paths.weight

/-- How often something was added to what is left to send. -/
def lively (c : Connection σ) : Nat := c.events.countP (·.isLively)

/-! ### Copies and signs of life so far -/

/-- Nothing that was done is undone. -/
abbrev Livelier (c c' : Connection σ) : Prop := c.lively ≤ c'.lively

theorem Grows.livelier {P : Event → Prop} {c c' : Connection σ} (h : Grows P c c') :
    Livelier c c' := by
  obtain ⟨evs, hevents, -⟩ := h
  rw [Livelier, lively, lively, hevents, List.countP_append]
  exact Nat.le_add_right _ _

theorem accrues_livelier : Accrues (Livelier (σ := σ)) where
  refl _ := Nat.le_refl _
  trans := Nat.le_trans

theorem tame_livelier (S : Session σ) : Tame S Livelier where
  toCalm := (calm_ordinary S).mono accrues_livelier Grows.livelier
  packHandshake id lost := by
    have hgrows : Keeps (Grows fun _ => True) (packHandshake S id lost) :=
      grows_callOn (fun _ => trivial) fun _ => trivial
    exact hgrows.mono Grows.livelier
  drain _ _ _ _ _ := Grows.livelier (grows_drain (P := fun _ => True) trivial)
  bump _ _ := Nat.le_refl _
  endEpisode e := (grows_endEpisode (P := fun _ => True) (fun _ => trivial) e).mono Grows.livelier
  hedge _ _ := (grows_hedge (P := fun _ => True) trivial).mono Grows.livelier
  publish _ := Nat.le_refl _

theorem livelier_takeAck (id : PathId) (now : Instant) :
    Keeps (Livelier (σ := σ)) (takeAck id now) :=
  (grows_takeAck (P := fun _ => True) (fun _ _ => trivial) id now).mono Grows.livelier

/-! ### What the steps add to the session -/

section Adds

variable {α : Type}

/-- The session does not have more to send. -/
abbrev Lighter (load : σ → Nat) (c c' : Connection σ) : Prop := load c'.session ≤ load c.session

theorem accrues_lighter : Accrues (Lighter (σ := σ) load) where
  refl _ := Nat.le_refl _
  trans h h' := Nat.le_trans h' h

theorem lighter_of_eq {x : Act σ α} (h : Keeps (fun c c' => c'.session = c.session) x) :
    Keeps (Lighter load) x := h.mono fun heq => Nat.le_of_eq (congrArg load heq)

theorem lighter_callOn {call : PacketCall} {id : PathId} {operation : σ → Path → Reply σ α}
    {event : α → Event} (h : ∀ s path, load (operation s path).session ≤ load s) :
    Keeps (Lighter load) (callOn call id operation event) := by
  intro c
  rw [callOn_eq]
  dsimp only
  split <;> exact h _ _

theorem lighter_takeAck (id : PathId) (now : Instant) :
    Keeps (Lighter load) (takeAck id now : Act σ _) := by
  refine lighter_of_eq fun c => ?_
  rw [takeAck_eq]
  dsimp only
  split <;> rfl

theorem lighter_finishStream : Keeps (Lighter load) (finishStream S) := by
  refine lighter_of_eq (keeps_get_bind fun c => ?_)
  dsimp only
  split
  · split <;> rfl
  · rfl

/-- The action adds at most `k` to what the session has to send. -/
def Adds (load : σ → Nat) (k : Nat) (x : Act σ α) : Prop :=
  Keeps (fun c c' => load c'.session ≤ load c.session + k) x

theorem adds_bind {β : Type} {k k' : Nat} {x : Act σ α} {f : α → Act σ β} (hx : Adds load k x)
    (hf : ∀ a, Adds load k' (f a)) : Adds load (k + k') (x >>= f) := by
  intro c
  have hxc := hx c
  simp only [bind, EStateM.bind]
  split
  · rename_i a c₁ hok
    rw [hok] at hxc
    exact Nat.le_trans (hf a c₁) (Nat.add_assoc _ k k' ▸ Nat.add_le_add_right hxc k')
  · rename_i hfail
    rw [hfail] at hxc
    exact Nat.le_trans hxc (Nat.add_le_add_left (Nat.le_add_right k k') _)

theorem adds_forM {cost : α → Nat} {f : α → Act σ Unit} :
    ∀ {l : List α}, (∀ a ∈ l, Adds load (cost a) (f a)) → Adds load (l.map cost).sum (l.forM f)
  | [], _ => fun _ => Nat.le_refl _
  | a :: _, h => adds_bind (h a List.mem_cons_self) fun _ =>
      adds_forM fun b hb => h b (List.mem_cons_of_mem _ hb)

variable (hS : Spends S load)

include hS

theorem adds_queue (target : Option PathId) (frame : Frame) :
    Adds load frame.weight (queue S target frame) := fun c => hS.queueControl c.session frame target

theorem adds_queueUpdates (target : Option PathId) (updates : List WindowUpdate) :
    Adds load updates.length (queueUpdates S target updates) := by
  have hall : Adds load (updates.map fun _ => 1).sum (queueUpdates S target updates) :=
    adds_forM fun f _ => adds_queue hS target (.windowUpdate f)
  rwa [List.map_const', List.sum_replicate_nat, Nat.mul_one] at hall

theorem adds_redistribute (origin : PathId) (frame : Frame) :
    Adds load 1 (redistribute S origin frame) := by
  have hqueue : ∀ frame, Adds load 1 (queue S (some origin) frame) := fun frame c =>
    Nat.le_trans (adds_queue hS (some origin) frame c)
      (Nat.add_le_add_left (by unfold Frame.weight; split <;> decide) _)
  unfold redistribute
  split
  · exact fun c => hS.returnStream c.session _
  · refine keeps_get_bind fun c => ?_
    split
    · exact hqueue _ c
    · exact Nat.le_succ _
  · exact fun c => hS.schedulePaths c.session
  · exact hqueue _

theorem lighter_queueStopWaiting (id : PathId) (force : Bool) :
    Keeps (Lighter load) (queueStopWaiting S id force) := by
  intro c
  rw [queueStopWaiting_eq]
  cases ((c.path id).stopWaiting force).1 with
  | none => exact Nat.le_refl _
  | some number => exact adds_queue hS (some id) (.stopWaiting number) _

theorem lighter_transmit (id : PathId) (packet : Packet) :
    Keeps (Lighter load) (transmit S id packet) :=
  keeps_bind accrues_lighter (lighter_callOn fun s path => hS.send s packet path) fun _ =>
    keeps_modify fun _ => Nat.le_refl _

theorem lighter_probe (origin : Option PathId) : Keeps (Lighter load) (probe S origin) := by
  unfold probe
  split
  · rename_i origin
    refine keeps_get_bind fun c => ?_
    split
    · exact lighter_callOn hS.ping c
    · exact Nat.le_refl _
  · exact keeps_pure accrues_lighter _

theorem lighter_resendHandshake (id : PathId) (lost : Packet) :
    Keeps (Lighter load) (resendHandshake S id lost) :=
  keeps_bind accrues_lighter (lighter_queueStopWaiting hS id true) fun _ =>
    keeps_bind accrues_lighter (lighter_callOn fun s path => hS.packHandshake s lost path)
      fun packet => lighter_transmit hS id packet

/-- The frames that are taken were counted before, and the others do not count. -/
theorem lighter_attachControl (id : PathId) (hasReturnedStreams : Bool) :
    Keeps (Lighter load) (attachControl S id hasReturnedStreams) := by
  have hframes : Keeps (Lighter load) (do
      let frames ← takePathControl S
      frames.forM (queue S (some id))) := by
    intro c
    have htaken := hS.takePathControl c.session
    have hqueued : Adds load ((S.takePathControl c.session).1.map Frame.weight).sum
        ((S.takePathControl c.session).1.forM (queue S (some id))) :=
      adds_forM fun frame _ => adds_queue hS (some id) frame
    rw [Frame.sum_weight] at hqueued
    exact Nat.le_trans (hqueued { c with session := (S.takePathControl c.session).2 }) htaken
  have hrest : ∀ found : Option AckFrame, Keeps (Lighter load) (do
      if found.isSome || hasReturnedStreams then
        queueStopWaiting S id hasReturnedStreams
      let frames ← takePathControl S
      frames.forM (queue S (some id))) := by
    intro found
    dsimp only
    split
    · exact keeps_bind accrues_lighter (lighter_queueStopWaiting hS id _) fun _ => hframes
    · exact hframes
  refine keeps_get_bind fun c =>
    keeps_bind accrues_lighter (lighter_takeAck id _) (fun found => ?_) c
  cases found with
  | none => exact hrest none
  | some frame =>
      have hqueue : Keeps (Lighter load) (queue S (some id) (.ack frame)) :=
        adds_queue hS (some id) (.ack frame)
      exact keeps_bind accrues_lighter hqueue fun _ => hrest (some frame)

end Adds

/-! ### What a round takes out -/

section Weight

variable {found recovery : Recovery} {updates updates' : List WindowUpdate} {id : PathId}
  {packet : Packet} {c c' : Connection σ}

theorem weight_le (hlighter : Lighter load c c') (hqueues : SameQueues c c') :
    weight load c' ≤ weight load c := by
  rw [weight, weight, PathSet.weight_congr hqueues]
  exact Nat.add_le_add_right hlighter _

/-- A copy is made and entered, or nothing is done. -/
theorem hedge_cases (load : σ → Nat) (h : hedge id packet c = .ok () c') :
    c.needsHedge id = true ∧ weight load c' ≤ weight load c + packet.weight ∧
        c'.lively = c.lively + 1 ∨
      c.needsHedge id = false ∧ c' = c := by
  rw [hedge_eq] at h
  cases hneeds : c.needsHedge id with
  | true =>
      rw [hneeds, if_pos rfl] at h
      cases h
      have hcopy := c.paths.weight_queueCopy_le id packet
      refine .inl ⟨rfl, ?_, ?_⟩
      · show load c.session + _ ≤ load c.session + c.paths.weight + packet.weight
        rw [Nat.add_assoc]
        exact Nat.add_le_add_left hcopy _
      · rw [lively, events_note, List.countP_append]
        rfl
  | false =>
      rw [hneeds] at h
      cases h
      exact .inr ⟨rfl, rfl⟩

variable (hS : Spends S load)

include hS

/-- Taking back hands the session no more than the queues lose; a handshake packet that is found
is not handed to it at all. -/
theorem weight_takesBack (h : TakesBack S found c recovery c') (hfound : found.handshake = none) :
    weight load c' + recovery.handshake.toList.length ≤ weight load c := by
  induction h with
  | stop => simp [hfound]
  | drop hdequeue _ _ _ ih =>
      have := ih hfound
      rw [weight, weight, PathSet.weight_of_dequeue? hdequeue]
      rw [weight, weight] at this
      simp only [session_drained, paths_drained] at this
      omega
  | @handshake found c id packet paths hdequeue _ _ =>
      have := packet.one_le_weight
      rw [weight, weight, PathSet.weight_of_dequeue? hdequeue]
      simp only [session_drained, paths_drained, Option.toList_some, List.length_singleton]
      omega
  | @apart found c id packet paths c₁ recovery c' hdequeue _ hframes _ ih =>
      have hrest := ih hfound
      have hpaths : c₁.paths = paths :=
        (keeps_forM accrues_paths fun frame _ => keeps_paths_redistribute id frame).ok hframes
      have hadds : Adds load (packet.framesToResend.map fun _ => 1).sum
          (packet.framesToResend.forM (redistribute S id)) :=
        adds_forM fun frame _ => adds_redistribute hS id frame
      have hload := hadds.ok hframes
      rw [List.map_const', List.sum_replicate_nat, Nat.mul_one, session_drained] at hload
      have := packet.length_framesToResend_le
      have hweight : weight load c = load c.session + (packet.weight + paths.weight) := by
        rw [weight, PathSet.weight_of_dequeue? hdequeue]
      have hweight₁ : weight load c₁ = load c₁.session + paths.weight := by rw [weight, hpaths]
      omega

/-- A packet is worth what it takes out of the session; a sign of life pays for itself. -/
theorem weight_sendNext (h : sendNext S updates id c = .ok (some packet) c') :
    weight load c' + packet.weight + c.lively ≤ weight load c + updates.length + c'.lively ∧
      ((c.path id).telemetry.retransmittableDue = false →
        weight load c' + packet.weight ≤ weight load c + updates.length) := by
  have hqueues : c'.paths.weight = c.paths.weight :=
    PathSet.weight_congr (((calm_sameQueues S).sendNext (fun _ _ => rfl) updates id).ok h)
  have hlively : c.lively ≤ c'.lively :=
    ((tame_livelier S).toCalm.sendNext (tame_livelier S).bump updates id).ok h
  obtain ⟨c₁, c₂, hdue, hpack, hrest⟩ := sendNext_cases h
  obtain ⟨packet', c₃, c₄, heq, hsend, hupdates, hfinish⟩ := hrest.resolve_left (by simp)
  cases heq
  obtain ⟨hresult, hsession, -⟩ := callOn_ok hpack
  have hpacked : load c₂.session + packet.weight ≤ load c₁.session := hsession ▸ hS.pack hresult
  have hsent : load c₃.session ≤ load c₂.session := (lighter_transmit hS id packet).ok hsend
  have hupdated : load c₄.session ≤ load c₃.session + updates.length :=
    (adds_queueUpdates hS (some id) updates).ok hupdates
  have hfinishes : Keeps (Lighter load) (packet.finishedStreams.forM fun _ => finishStream S) :=
    keeps_forM accrues_lighter fun _ _ => lighter_finishStream
  have hfinished := hfinishes.ok hfinish
  change load c'.session ≤ load c₄.session at hfinished
  rw [weight, weight, hqueues]
  rcases hdue with ⟨hdue, rfl⟩ | ⟨hdue, hqueue⟩
  · exact ⟨by omega, fun _ => by omega⟩
  · -- the sign of life is in the journal, and weighs one frame
    refine ⟨?_, fun hnot => absurd (hdue.symm.trans hnot) nofun⟩
    have hping : load c₁.session ≤ load c.session + 1 := (adds_queue hS (some id) .ping).ok hqueue
    have hone : c₁.lively = c.lively + 1 := by
      cases hqueue
      rw [lively, events_note, List.countP_append]
      rfl
    have hrest : c₁.lively ≤ c'.lively := by
      have htame := tame_livelier S
      calc c₁.lively ≤ c₂.lively := (htame.pack id).ok hpack
        _ ≤ c₃.lively := (htame.transmit id packet).ok hsend
        _ ≤ c₄.lively := (htame.queueUpdates (some id) updates).ok hupdates
        _ ≤ lively { c₄ with scheduler := c₄.scheduler.bumpQuota id } := htame.bump c₄ id
        _ ≤ c'.lively := (keeps_forM accrues_livelier fun _ _ => htame.finishStream).ok hfinish
    omega

/-- What the frames attached to a packet add to what is left to send. -/
theorem weight_attachControl {returned : Bool} (h : attachControl S id returned c = .ok () c') :
    weight load c' ≤ weight load c :=
  weight_le ((lighter_attachControl hS id returned).ok h)
    (((calm_sameQueues S).attachControl sameQueues_takeAck id returned).ok h)

theorem weight_probe {origin : Option PathId} (h : probe S origin c = .ok () c') :
    weight load c' ≤ weight load c :=
  weight_le ((lighter_probe hS origin).ok h) (((calm_sameQueues S).probe origin).ok h)

theorem weight_resendHandshake {lost : Packet} (h : resendHandshake S id lost c = .ok () c') :
    weight load c' ≤ weight load c :=
  weight_le ((lighter_resendHandshake hS id lost).ok h)
    (((calm_sameQueues S).resendHandshake (fun _ _ => sameQueues_callOn) id lost).ok h)

/-- **A round after which the run goes on takes something out**, unless it makes a copy or asks
for a sign of life. -/
theorem round_spends (h : sendRound S updates c = .ok (some updates') c') :
    weight load c' + updates'.length + c.lively + 1 ≤
      weight load c + updates.length + c'.lively := by
  obtain ⟨recovery, c₁, chosen, c₂, hback, hchoose, hproceeds⟩ := round_ok h
  have htame := tame_livelier S
  have hweight₁ := weight_takesBack hS (takeBack_ok hback) rfl
  have hweight₂ : weight load c₂ = weight load c₁ := by
    rw [(choose_ok hchoose).2]
    rfl
  have hlively : c.lively ≤ c₂.lively :=
    Nat.le_trans (htame.takeBack.ok hback) ((htame.choose _).ok hchoose)
  cases hproceeds with
  | resend hlost hresend =>
      have hweight₃ := weight_resendHandshake hS hresend
      have hlively₃ : c₂.lively ≤ c'.lively := (htame.resendHandshake _ _).ok hresend
      rw [hlost] at hweight₁
      simp only [Option.toList_some, List.length_singleton] at hweight₁
      omega
  | @carry id packet c₃ c₄ c₅ c' hlost hattach hsend hhedge hprobe =>
      have hweight₃ := weight_attachControl hS hattach
      have hlively₃ : c₂.lively ≤ c₃.lively :=
        (htame.toCalm.attachControl livelier_takeAck _ _).ok hattach
      have hweight₄ := (weight_sendNext hS hsend).1
      have hweight₆ := weight_probe hS hprobe
      have hlively₆ : c₅.lively ≤ c'.lively := (htame.probe _).ok hprobe
      have hworth := packet.one_le_weight
      simp only [List.length_nil]
      rcases hedge_cases load hhedge with ⟨-, hweight₅, hlively₅⟩ | ⟨-, rfl⟩
      · omega
      · omega

/-- So many rounds after which the run goes on take so much out. -/
theorem rounds_spend {n : Nat} (h : sendRounds S n updates c = .ok .outOfRounds c') :
    weight load c' + c.lively + n ≤ weight load c + updates.length + c'.lively := by
  induction n generalizing updates c with
  | zero =>
      cases h
      omega
  | succ n ih =>
      obtain ⟨answer, c₁, hround, hrest⟩ := bind_ok h
      cases answer with
      | none => cases (pure_ok hrest).1
      | some updates₁ =>
          have hspent := round_spends hS hround
          have hspend := ih hrest
          omega

end Weight

end Connection

end Multipath
