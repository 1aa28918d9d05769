import Multipath.Proofs.Receiver.Triggers

/-!
# No acknowledgement without a packet

Only a packet that is accepted queues an acknowledgement or sets the alarm, and queueing clears the
alarm.  An acknowledgement clears both, so the next one needs another packet, however often it is
asked for.

* `Earned`: at most one of the two is in force, either of them is owed to a packet accepted since
  the last acknowledgement, and every acknowledgement has had a packet of its own.  `earned_run`:
  this holds after every run.
* `suffix_steps`: further calls write on top of the log.  So a receiver that has handed out an
  acknowledgement is idle as long as nothing new is written but outcomes of deadlines.
* `ack_needs_packet`: what this means for every run.
-/

namespace Multipath

namespace Receipt

/-- An acknowledgement that was handed out. -/
def isAcknowledged : Receipt → Bool
  | .acknowledged _ => true
  | _ => false

/-- Nothing from before an acknowledgement has happened since the last one. -/
theorem mem_of_mem_sinceAck_append {e : Receipt} {frame : AckFrame} {log : List Receipt} :
    ∀ {new : List Receipt}, e ∈ sinceAck (new ++ .acknowledged frame :: log) → e ∈ new
  | [], h => absurd h List.not_mem_nil
  | .acknowledged _ :: _, h => absurd h List.not_mem_nil
  | .accepted .. :: new, h | .judged _ :: new, h => by
      rcases List.mem_cons.mp h with rfl | h
      · exact List.mem_cons_self
      · exact List.mem_cons_of_mem _ (mem_of_mem_sinceAck_append h)

end Receipt

open Receipt

namespace Receiver

variable {r : Receiver}

/-- What is due is queued, or its alarm has been set. -/
theorem trigger_ne_idle_of_isDue {now : Instant} (h : r.isDue now = true) : r.trigger ≠ .idle := by
  intro hidle
  obtain ⟨hqueued, halarm⟩ := trigger_eq_idle.mp hidle
  simp [isDue, hqueued, halarm] at h

end Receiver

/-! ### Growing logs -/

theorem Move.suffix {w w' : Watched} (hmove : Move w w') : w.log <:+ w'.log := by
  cases hmove with
  | aside | disarm | raise => exact List.suffix_rfl
  | judge | accept | acknowledge => exact List.suffix_cons _ _

namespace Watched

variable {w w' : Watched}

theorem suffix_steps (later : List ReceiverCall) : w.log <:+ (later.foldl step w).log :=
  List.foldlRecOn later step (motive := fun w' => w.log <:+ w'.log) List.suffix_rfl
    fun w' h call _ => h.trans (step_move w' call).suffix

/-! ### Earned acknowledgements -/

/-- Acknowledgements are owed to packets. -/
structure Earned (w : Watched) : Prop where
  exclusive : w.receiver.ackQueued = true → w.receiver.ackAlarm = none
  due : w.receiver.trigger ≠ .idle → 0 < (sinceAck w.log).countP isAccepted
  /-- The packets accepted since the last acknowledgement are left over for the next one. -/
  spent : w.log.countP isAcknowledged + (sinceAck w.log).countP isAccepted ≤
    w.log.countP isAccepted

theorem earned_start (version : Version) (ackDelay : Duration) :
    Earned ⟨.new version ackDelay, []⟩ :=
  ⟨fun _ => rfl, fun h => absurd rfl h, Nat.le_refl 0⟩

theorem Earned.accept (he : Earned w) {n : PacketNumber} {asks : Bool} {now : Instant}
    {history : History} :
    Earned ⟨(w.receiver.enter history n asks now).settle n asks now,
      .accepted n asks now :: w.log⟩ := by
  refine ⟨fun hqueued => ?_, fun _ => ?_, ?_⟩
  · rcases (w.receiver.enter history n asks now).settle_cases n asks now with
      ⟨-, hsettle⟩ | ⟨⟨hnot, -⟩, ⟨-, -, hsettle⟩ | ⟨-, hsettle⟩⟩
    · rw [hsettle]
    · rw [hsettle] at hqueued
      exact absurd hqueued (by simp [hnot])
    · rw [hsettle] at hqueued
      exact absurd hqueued (by simp [hnot])
  · exact List.countP_pos_iff.mpr ⟨.accepted n asks now, List.mem_cons_self, rfl⟩
  · have := he.spent
    simp only [sinceAck, List.countP_cons, isAccepted, isAcknowledged, if_true, Bool.false_eq_true,
      if_false]
    omega

theorem Earned.move (he : Earned w) (hmove : Move w w') : Earned w' := by
  cases hmove with
  | aside => exact ⟨he.exclusive, he.due, he.spent⟩
  | judge =>
      refine ⟨he.exclusive, fun h => ?_, ?_⟩
      · simpa [sinceAck, isAccepted] using he.due h
      · simpa [sinceAck, isAccepted, isAcknowledged] using he.spent
  | accept => exact he.accept
  | acknowledge lowest now hdue hlow =>
      -- one of the packets accepted since the last acknowledgement pays for this one
      have hpaid := he.due (Receiver.trigger_ne_idle_of_isDue hdue)
      have hspent := he.spent
      refine ⟨fun _ => rfl, fun h => absurd rfl h, ?_⟩
      simp only [sinceAck, List.countP_cons, List.countP_nil, isAccepted, isAcknowledged, if_true,
        Bool.false_eq_true, if_false]
      omega
  | disarm => exact ⟨fun _ => rfl, fun h => absurd rfl h, he.spent⟩
  | raise => exact ⟨he.exclusive, he.due, he.spent⟩

theorem earned_run (version : Version) (ackDelay : Duration) (calls : List ReceiverCall) :
    Earned (run version ackDelay calls) :=
  run_induction (earned_start version ackDelay) Earned.move calls

/-- While nothing is accepted, a receiver that has handed out an acknowledgement stays idle. -/
theorem Earned.trigger_of_suffix (he : Earned w) {frame : AckFrame} {log : List Receipt}
    (hsuffix : .acknowledged frame :: log <:+ w.log)
    (hnone : w.log.countP isAccepted = log.countP isAccepted) : w.receiver.trigger = .idle := by
  by_contra hdue
  obtain ⟨new, hlog⟩ := hsuffix
  obtain ⟨e, he, haccepted⟩ := List.countP_pos_iff.mp (he.due hdue)
  rw [← hlog] at he hnone
  have hnew : 0 < new.countP isAccepted :=
    List.countP_pos_iff.mpr ⟨e, mem_of_mem_sinceAck_append he, haccepted⟩
  simp only [List.countP_append, List.countP_cons, isAccepted, Bool.false_eq_true,
    if_false] at hnone
  omega

end Watched

open Watched

/-- **No acknowledgement without a packet.**  After any run, not both an acknowledgement is queued
and the alarm set; if one of the two is in force, a packet was accepted since the last
acknowledgement; and no more acknowledgements were handed out than packets accepted.  Once one is
handed out, none is due and none is handed out at any time, whatever calls follow, until the next
packet is accepted. -/
theorem ack_needs_packet (version : Version) (ackDelay : Duration) (calls : List ReceiverCall) :
    let w := run version ackDelay calls
    ¬ (w.receiver.ackQueued = true ∧ w.receiver.ackAlarm ≠ none) ∧
    (w.receiver.trigger ≠ .idle → ∃ n asks time, .accepted n asks time ∈ sinceAck w.log) ∧
    (∀ now frame, (w.receiver.ack now).1 = some frame → ∀ later : List ReceiverCall,
      let w' := run version ackDelay (calls ++ .ack now :: later)
      w'.log.countP isAccepted = w.log.countP isAccepted →
        w'.receiver.trigger = .idle ∧ ∀ now', w'.receiver.ack now' = (none, w'.receiver)) ∧
    w.log.countP isAcknowledged ≤ w.log.countP isAccepted := by
  intro w
  have he : Earned w := earned_run version ackDelay calls
  refine ⟨fun h => h.2 (he.exclusive h.1), fun hdue => ?_, fun now frame hack later => ?_,
    Nat.le_trans (Nat.le_add_right _ _) he.spent⟩
  · obtain ⟨e, hmem, haccepted⟩ := List.countP_pos_iff.mp (he.due hdue)
    cases e with
    | accepted n asks time => exact ⟨n, asks, time, hmem⟩
    | acknowledged | judged => cases haccepted
  · intro w' hnone
    have hrun : w' = later.foldl step (w.step (.ack now)) :=
      run_append version ackDelay calls (.ack now :: later)
    have hlog : (w.step (.ack now)).log = .acknowledged frame :: w.log := by
      simp only [step]
      split
      · rename_i frame' r h
        rw [h] at hack
        obtain rfl := Option.some.inj hack
        rfl
      · rename_i r h
        exact absurd (h ▸ hack) (by simp)
    have hsuffix : .acknowledged frame :: w.log <:+ w'.log := by
      rw [hrun, ← hlog]
      exact suffix_steps later
    have hidle : w'.receiver.trigger = .idle :=
      Earned.trigger_of_suffix (earned_run version ackDelay _) hsuffix hnone
    exact ⟨hidle, Receiver.ack_of_idle hidle⟩

end Multipath
