import Multipath.Proofs.Receiver.Runs

/-!
# Deadlines are counted once

A receiver keeps two counts of met and missed deadlines: one for its lifetime, which only grows, and
one for the next acknowledgement, which stops at `2 ^ 16 - 1` and begins anew when an
acknowledgement is handed out.  Asking for one in vain leaves both alone.

* `DeadlineCounts`: what a receiver has counted (`Receiver.deadlineCounts`), and what its log says
  should be counted (`ofLog`).
* `deadlineCounts_receive`, `deadlineCounts_judge`, `deadlineCounts_ack`: what the calls do to the
  counts.
* `deadlineCounts_run`: after every run both are the same.  `outcomes_run`: the log has the outcomes
  of the calls, each once.
* `ack_counts_deadlines`: what acknowledgements and statistics say of the calls.
-/

namespace Multipath

open Receipt

/-! ### Outcomes -/

/-- How the deadline comes out that a call asks about. -/
def ReceiverCall.outcome? : ReceiverCall → Option DeadlineOutcome
  | .judge none _ => some .noDeadline
  | .judge (some deadline) arrival => some (if arrival < deadline then .met else .missed)
  | _ => none

/-- The outcome that was handed out. -/
def Receipt.outcome? : Receipt → Option DeadlineOutcome
  | .judged outcome => some outcome
  | _ => none

theorem Receipt.count_judged (outcome : DeadlineOutcome) (log : List Receipt) :
    log.count (.judged outcome) = (log.filterMap Receipt.outcome?).count outcome := by
  rw [List.count, List.count, List.countP_filterMap]
  refine List.countP_congr fun e _ => ?_
  cases e <;> simp [Receipt.outcome?]

/-! ### Counts -/

/-- Counts of met and missed deadlines. -/
structure DeadlineCounts where
  /-- Since the last acknowledgement, up to `2 ^ 16 - 1`. -/
  metSinceAck : Nat
  /-- Since the last acknowledgement, up to `2 ^ 16 - 1`. -/
  missedSinceAck : Nat
  withDeadline : Nat
  met : Nat
  missed : Nat

namespace DeadlineCounts

/-- The greatest count since an acknowledgement. -/
def ceiling : Nat := 65535

/-- What the receipts of a log add up to. -/
def ofLog (log : List Receipt) : DeadlineCounts where
  metSinceAck := min ceiling ((sinceAck log).count (.judged .met))
  missedSinceAck := min ceiling ((sinceAck log).count (.judged .missed))
  withDeadline := log.count (.judged .met) + log.count (.judged .missed)
  met := log.count (.judged .met)
  missed := log.count (.judged .missed)

/-- One more deadline has come out like this. -/
def add (c : DeadlineCounts) : DeadlineOutcome → DeadlineCounts
  | .noDeadline => c
  | .met =>
    { c with
      metSinceAck := min ceiling (c.metSinceAck + 1)
      withDeadline := c.withDeadline + 1
      met := c.met + 1 }
  | .missed =>
    { c with
      missedSinceAck := min ceiling (c.missedSinceAck + 1)
      withDeadline := c.withDeadline + 1
      missed := c.missed + 1 }

/-- An acknowledgement has reported the counts since the last one. -/
def reported (c : DeadlineCounts) : DeadlineCounts :=
  { c with metSinceAck := 0, missedSinceAck := 0 }

variable {log : List Receipt}

theorem ofLog_accepted {n : PacketNumber} {asks : Bool} {time : Instant} :
    ofLog (.accepted n asks time :: log) = ofLog log := by
  simp [ofLog, sinceAck]

theorem ofLog_acknowledged {frame : AckFrame} :
    ofLog (.acknowledged frame :: log) = (ofLog log).reported := by
  simp [ofLog, reported, sinceAck]

theorem ofLog_judged {outcome : DeadlineOutcome} :
    ofLog (.judged outcome :: log) = (ofLog log).add outcome := by
  cases outcome with
  | noDeadline => simp [ofLog, add, sinceAck]
  | met | missed =>
      simp only [ofLog, add, sinceAck, List.count_cons, ceiling]
      simp
      omega

end DeadlineCounts

namespace Receiver

/-- What a receiver has counted. -/
def deadlineCounts (r : Receiver) : DeadlineCounts where
  metSinceAck := r.metSinceAck.toNat
  missedSinceAck := r.missedSinceAck.toNat
  withDeadline := r.statistics.withDeadline
  met := r.statistics.deadlineMet
  missed := r.statistics.deadlineMissed

variable {r r' : Receiver}

theorem toNat_saturatingAdd (a b : UInt16) :
    (saturatingAdd a b).toNat = min DeadlineCounts.ceiling (a.toNat + b.toNat) := by
  rw [saturatingAdd, UInt16.toNat_ofNat_of_lt' (Nat.lt_succ_of_le (Nat.min_le_right _ _)),
    Nat.min_comm]
  rfl

/-- Taking in a packet counts no deadline. -/
theorem deadlineCounts_receive {n : PacketNumber} {asks : Bool} {now : Instant}
    (h : r.receive n asks now = .ok r') : r'.deadlineCounts = r.deadlineCounts := by
  rcases r.receive_cases n asks now with ⟨e, hr⟩ | hr | ⟨history, -, -, hr⟩
  · rw [hr] at h
    cases h
  · obtain rfl := Except.ok.inj (hr.symm.trans h)
    rfl
  · obtain rfl := Except.ok.inj (hr.symm.trans h)
    obtain ⟨queued, alarm, hsettle⟩ := (r.enter history n asks now).settle_eq n asks now
    rw [hsettle]
    rfl

theorem deadlineCounts_raiseFloor (n : PacketNumber) :
    (r.raiseFloor n).deadlineCounts = r.deadlineCounts := by
  unfold raiseFloor
  split <;> rfl

theorem deadlineCounts_setAlpha (alpha : UInt16) :
    (r.setAlpha alpha).deadlineCounts = r.deadlineCounts := by
  unfold setAlpha
  split <;> rfl

/-- An acknowledgement that is handed out reports the counts, and one that is not leaves them. -/
theorem deadlineCounts_ack (r : Receiver) (now : Instant) : (r.ack now).2.deadlineCounts =
    if (r.ack now).1.isSome then r.deadlineCounts.reported else r.deadlineCounts := by
  rcases r.ack_cases now with ⟨-, h⟩ | ⟨-, -, h⟩ | ⟨lowest, -, -, h⟩ <;> rw [h] <;> rfl

/-- What is counted is what comes out. -/
theorem deadlineCounts_judge (r : Receiver) (deadline : Option Instant) (arrival : Instant) :
    (r.judge deadline arrival).2.deadlineCounts =
      r.deadlineCounts.add (r.judge deadline arrival).1 := by
  unfold judge
  split
  · rfl
  · split <;> simp only [deadlineCounts, DeadlineCounts.add, toNat_saturatingAdd] <;> rfl

/-- What comes out is what the call asks about. -/
theorem judge_outcome (r : Receiver) (deadline : Option Instant) (arrival : Instant) :
    ReceiverCall.outcome? (.judge deadline arrival) = some (r.judge deadline arrival).1 := by
  unfold judge
  split
  · rfl
  · rw [ReceiverCall.outcome?]
    split <;> rfl

/-- An acknowledgement carries the counts. -/
theorem counts_of_ack {now : Instant} {frame : AckFrame} (h : (r.ack now).1 = some frame) :
    frame.metDeadline.toNat = r.deadlineCounts.metSinceAck ∧
      frame.hadDeadline.toNat = min DeadlineCounts.ceiling
        (r.deadlineCounts.metSinceAck + r.deadlineCounts.missedSinceAck) := by
  rcases r.ack_cases now with ⟨-, hack⟩ | ⟨-, -, hack⟩ | ⟨lowest, -, -, hack⟩
  · simp [hack] at h
  · simp [hack] at h
  · rw [hack] at h
    obtain rfl := Option.some.inj h
    exact ⟨rfl, toNat_saturatingAdd _ _⟩

end Receiver

namespace Watched

variable {w : Watched}

/-! ### Runs -/

/-- A packet leaves a receipt if it is accepted, and none otherwise. -/
theorem step_receive (w : Watched) (n : PacketNumber) (asks : Bool) (now : Instant) :
    (w.step (.receive n asks now)).receiver.deadlineCounts = w.receiver.deadlineCounts ∧
      ((w.step (.receive n asks now)).log = w.log ∨
        (w.step (.receive n asks now)).log = .accepted n asks now :: w.log) := by
  simp only [step]
  split
  · exact ⟨rfl, .inl rfl⟩
  · split
    · exact ⟨Receiver.deadlineCounts_receive ‹_›, .inr rfl⟩
    · exact ⟨Receiver.deadlineCounts_receive ‹_›, .inl rfl⟩

theorem step_ack (w : Watched) (now : Instant) : w.step (.ack now) =
    ⟨(w.receiver.ack now).2, ((w.receiver.ack now).1.map .acknowledged).toList ++ w.log⟩ := by
  simp only [step]
  split <;> rename_i h <;> rw [h] <;> rfl

/-- A call counts what it writes. -/
theorem deadlineCounts_step (h : w.receiver.deadlineCounts = .ofLog w.log) (call : ReceiverCall) :
    (w.step call).receiver.deadlineCounts = .ofLog (w.step call).log := by
  cases call with
  | receive n asks now =>
      obtain ⟨hcounts, hlog | hlog⟩ := w.step_receive n asks now
      · rw [hcounts, hlog, h]
      · rw [hcounts, hlog, h, DeadlineCounts.ofLog_accepted]
  | ack now =>
      rw [step_ack, Receiver.deadlineCounts_ack, h]
      cases (w.receiver.ack now).1 with
      | none => rfl
      | some frame => exact DeadlineCounts.ofLog_acknowledged.symm
  | raiseFloor n => exact (Receiver.deadlineCounts_raiseFloor n).trans h
  | judge deadline arrival =>
      simp only [step]
      rw [Receiver.deadlineCounts_judge, h, DeadlineCounts.ofLog_judged]
  | setNotSent count => exact h
  | setAlpha alpha => exact (Receiver.deadlineCounts_setAlpha alpha).trans h

theorem deadlineCounts_run (version : Version) (ackDelay : Duration)
    (calls : List ReceiverCall) : (run version ackDelay calls).receiver.deadlineCounts =
      .ofLog (run version ackDelay calls).log :=
  List.foldlRecOn calls step (motive := fun w => w.receiver.deadlineCounts = .ofLog w.log) rfl
    fun _ h call _ => deadlineCounts_step h call

theorem outcomes_step (w : Watched) (call : ReceiverCall) :
    (w.step call).log.filterMap Receipt.outcome? =
      call.outcome?.toList ++ w.log.filterMap Receipt.outcome? := by
  cases call with
  | receive n asks now =>
      obtain ⟨-, hlog | hlog⟩ := w.step_receive n asks now <;> rw [hlog] <;> rfl
  | ack now =>
      rw [step_ack]
      cases (w.receiver.ack now).1 <;> rfl
  | judge deadline arrival =>
      rw [w.receiver.judge_outcome deadline arrival]
      rfl
  | raiseFloor | setNotSent | setAlpha => rfl

theorem outcomes_steps (calls : List ReceiverCall) (w : Watched) :
    (calls.foldl step w).log.filterMap Receipt.outcome? =
      (calls.filterMap ReceiverCall.outcome?).reverse ++ w.log.filterMap Receipt.outcome? := by
  induction calls generalizing w with
  | nil => rfl
  | cons call calls ih =>
      rw [List.foldl_cons, ih, outcomes_step]
      cases h : call.outcome? <;> simp [h]

/-- The outcomes in the log are those of the calls, the newest first. -/
theorem outcomes_run (version : Version) (ackDelay : Duration) (calls : List ReceiverCall) :
    (run version ackDelay calls).log.filterMap Receipt.outcome? =
      (calls.filterMap ReceiverCall.outcome?).reverse :=
  (outcomes_steps calls _).trans (List.append_nil _)

theorem count_log (version : Version) (ackDelay : Duration) (calls : List ReceiverCall)
    (outcome : DeadlineOutcome) : (run version ackDelay calls).log.count (.judged outcome) =
      (calls.filterMap ReceiverCall.outcome?).count outcome := by
  rw [count_judged, outcomes_run, List.count_reverse]

end Watched

open Watched

/-- **Deadlines are counted once.**  After any run, the acknowledgement that goes out reports how
many deadlines were met, and how many were met or missed, since the last acknowledgement went out,
each up to `2 ^ 16 - 1`.  The lifetime statistics say how many of all the calls came out as met, as
missed, and as either. -/
theorem ack_counts_deadlines (version : Version) (ackDelay : Duration)
    (calls : List ReceiverCall) :
    let w := run version ackDelay calls
    let met := (sinceAck w.log).count (.judged .met)
    let missed := (sinceAck w.log).count (.judged .missed)
    let outcomes := calls.filterMap ReceiverCall.outcome?
    (∀ now frame, (w.receiver.ack now).1 = some frame →
      frame.metDeadline.toNat = min 65535 met ∧
        frame.hadDeadline.toNat = min 65535 (met + missed)) ∧
    w.receiver.statistics.deadlineMet = outcomes.count .met ∧
    w.receiver.statistics.deadlineMissed = outcomes.count .missed ∧
    w.receiver.statistics.withDeadline =
      w.receiver.statistics.deadlineMet + w.receiver.statistics.deadlineMissed ∧
    w.receiver.statistics.withDeadline = outcomes.countP (· != .noDeadline) := by
  intro w met missed outcomes
  have hcounts : w.receiver.deadlineCounts = .ofLog w.log :=
    deadlineCounts_run version ackDelay calls
  have hmet : w.receiver.statistics.deadlineMet = outcomes.count .met :=
    (congrArg DeadlineCounts.met hcounts).trans (count_log version ackDelay calls .met)
  have hmissed : w.receiver.statistics.deadlineMissed = outcomes.count .missed :=
    (congrArg DeadlineCounts.missed hcounts).trans (count_log version ackDelay calls .missed)
  have htotal : w.receiver.statistics.withDeadline =
      w.receiver.statistics.deadlineMet + w.receiver.statistics.deadlineMissed := by
    have hwith : w.receiver.statistics.withDeadline =
        w.log.count (.judged .met) + w.log.count (.judged .missed) :=
      congrArg DeadlineCounts.withDeadline hcounts
    rw [hwith, hmet, hmissed, count_log, count_log]
  refine ⟨fun now frame hack => ?_, hmet, hmissed, htotal, ?_⟩
  · obtain ⟨hframe, hframe'⟩ := Receiver.counts_of_ack hack
    rw [hcounts] at hframe hframe'
    refine ⟨hframe, hframe'.trans ?_⟩
    simp only [DeadlineCounts.ofLog, DeadlineCounts.ceiling, met, missed]
    omega
  · rw [htotal, hmet, hmissed]
    -- an outcome with a deadline is met or missed
    induction outcomes with
    | nil => rfl
    | cons outcome outcomes ih =>
        cases outcome <;> simp [ih] <;> omega

end Multipath
