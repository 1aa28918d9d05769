import Multipath.Proofs.Receiver.Reports

/-!
# When an acknowledgement is due

As long as no acknowledgement is queued, the last one tells the peer all it has to know; and a
packet that asks for an acknowledgement is reported by the time its delay has passed.

* `Tallied`: the receiver knows the last acknowledgement of the log and counts what came after it.
* `UpToDate`: while none is queued, what arrived above the floor is what the last acknowledgement
  reports and an unbroken block after it, and few packets wait.  A packet that queues none
  continues the highest block (`mem_of_not_isNews`), so the invariant is kept.
* `Prompt`: an asking packet above the floor that was not acknowledged yet leaves an
  acknowledgement queued, or an alarm that is not later than the packet's arrival and the delay.
  An alarm that is set belongs to an asking packet, so a second one queues.
* `reported_of_not_queued`, `ack_within_delay`: what this means for every run.
-/

namespace Multipath

open Receipt

namespace Receiver

/-! ### Packets that are no news -/

/-- A packet that is no news continues the block of the last acknowledgement's end. -/
theorem mem_of_not_isNews {r : Receiver} {n : PacketNumber}
    (hs : History.Separated r.history.ranges) (hn : n ∈ r.history) (hnews : r.isNews n = false) :
    ∃ ack, r.lastAck = some ack ∧ ack.largest ≤ n ∧
      ∀ m, ack.largest ≤ m → m ≤ n → m ∈ r.history := by
  unfold isNews at hnews
  cases hack : r.lastAck with
  | none => simp [hack] at hnews
  | some ack =>
      simp only [hack, Bool.or_eq_false_iff, decide_eq_false_iff_not] at hnews
      obtain ⟨hle, hfirst⟩ := hnews
      obtain ⟨b, hb⟩ : ∃ b, r.history.highest? = some b := by
        cases hh : r.history.highest? with
        | none =>
            have : r.history.ranges = [] := List.head?_eq_none_iff.mp hh
            exact absurd (History.mem_iff.mp hn) (this ▸ History.covers_nil)
        | some b => exact ⟨b, rfl⟩
      rw [hb, Option.any_some, decide_eq_false_iff_not] at hfirst
      refine ⟨ack, rfl, Nat.not_lt.mp hle, fun m hm hmn => ?_⟩
      obtain ⟨hbmem, hhigh⟩ := History.le_highest hs hb
      exact History.mem_iff.mpr ⟨b, hbmem, AckRange.contains_iff.mpr
        ⟨Nat.le_trans (Nat.not_lt.mp hfirst) hm, Nat.le_trans hmn (hhigh n hn)⟩⟩

/-! ### What the last acknowledgement leaves out -/

/-- Beyond what the last acknowledgement reports, an unbroken block arrived: the peer misses no
hole and no filling of one. -/
def Reported (r : Receiver) : Prop :=
  match r.lastAck with
  | none => r.history.isEmpty = true
  | some ack => ∀ n, r.floor < n →
      (n ∈ r.history ↔ ack.acks n = true ∨ ack.largest < n ∧ n ≤ r.largest)

/-- Fewer packets wait for an acknowledgement than force one. -/
def FewWaiting (r : Receiver) : Prop :=
  r.unackedAsking < askingPacketsBeforeAck ∧
    (r.version.forcesPeriodicAck = true → r.unacked < packetsBeforeAck)

theorem trigger_eq_queued {r : Receiver} : r.trigger = .queued ↔ r.ackQueued = true := by
  unfold trigger
  cases r.ackQueued <;> cases r.ackAlarm <;> simp

theorem trigger_eq_idle {r : Receiver} :
    r.trigger = .idle ↔ r.ackQueued = false ∧ r.ackAlarm = none := by
  unfold trigger
  cases r.ackQueued <;> cases r.ackAlarm <;> simp

/-- Nothing is handed out while nothing is due. -/
theorem ack_of_idle {r : Receiver} (h : r.trigger = .idle) (now : Instant) :
    r.ack now = (none, r) := by
  obtain ⟨hqueued, halarm⟩ := trigger_eq_idle.mp h
  simp [ack, isDue, hqueued, halarm]

/-- An acknowledgement is due no more once it is handed out. -/
theorem trigger_of_ack {r : Receiver} {now : Instant} {frame : AckFrame}
    (h : (r.ack now).1 = some frame) : (r.ack now).2.trigger = .idle := by
  rcases r.ack_cases now with ⟨-, hack⟩ | ⟨-, -, hack⟩ | ⟨lowest, -, -, hack⟩
  · simp [hack] at h
  · simp [hack] at h
  · rw [hack]
    exact trigger_eq_idle.mpr ⟨rfl, rfl⟩

theorem lowest?_eq_none {r : Receiver} : r.lowest? = none ↔ r.history.isEmpty = true := by
  simp [lowest?, History.isEmpty]

/-- None waits after an acknowledgement. -/
theorem fewWaiting_restart (r : Receiver) (frame : AckFrame) : (r.restart frame).FewWaiting :=
  ⟨Nat.zero_lt_succ 1, fun _ => Nat.zero_lt_succ 19⟩

end Receiver

theorem AckFrame.le_largest {frame : AckFrame} {n : PacketNumber} (h : frame.acks n = true) :
    n ≤ frame.largest := by
  simp only [acks, Bool.and_eq_true, decide_eq_true_eq] at h
  exact h.1.2

namespace Watched

variable {w w' : Watched}

/-! ### The last acknowledgement and the counts -/

/-- The receiver's view of its log. -/
structure Tallied (w : Watched) : Prop where
  lastAck : w.receiver.lastAck = lastAck? w.log
  unacked : w.receiver.unacked = (sinceAck w.log).countP isAccepted
  unackedAsking : w.receiver.unackedAsking = (sinceAck w.log).countP isAsking
  /-- The last acknowledgement reports its own end, and nothing later than what arrived. -/
  ack_largest : ∀ {ack}, w.receiver.lastAck = some ack →
    ack.acks ack.largest = true ∧ ack.largest ≤ w.receiver.largest

theorem tallied_start (version : Version) (ackDelay : Duration) :
    Tallied ⟨.new version ackDelay, []⟩ :=
  ⟨rfl, rfl, rfl, fun h => absurd h (by simp [Receiver.new])⟩

theorem Tallied.accept (ht : Tallied w) {n : PacketNumber} {asks : Bool} {now : Instant}
    {history : History} :
    Tallied ⟨w.receiver.enter history n asks now, .accepted n asks now :: w.log⟩ := by
  refine ⟨ht.lastAck, ?_, ?_, fun hack => ⟨(ht.ack_largest hack).1, ?_⟩⟩
  · simp [Receiver.enter, sinceAck, List.countP_cons, isAccepted, ht.unacked]
  · cases asks <;> simp [Receiver.enter, sinceAck, List.countP_cons, isAsking, ht.unackedAsking]
  · have hle := (ht.ack_largest hack).2
    simp only [Receiver.enter]
    split
    · exact Nat.le_trans hle (Nat.le_of_lt ‹_›)
    · exact hle

theorem Tallied.move (hb : Booked w) (ht : Tallied w) (hmove : Move w w') : Tallied w' := by
  cases hmove with
  | aside => exact ⟨ht.lastAck, ht.unacked, ht.unackedAsking, ht.ack_largest⟩
  | judge => exact ⟨ht.lastAck, by simp [sinceAck, isAccepted, ht.unacked],
      by simp [sinceAck, isAsking, ht.unackedAsking], ht.ack_largest⟩
  | accept n asks now history =>
      obtain ⟨queued, alarm, hsettle⟩ :=
        (w.receiver.enter history n asks now).settle_eq n asks now
      have ht' : Tallied ⟨w.receiver.enter history n asks now, .accepted n asks now :: w.log⟩ :=
        ht.accept
      rw [hsettle]
      exact ⟨ht'.lastAck, ht'.unacked, ht'.unackedAsking, ht'.ack_largest⟩
  | acknowledge lowest now hdue hlow =>
      refine ⟨rfl, rfl, rfl, fun hack => ?_⟩
      obtain rfl := Option.some.inj hack
      have hrep := hb.report hlow
      exact ⟨(AckFrame.acks_iff hrep _).mpr hrep.largest_mem, Nat.le_refl _⟩
  | disarm => exact ⟨ht.lastAck, ht.unacked, ht.unackedAsking, ht.ack_largest⟩
  | raise => exact ⟨ht.lastAck, ht.unacked, ht.unackedAsking, ht.ack_largest⟩

/-! ### While no acknowledgement is queued -/

/-- While no acknowledgement is queued, the peer knows enough. -/
structure UpToDate (w : Watched) : Prop where
  reported : w.receiver.ackQueued = false → w.receiver.Reported
  few : w.receiver.ackQueued = false → w.receiver.history.isEmpty = false → w.receiver.FewWaiting

/-- Everything accepted lies at the floor or below it once the history is empty. -/
theorem Booked.largest_le_floor (hb : Booked w) (hempty : w.receiver.history.isEmpty = true) :
    w.receiver.largest ≤ w.receiver.floor := by
  have hnone := (History.isEmpty_iff hb.separated).mp hempty
  rcases hb.largest with hzero | ⟨asks, time, hlog, -⟩
  · rw [hzero]
    exact Nat.zero_le _
  · refine Nat.not_lt.mp fun hlt => hnone w.receiver.largest ?_
    exact (hb.mem_history _).mpr ⟨⟨asks, time, hlog⟩, hlt⟩

theorem upToDate_start (version : Version) (ackDelay : Duration) :
    UpToDate ⟨.new version ackDelay, []⟩ :=
  ⟨fun _ => rfl, fun _ h => absurd h (by simp [Receiver.new, History.empty, History.isEmpty])⟩

/-- A packet that queues no acknowledgement leaves the peer up to date. -/
theorem UpToDate.accept (hb : Booked w) (ht : Tallied w) (hu : UpToDate w) {n : PacketNumber}
    {asks : Bool} {now : Instant} {history : History} (hfloor : w.receiver.floor < n)
    (hrec : w.receiver.history.record n = .ok (true, history))
    (hqueued : w.receiver.ackQueued = false)
    (hnews : (w.receiver.enter history n asks now).isNews n = false)
    (hperiod : (w.receiver.enter history n asks now).periodElapsed = false)
    (hasks : asks = true →
      (w.receiver.enter history n asks now).unackedAsking < Receiver.askingPacketsBeforeAck) :
    (w.receiver.enter history n asks now).Reported ∧
      (w.receiver.enter history n asks now).FewWaiting := by
  obtain ⟨hnew, hsep, -, hmem⟩ := History.record_new hb.separated hrec
  obtain ⟨ack, hack, hle, hblock⟩ :=
    Receiver.mem_of_not_isNews (r := w.receiver.enter history n asks now) hsep
      ((hmem n).mpr (.inl rfl)) hnews
  have hack' : w.receiver.lastAck = some ack := hack
  -- the last acknowledgement's end is still above the floor, so it arrived before `n`
  have hb' : Booked ⟨w.receiver.enter history n asks now, .accepted n asks now :: w.log⟩ :=
    hb.accept hfloor hrec
  have hend : w.receiver.floor < ack.largest :=
    ((hb'.mem_history _).mp (hblock _ (Nat.le_refl _) hle)).2
  have hreported := hu.reported hqueued
  simp only [Receiver.Reported, hack'] at hreported
  have hendmem : ack.largest ∈ w.receiver.history :=
    (hreported _ hend).mpr (.inl (ht.ack_largest hack').1)
  have hlt : ack.largest < n := by
    refine Nat.lt_of_le_of_ne hle fun h => hnew ?_
    rw [← PacketNumber.val_inj.mp h]
    exact hendmem
  have hbeyond : w.receiver.largest < n :=
    Nat.not_le.mp fun h => hnew ((hreported n hfloor).mpr (.inr ⟨hlt, h⟩))
  constructor
  · have hlargest : (w.receiver.enter history n asks now).largest = n := by
      simp [Receiver.enter, hbeyond]
    simp only [Receiver.Reported, hack, hlargest]
    intro m hm
    constructor
    · intro hin
      rcases (hmem m).mp hin with rfl | hold
      · exact .inr ⟨hlt, Nat.le_refl _⟩
      · rcases (hreported m hm).mp hold with h | ⟨h, h'⟩
        · exact .inl h
        · exact .inr ⟨h, Nat.le_of_lt (Nat.lt_of_le_of_lt h' hbeyond)⟩
    · rintro (h | ⟨h, h'⟩)
      · exact (hmem m).mpr (.inr ((hreported m hm).mpr (.inl h)))
      · exact hblock m (Nat.le_of_lt h) h'
  · have hnonempty : w.receiver.history.isEmpty = false :=
      Bool.eq_false_iff.mpr fun h =>
        (History.isEmpty_iff hb.separated).mp h ack.largest hendmem
    refine ⟨?_, fun hv => ?_⟩
    · cases hcase : asks with
      | true => exact hcase ▸ hasks hcase
      | false => exact (hu.few hqueued hnonempty).1
    · simp only [Receiver.periodElapsed, Bool.and_eq_false_imp, decide_eq_false_iff_not] at hperiod
      exact Nat.not_le.mp (hperiod hv)

theorem UpToDate.move (hb : Booked w) (ht : Tallied w) (hu : UpToDate w) (hmove : Move w w') :
    UpToDate w' := by
  cases hmove with
  | aside => exact ⟨hu.reported, hu.few⟩
  | judge => exact ⟨hu.reported, hu.few⟩
  | accept n asks now history hfloor hrec =>
      rcases (w.receiver.enter history n asks now).settle_cases n asks now with
        ⟨-, hsettle⟩ | ⟨⟨hqueued, hnews, hperiod, hasks⟩, -⟩
      · rw [hsettle]
        exact ⟨fun h => absurd h (by simp), fun h => absurd h (by simp)⟩
      · obtain ⟨hreported, hfew⟩ :=
          hu.accept hb ht hfloor hrec hqueued hnews hperiod hasks
        obtain ⟨queued, alarm, hsettle⟩ :=
          (w.receiver.enter history n asks now).settle_eq n asks now
        rw [hsettle]
        exact ⟨fun _ => hreported, fun _ _ => hfew⟩
  | acknowledge lowest now hdue hlow =>
      -- the new acknowledgement reports the whole history
      have hrep := hb.report hlow
      refine ⟨fun _ n _ => ?_, fun _ _ => Receiver.fewWaiting_restart _ _⟩
      constructor
      · exact fun hn => .inl ((AckFrame.acks_iff hrep n).mpr hn)
      · rintro (hn | ⟨hlt, hle⟩)
        · exact (AckFrame.acks_iff hrep n).mp hn
        · exact absurd hle (Nat.not_le.mpr hlt)
  | disarm hlow =>
      have hempty := Receiver.lowest?_eq_none.mp hlow
      refine ⟨fun _ => ?_, fun _ h => absurd h (by simp [Receiver.disarm, hempty])⟩
      unfold Receiver.Reported
      cases hack : w.receiver.lastAck with
      | none => simpa [Receiver.disarm, hack] using hempty
      | some ack =>
          simp only [Receiver.disarm, hack]
          intro n hn
          -- the floor has passed everything the last acknowledgement reports
          have hfar : w.receiver.largest < n :=
            Nat.lt_of_le_of_lt (hb.largest_le_floor hempty) hn
          constructor
          · exact fun h => absurd h ((History.isEmpty_iff hb.separated).mp hempty n)
          · rintro (h | ⟨-, h⟩)
            · have hle := Nat.le_trans (AckFrame.le_largest h) (ht.ack_largest hack).2
              exact absurd hle (Nat.not_le.mpr hfar)
            · exact absurd h (Nat.not_le.mpr hfar)
  | raise n hfloor =>
      -- both sides lose the packets up to `n`
      have hempty : w.receiver.history.isEmpty = true →
          (w.receiver.history.forgetUpTo n).isEmpty = true := by
        intro h
        rw [History.isEmpty_iff (History.separated_forgetUpTo hb.separated)]
        intro m hm
        exact (History.isEmpty_iff hb.separated).mp h m (History.mem_forgetUpTo.mp hm).1
      refine ⟨fun hqueued => ?_, fun hqueued hne => hu.few hqueued ?_⟩
      · have hreported := hu.reported hqueued
        unfold Receiver.Reported at hreported ⊢
        cases hack : w.receiver.lastAck with
        | none =>
            simp only [hack] at hreported ⊢
            exact hempty hreported
        | some ack =>
            simp only [hack] at hreported ⊢
            intro m hm
            rw [History.mem_forgetUpTo, ← hreported m (Nat.lt_trans hfloor hm)]
            exact ⟨fun h => h.1, fun h => ⟨h, hm⟩⟩
      · exact Bool.eq_false_iff.mpr fun h => absurd (hempty h) (by simp [hne])

/-! ### Asking packets -/

/-- Asking packets do not wait beyond their delay. -/
structure Prompt (w : Watched) : Prop where
  /-- An alarm belongs to an asking packet. -/
  alarm : w.receiver.ackAlarm ≠ none → 0 < w.receiver.unackedAsking
  deadline : ∀ n time, Receipt.accepted n true time ∈ sinceAck w.log → w.receiver.floor < n →
    w.receiver.ackQueued = true ∨
      ∃ due, w.receiver.ackAlarm = some due ∧ due ≤ time + w.receiver.ackDelay

theorem prompt_start (version : Version) (ackDelay : Duration) :
    Prompt ⟨.new version ackDelay, []⟩ :=
  ⟨fun h => absurd rfl h, fun _ _ h => absurd h List.not_mem_nil⟩

/-- A packet that queues no acknowledgement starts the alarm if it asks and none runs. -/
theorem Prompt.accept (hp : Prompt w) {n : PacketNumber} {asks : Bool} {now : Instant}
    {history : History} :
    Prompt ⟨(w.receiver.enter history n asks now).settle n asks now,
      .accepted n asks now :: w.log⟩ := by
  rcases (w.receiver.enter history n asks now).settle_cases n asks now with
    ⟨-, hsettle⟩ | ⟨⟨hqueued, -, -, hasks⟩, ⟨rfl, hnone, hsettle⟩ | ⟨hrunning, hsettle⟩⟩
  · rw [hsettle]
    exact ⟨fun h => absurd rfl h, fun _ _ _ _ => .inl rfl⟩
  · rw [hsettle]
    have hqueued' : w.receiver.ackQueued = false := hqueued
    have hnone' : w.receiver.ackAlarm = none := hnone
    refine ⟨fun _ => Nat.succ_pos _, fun m time hm hfloor => .inr ?_⟩
    rcases List.mem_cons.mp hm with heq | hold
    · obtain ⟨-, -, rfl⟩ := Receipt.accepted.inj heq
      exact ⟨_, rfl, Int.le_refl _⟩
    · -- an earlier asking packet would have left an alarm
      rcases hp.deadline m time hold hfloor with h | ⟨due, h, -⟩
      · exact absurd h (by simp [hqueued'])
      · exact absurd h (by simp [hnone'])
  · rw [hsettle]
    refine ⟨fun h => ?_, fun m time hm hfloor => ?_⟩
    · have := hp.alarm h
      simp only [Receiver.enter]
      split
      · exact Nat.succ_pos _
      · exact this
    · rcases List.mem_cons.mp hm with heq | hold
      · -- the alarm that runs belongs to another asking packet, and two of them queue
        obtain ⟨-, rfl, -⟩ := Receipt.accepted.inj heq
        have hpos : 0 < w.receiver.unackedAsking := hp.alarm (hrunning rfl)
        have hfew : w.receiver.unackedAsking + 1 < 2 := hasks rfl
        omega
      · exact hp.deadline m time hold hfloor

theorem Prompt.move (hb : Booked w) (hp : Prompt w) (hmove : Move w w') : Prompt w' := by
  cases hmove with
  | aside => exact ⟨hp.alarm, hp.deadline⟩
  | judge =>
      refine ⟨hp.alarm, fun n time hn hfloor => hp.deadline n time ?_ hfloor⟩
      simpa [sinceAck] using hn
  | accept => exact hp.accept
  | acknowledge => exact ⟨fun h => absurd rfl h, fun _ _ h => absurd h List.not_mem_nil⟩
  | disarm hlow =>
      refine ⟨fun h => absurd rfl h, fun n time hn hfloor => ?_⟩
      -- everything above the floor would still be there to report
      have hempty := Receiver.lowest?_eq_none.mp hlow
      have hin : n ∈ w.receiver.history :=
        (hb.mem_history n).mpr ⟨⟨_, _, mem_of_mem_sinceAck hn⟩, hfloor⟩
      exact absurd hin ((History.isEmpty_iff hb.separated).mp hempty n)
  | raise n hraise =>
      exact ⟨hp.alarm, fun m time hm hfloor => hp.deadline m time hm (Nat.lt_trans hraise hfloor)⟩

/-! ### Every run -/

/-- A receiver keeps its version and its delay. -/
theorem run_config (version : Version) (ackDelay : Duration) (calls : List ReceiverCall) :
    (run version ackDelay calls).receiver.version = version ∧
      (run version ackDelay calls).receiver.ackDelay = ackDelay := by
  refine run_induction (P := fun w => w.receiver.version = version ∧ w.receiver.ackDelay = ackDelay)
    ⟨rfl, rfl⟩ (fun {w w'} h hmove => ?_) calls
  cases hmove with
  | accept n asks now history =>
      obtain ⟨queued, alarm, hsettle⟩ :=
        (w.receiver.enter history n asks now).settle_eq n asks now
      rw [hsettle]
      exact h
  | _ => exact h

theorem upToDate_run (version : Version) (ackDelay : Duration) (calls : List ReceiverCall) :
    Tallied (run version ackDelay calls) ∧ UpToDate (run version ackDelay calls) :=
  (run_induction (P := fun w => Booked w ∧ Tallied w ∧ UpToDate w)
    ⟨booked_start _ _, tallied_start _ _, upToDate_start _ _⟩
    (fun ⟨hb, ht, hu⟩ hmove => ⟨hb.move hmove, ht.move hb hmove, hu.move hb ht hmove⟩) calls).2

theorem prompt_run (version : Version) (ackDelay : Duration) (calls : List ReceiverCall) :
    Prompt (run version ackDelay calls) :=
  (run_induction (P := fun w => Booked w ∧ Prompt w) ⟨booked_start _ _, prompt_start _ _⟩
    (fun ⟨hb, hp⟩ hmove => ⟨hb.move hmove, hp.move hb hmove⟩) calls).2

end Watched

open Watched

/-- **No unreported hole or filling.**  After any run that leaves no acknowledgement queued:
either nothing was acknowledged and nothing is there, or above the floor just those packets are
there that the last acknowledgement reports or that follow its end up to the greatest one.  And
unless the history is empty, at most one asking packet waits, and before version 39 at most 19
packets wait at all. -/
theorem reported_of_not_queued (version : Version) (ackDelay : Duration)
    (calls : List ReceiverCall)
    (hqueued : (run version ackDelay calls).receiver.trigger ≠ .queued) :
    let w := run version ackDelay calls
    (lastAck? w.log = none ∧ w.receiver.history.isEmpty = true ∨
      ∃ ack, lastAck? w.log = some ack ∧ ∀ n, w.receiver.floor < n →
        (n ∈ w.receiver.history ↔ ack.acks n = true ∨ ack.largest < n ∧ n ≤ w.receiver.largest)) ∧
    (w.receiver.history.isEmpty = false →
      (sinceAck w.log).countP isAsking ≤ 1 ∧
      (version.number < 39 → (sinceAck w.log).countP isAccepted ≤ 19)) := by
  intro w
  obtain ⟨ht, hu⟩ := upToDate_run version ackDelay calls
  have hversion : w.receiver.version = version := (run_config version ackDelay calls).1
  have hnot : w.receiver.ackQueued = false :=
    Bool.eq_false_iff.mpr fun h => hqueued (Receiver.trigger_eq_queued.mpr h)
  constructor
  · have hreported : w.receiver.Reported := hu.reported hnot
    have hlast : w.receiver.lastAck = lastAck? w.log := ht.lastAck
    unfold Receiver.Reported at hreported
    rw [← hlast]
    cases hack : w.receiver.lastAck with
    | none =>
        rw [hack] at hreported
        exact .inl ⟨rfl, hreported⟩
    | some ack =>
        rw [hack] at hreported
        exact .inr ⟨ack, rfl, hreported⟩
  · intro hne
    obtain ⟨hasking, hall⟩ : w.receiver.FewWaiting := hu.few hnot hne
    rw [ht.unackedAsking] at hasking
    rw [hversion, ht.unacked] at hall
    exact ⟨Nat.le_of_lt_succ hasking, fun hv => Nat.le_of_lt_succ (hall (decide_eq_true hv))⟩

/-- The second packet of a path follows the end of the first acknowledgement and waits. -/
theorem reported_while_alarm_runs :
    let w := run .v38 .zero [.receive .one true ⟨0⟩, .ack ⟨0⟩, .receive ⟨2, by decide⟩ true ⟨1⟩]
    w.receiver.trigger = .alarm ⟨1⟩ ∧
      (∃ ack, lastAck? w.log = some ack ∧ ∀ n, w.receiver.floor < n →
        (n ∈ w.receiver.history ↔ ack.acks n = true ∨ ack.largest < n ∧ n ≤ w.receiver.largest)) ∧
      (sinceAck w.log).countP isAsking ≤ 1 := by
  intro w
  obtain ⟨hreported, hfew⟩ := reported_of_not_queued .v38 .zero
    [.receive .one true ⟨0⟩, .ack ⟨0⟩, .receive ⟨2, by decide⟩ true ⟨1⟩] (by decide)
  refine ⟨by decide, ?_, (hfew (by decide)).1⟩
  exact hreported.resolve_left fun h => absurd h.1 (by decide)

/-- **Bounded delay.**  After any run, an asking packet above the floor that was accepted at `time`
and not followed by an acknowledgement leaves one due, and the acknowledgement asked for once
the delay has passed since `time` acknowledges it. -/
theorem ack_within_delay (version : Version) (ackDelay : Duration) (calls : List ReceiverCall)
    {n : PacketNumber} {time : Instant}
    (hn : .accepted n true time ∈ sinceAck (run version ackDelay calls).log)
    (hfloor : (run version ackDelay calls).receiver.floor < n) :
    let r := (run version ackDelay calls).receiver
    r.trigger ≠ .idle ∧
      ∀ now, time + ackDelay ≤ now → ∃ frame, (r.ack now).1 = some frame ∧ frame.acks n = true := by
  intro r
  have hb := booked_run version ackDelay calls
  have hdelay : r.ackDelay = ackDelay := (run_config version ackDelay calls).2
  have hdue : r.ackQueued = true ∨ ∃ due, r.ackAlarm = some due ∧ due ≤ time + ackDelay := by
    have := (prompt_run version ackDelay calls).deadline n time hn hfloor
    rwa [show (run version ackDelay calls).receiver.ackDelay = ackDelay from hdelay] at this
  have hin : n ∈ r.history := (hb.mem_history n).mpr ⟨⟨_, _, mem_of_mem_sinceAck hn⟩, hfloor⟩
  constructor
  · intro hidle
    obtain ⟨hqueued, halarm⟩ := Receiver.trigger_eq_idle.mp hidle
    rcases hdue with h | ⟨due, h, -⟩
    · exact absurd h (by simp [hqueued])
    · exact absurd h (by simp [halarm])
  · -- whichever is due, the history holds `n` and the acknowledgement reports it
    intro now hnow
    have hisdue : r.isDue now = true := by
      rcases hdue with h | ⟨due, h, hle⟩
      · simp [Receiver.isDue, h]
      · have : due ≤ now := Int.le_trans hle hnow
        simp [Receiver.isDue, h, this]
    rcases r.ack_cases now with ⟨hnot, -⟩ | ⟨-, hlow, -⟩ | ⟨lowest, -, hlow, hack⟩
    · exact absurd hisdue (by simp [hnot])
    · have hempty := Receiver.lowest?_eq_none.mp hlow
      exact absurd hin ((History.isEmpty_iff hb.separated).mp hempty n)
    · refine ⟨_, by rw [hack], (AckFrame.acks_iff (hb.report hlow) n).mpr hin⟩

/-- A duplicate, an early call and a packet that asks for nothing do not put the alarm off. -/
theorem ack_within_delay_of_alarm :
    let two : PacketNumber := ⟨2, by decide⟩
    let calls : List ReceiverCall := [.receive .one true ⟨0⟩, .ack ⟨0⟩, .receive two true ⟨5⟩,
      .receive two true ⟨9⟩, .ack ⟨7⟩, .receive ⟨3, by decide⟩ false ⟨4⟩]
    let r := (run .v39 (.ofMillis 25) calls).receiver
    r.trigger = .alarm ⟨25000005⟩ ∧
      ∃ frame, (r.ack ⟨25000005⟩).1 = some frame ∧ frame.acks two = true := by
  intro two calls r
  have hn : .accepted two true ⟨5⟩ ∈ sinceAck (run .v39 (.ofMillis 25) calls).log := by decide
  have hdue := (ack_within_delay .v39 (.ofMillis 25) calls hn (by decide)).2
  exact ⟨by decide, hdue ⟨25000005⟩ (by decide)⟩

end Multipath
