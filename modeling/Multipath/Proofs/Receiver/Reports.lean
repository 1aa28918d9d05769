import Multipath.Proofs.Receiver.Runs

/-!
# What an acknowledgement reports

An acknowledgement reports the packets that were accepted and lie above the floor, and a path that
is closed leaves the same report.

* `IsReport`: the ends of a report are the greatest and the least packet reported; its ranges are
  the maximal blocks, highest first, unless a single block says it all.
* `Booked.report`: whatever is due, the receiver's ends and ranges report its history.
* `ack_reports_accepted`: every acknowledgement of every run is such a report, it acknowledges just
  the packets it reports, and it carries the arrival of the greatest one.
-/

namespace Multipath

/-- A report of the packets of `S` by its ends and its ranges. -/
structure IsReport (S : PacketNumber → Prop) (largest lowest : PacketNumber)
    (ranges : List AckRange) : Prop where
  largest_mem : S largest
  le_largest : ∀ n, S n → n ≤ largest
  lowest_mem : S lowest
  lowest_le : ∀ n, S n → lowest ≤ n
  /-- No ranges stand for a single block. -/
  ranges_nil : ranges = [] ↔ ∀ n, lowest ≤ n → n ≤ largest → S n
  mem_ranges : ranges ≠ [] → ∀ r, r ∈ ranges ↔ IsBlock S r
  exists_range : ranges ≠ [] → ∀ n, S n → ∃ r ∈ ranges, r.contains n = true
  descending : ranges.Pairwise fun high low => low.last < high.first

/-- A frame that reports `S` acknowledges the packets of `S`. -/
theorem AckFrame.acks_iff {S : PacketNumber → Prop} {frame : AckFrame}
    (hrep : IsReport S frame.largest frame.lowest frame.ranges) (n : PacketNumber) :
    frame.acks n = true ↔ S n := by
  simp only [acks, hasGaps, Bool.and_eq_true, Bool.or_eq_true, Bool.not_not, decide_eq_true_eq,
    List.isEmpty_iff, List.any_eq_true]
  constructor
  · rintro ⟨⟨hlow, hhigh⟩, hnil | ⟨r, hr, hn⟩⟩
    · exact hrep.ranges_nil.mp hnil n hlow hhigh
    · exact ((hrep.mem_ranges (List.ne_nil_of_mem hr) r).mp hr).inside n hn
  · intro hn
    refine ⟨⟨hrep.lowest_le n hn, hrep.le_largest n hn⟩, ?_⟩
    by_cases hnil : frame.ranges = []
    · exact .inl hnil
    · exact .inr (hrep.exists_range hnil n hn)

theorem IsReport.congr {S T : PacketNumber → Prop} {largest lowest : PacketNumber}
    {ranges : List AckRange} (hrep : IsReport S largest lowest ranges) (h : ∀ n, S n ↔ T n) :
    IsReport T largest lowest ranges := by
  obtain rfl : S = T := funext fun n => propext (h n)
  exact hrep

/-! ### The history as a report -/

/-- The blocks of a history with their outer ends, the ranges left out if there is one block. -/
theorem History.report {h : History} (hs : Separated h.ranges) {low : AckRange}
    (hlow : h.ranges.getLast? = some low) {largest : PacketNumber} (hmem : largest ∈ h)
    (hle : ∀ n, n ∈ h → n.val ≤ largest.val) :
    IsReport (· ∈ h) largest low.first (if 1 < h.size then h.ranges else []) := by
  obtain ⟨hlowmem, hlowest⟩ := lowest_le hs hlow
  have hlowin : low.first ∈ h :=
    mem_iff.mpr ⟨low, hlowmem, AckRange.contains_iff.mpr ⟨Nat.le_refl _, hs.nonempty low hlowmem⟩⟩
  by_cases hsize : 1 < h.size
  · rw [if_pos hsize]
    refine ⟨hmem, hle, hlowin, hlowest, ⟨fun hnil => ?_, fun hall => ?_⟩,
      fun _ r => mem_ranges_iff hs, fun _ n hn => mem_iff.mp hn, hs.apart.imp fun hap => ?_⟩
    · exact absurd hnil (List.ne_nil_of_mem hlowmem)
    · -- the number missing between two blocks lies between the ends
      obtain ⟨a, b, n, ha, hb, han, hnb, hn⟩ := exists_gap hs hsize
      have := hlowest a ha
      have := hle b hb
      exact absurd (hall n (show low.first.val ≤ n.val by omega)
        (show n.val ≤ largest.val by omega)) hn
    · rw [PacketNumber.lt_def]
      omega
  · rw [if_neg hsize]
    refine ⟨hmem, hle, hlowin, hlowest, ⟨fun _ n hn hn' => ?_, fun _ => rfl⟩,
      fun hne => absurd rfl hne, fun hne => absurd rfl hne, .nil⟩
    -- the only block reaches from end to end
    obtain ⟨r, hr, hc⟩ := mem_iff.mp hmem
    obtain ⟨s, hsr⟩ : ∃ s, h.ranges = [s] := by
      refine List.length_eq_one_iff.mp ?_
      have := List.length_pos_of_mem hr
      simp only [size] at hsize
      omega
    rw [hsr, List.mem_singleton] at hr hlowmem
    subst hr hlowmem
    refine mem_iff.mpr ⟨low, by simp [hsr], AckRange.contains_iff.mpr ⟨hn, ?_⟩⟩
    exact Nat.le_trans hn' (AckRange.contains_iff.mp hc).2

namespace Watched

/-- The greatest packet of a history that is not empty is the greatest packet accepted. -/
theorem Booked.largest_mem {w : Watched} (hb : Booked w) {n : PacketNumber}
    (hn : n ∈ w.receiver.history) : w.receiver.largest ∈ w.receiver.history ∧
      ∃ asks time, Receipt.accepted w.receiver.largest asks time ∈ w.log ∧
        w.receiver.largestAt = some time := by
  obtain ⟨hacc, hfloor⟩ := (hb.mem_history n).mp hn
  have hle := hb.le_largest n hacc
  have hlt : w.receiver.floor < w.receiver.largest := Nat.lt_of_lt_of_le hfloor hle
  rcases hb.largest with hzero | ⟨asks, time, hlog, hat⟩
  · rw [hzero] at hlt
    exact absurd hlt (Nat.not_lt_zero _)
  · exact ⟨(hb.mem_history _).mpr ⟨⟨asks, time, hlog⟩, hlt⟩, asks, time, hlog, hat⟩

/-- **The report of a receiver.**  Its ends and its ranges report its history. -/
theorem Booked.report {w : Watched} (hb : Booked w) {lowest : PacketNumber}
    (hlow : w.receiver.lowest? = some lowest) :
    IsReport (· ∈ w.receiver.history) w.receiver.largest lowest w.receiver.reportedRanges := by
  obtain ⟨low, hlast, rfl⟩ := Option.map_eq_some_iff.mp hlow
  obtain ⟨hlowmem, -⟩ := History.lowest_le hb.separated hlast
  have hin : low.first ∈ w.receiver.history :=
    ((History.mem_ranges_iff hb.separated).mp hlowmem).inside _
      (AckRange.contains_iff.mpr ⟨Nat.le_refl _, hb.separated.nonempty low hlowmem⟩)
  exact History.report hb.separated hlast (hb.largest_mem hin).1
    fun n hn => hb.le_largest n ((hb.mem_history n).mp hn).1

end Watched

open Watched in
/-- **Every acknowledgement reports what was accepted.**  After any run, the acknowledgement that
goes out acknowledges just the accepted packets above the floor; its ends are the greatest and the
least of them, its ranges their maximal blocks unless there is a single one; it carries the time
at which the greatest one was accepted.  A path closed at the same moment reports the same. -/
theorem ack_reports_accepted (version : Version) (ackDelay : Duration)
    (calls : List ReceiverCall) (now : Instant) {frame : AckFrame}
    (hack : ((run version ackDelay calls).receiver.ack now).1 = some frame) :
    let w := run version ackDelay calls
    let S := fun n => w.Accepted n ∧ w.receiver.floor < n
    (∀ n, frame.acks n = true ↔ S n) ∧
    IsReport S frame.largest frame.lowest frame.ranges ∧
    (∃ asks, Receipt.accepted frame.largest asks frame.receivedAt ∈ w.log) ∧
    (∀ asks time, Receipt.accepted frame.largest asks time ∈ w.log → time = frame.receivedAt) ∧
    ∀ path, w.receiver.closePath path = some ⟨path, frame.largest, frame.lowest, frame.ranges⟩ := by
  intro w S
  have hb : Booked w := booked_run version ackDelay calls
  rcases w.receiver.ack_cases now with ⟨-, h⟩ | ⟨-, -, h⟩ | ⟨lowest, -, hlow, h⟩
  · exact absurd (h ▸ hack) (by simp)
  · exact absurd (h ▸ hack) (by simp)
  · obtain rfl : w.receiver.frame lowest now = frame := by
      rw [h] at hack
      exact Option.some.inj hack
    have hrep : IsReport S w.receiver.largest lowest w.receiver.reportedRanges :=
      (hb.report hlow).congr hb.mem_history
    obtain ⟨asks, time, hlog, hat⟩ :=
      (hb.largest_mem ((hb.mem_history _).mpr hrep.largest_mem)).2
    have htime : (w.receiver.frame lowest now).receivedAt = time := by
      simp [Receiver.frame, hat]
    refine ⟨AckFrame.acks_iff hrep, hrep, ⟨asks, htime ▸ hlog⟩, fun a t h' => ?_, fun path => ?_⟩
    · rw [htime]
      exact hb.once h' hlog
    · simp [Receiver.closePath, hlow, Receiver.frame]

open Watched in
/-- Packets 1, 2 and 4 arrive and packet 1 is given up.  The report begins at packet 2 and has a gap
before packet 4. -/
theorem ack_reports_gap :
    let calls : List ReceiverCall :=
      [.receive .one true ⟨5⟩, .receive ⟨2, by decide⟩ true ⟨6⟩,
        .receive ⟨4, by decide⟩ false ⟨7⟩, .raiseFloor .one]
    let w := run .v39 .zero calls
    w.Accepted .one ∧ w.receiver.floor = .one ∧
      ∃ frame, (w.receiver.ack ⟨9⟩).1 = some frame ∧ frame.hasGaps = true ∧
        frame.lowest = ⟨2, by decide⟩ ∧ frame.acks .one = false ∧
        IsReport (fun n => w.Accepted n ∧ w.receiver.floor < n) frame.largest frame.lowest
          frame.ranges := by
  intro calls w
  refine ⟨⟨true, ⟨5⟩, by decide⟩, by decide, ?_⟩
  obtain ⟨frame, hack⟩ : ∃ frame, (w.receiver.ack ⟨9⟩).1 = some frame :=
    Option.isSome_iff_exists.mp (by decide)
  have hframe : (w.receiver.ack ⟨9⟩).1.all (fun frame => frame.hasGaps &&
      frame.lowest == ⟨2, by decide⟩) = true := by decide
  simp only [hack, Option.all_some, Bool.and_eq_true, beq_iff_eq] at hframe
  obtain ⟨hacks, hreport, -⟩ := ack_reports_accepted .v39 .zero calls ⟨9⟩ hack
  refine ⟨frame, hack, hframe.1, hframe.2, ?_, hreport⟩
  rw [Bool.eq_false_iff, ne_eq, hacks]
  exact fun h => absurd h.2 (by decide)

end Multipath
