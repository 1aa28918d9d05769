import Multipath.Batch.Assignment
import Multipath.Proofs.Decimal.Nearby
import Multipath.Proofs.Decimal.Parts

/-!
# Milliseconds

A duration in milliseconds: exactly, cut to a whole number, and as a double, which takes four
roundings.

* `Duration.inMillis`: the exact number, and what is left of it when it is cut.
* `Duration.near_millis`: the double is near it.
* `Scheduler.Remains`, `Scheduler.remains_millisLeft`: the time left until a deadline has the right
  sign, and is near the exact one.
-/

namespace Multipath

open Float.Model Float.Model.UnpackedFloat Binary

namespace Duration

/-! ### Whole milliseconds -/

/-- Milliseconds, exactly. -/
def inMillis (d : Duration) : Rat := d.nanos / 1000000

theorem toNat_wholeMillis {d : Duration} (h : d.nanos / 1000000 < 2 ^ 64) :
    d.wholeMillis.toNat = d.nanos / 1000000 :=
  UInt64.toNat_ofNat_of_lt' h

theorem floor_le_inMillis (d : Duration) : ((d.nanos / 1000000 : Nat) : Rat) ≤ d.inMillis := by
  simpa [inMillis] using Nat.cast_div_le (α := Rat) (m := d.nanos) (n := 1000000)

theorem inMillis_lt_floor (d : Duration) :
    d.inMillis < ((d.nanos / 1000000 : Nat) : Rat) + 1 := by
  rw [inMillis, div_lt_iff₀ (by norm_num)]
  exact_mod_cast Nat.lt_mul_of_div_lt (Nat.lt_succ_self _) (by decide)

theorem inMillis_le_floor_iff {d : Duration} :
    d.inMillis ≤ ((d.nanos / 1000000 : Nat) : Rat) ↔ 1000000 ∣ d.nanos := by
  rw [inMillis, div_le_iff₀ (by norm_num), Nat.dvd_iff_div_mul_eq]
  refine ⟨fun h => le_antisymm (Nat.div_mul_le_self _ _) ?_, fun h => le_of_eq ?_⟩
  · exact_mod_cast h
  · exact_mod_cast h.symm

/-! ### Milliseconds as a double -/

theorem unpack_billion : (1000000000.0 : Float).toModel.unpack =
    .finite .positive 8388608000000000 (-23) (by decide) := rfl

theorem unpack_thousand : (1000.0 : Float).toModel.unpack =
    .finite .positive 8796093022208000 (-43) (by decide) := rfl

theorem unpack_div (x y : Float) : (x / y).toModel.unpack = (Float.Model.pack
    (UnpackedFloat.div Format.binary64 x.toModel.unpack y.toModel.unpack)).unpack := rfl

theorem near_rest {n : Nat} (hpos : 0 < n) (hn : n < 1000000000) :
    Near (rounded 0) ((n : Rat) / 1000000000) (Float.ofNat n / 1000000000.0).toModel.unpack := by
  obtain ⟨m, e, hm, hwhole, hlow, hhigh, hmin, hvalue⟩ := unpack_ofNat hpos (by omega)
  have hbillion : (1000000000 : Rat) = (8388608000000000 : Nat) * 2 ^ (-23 : Int) := by norm_num
  rw [unpack_div, unpack_billion, hwhole, hbillion, ← hvalue]
  exact (near_div hlow hhigh (by decide) (by decide) (by unfold minExponent; omega)).pack
    (by norm_num [rounded]) (by positivity)

theorem near_seconds {d : Duration} (hd : 0 < d.nanos) :
    Near (rounded (rounded 0)) ((d.nanos : Rat) / 1000000000) d.seconds.toModel.unpack := by
  have hparts : (d.nanos : Rat) / 1000000000 =
      (d.nanos / 1000000000 : Nat) + (d.nanos % 1000000000 : Nat) / 1000000000 := by
    have : ((1000000000 * (d.nanos / 1000000000) + d.nanos % 1000000000 : Nat) : Rat) = d.nanos := by
      rw [Nat.div_add_mod]
    rw [← this]
    push_cast
    ring
  have hrest : d.nanos % 1000000000 < 1000000000 := Nat.mod_lt _ (by decide)
  have hsome : 0 < d.nanos / 1000000000 ∨ 0 < d.nanos % 1000000000 := by omega
  rw [hparts, seconds, unpack_add]
  generalize d.nanos / 1000000000 = q at hsome ⊢
  generalize d.nanos % 1000000000 = r at hsome hrest ⊢
  refine Near.pack ?_ (by norm_num [rounded]) (by positivity)
  rcases Nat.eq_zero_or_pos q with rfl | hq
  · -- less than a second
    have hr := hsome.resolve_left (lt_irrefl 0)
    rw [Nat.cast_zero, zero_add]
    exact ((near_rest hr hrest).zero_add .positive).mono (by norm_num [rounded]) (by positivity)
  · rcases Nat.eq_zero_or_pos r with rfl | hr
    · rw [Nat.cast_zero, zero_div, add_zero]
      exact ((near_ofNat hq).add_zero .positive).mono (by norm_num [rounded]) (by positivity)
    · exact (near_ofNat hq).add (near_rest hr hrest) (by positivity) (by positivity)

theorem near_millis {d : Duration} (hd : 0 < d.nanos) :
    Near (1 / 2 ^ 50) d.inMillis d.millis.toModel.unpack := by
  have hthousand : d.inMillis =
      (d.nanos : Rat) / 1000000000 * ((8796093022208000 : Nat) * 2 ^ (-43 : Int)) := by
    rw [inMillis]
    norm_num
    ring
  have hproduct := (near_seconds hd).mul (e := -43) (by positivity)
    (show hiddenBit ≤ 8796093022208000 by decide) (by decide) (by decide)
  rw [← hthousand] at hproduct
  rw [millis, unpack_mul, unpack_thousand]
  have hnonneg : 0 ≤ d.inMillis := by
    rw [inMillis]
    positivity
  exact (hproduct.mono (by norm_num [rounded]) hnonneg).pack (by norm_num) hnonneg

theorem millis_nonneg (d : Duration) : 0.0 ≤ d.millis := by
  rcases Nat.eq_zero_or_pos d.nanos with hzero | hpos
  · obtain rfl : d = ⟨0⟩ := by cases d; exact congrArg Duration.mk hzero
    decide +kernel
  · exact zero_le_of_positive (near_millis hpos).hasSign

/-- Milliseconds as a double are off by no more than a part in `2 ^ 50`. -/
theorem exists_toRat?_millis {d : Duration} (h : d.inMillis < vast) :
    ∃ q, toRat? d.millis = some q ∧ |q - d.inMillis| ≤ d.inMillis / 2 ^ 50 := by
  rcases Nat.eq_zero_or_pos d.nanos with hzero | hpos
  · obtain rfl : d = ⟨0⟩ := by cases d; exact congrArg Duration.mk hzero
    exact ⟨0, by decide +kernel, by simp [inMillis]⟩
  · obtain ⟨q, hq, hnear⟩ := (near_millis hpos).finite h
    exact ⟨q, (toRat?_eq_value? _).trans hq, hnear.trans_eq (by ring)⟩

end Duration

/-! ### Deadlines -/

namespace Scheduler

/-- What is left until a deadline, exactly; negative once it is past. -/
def exactLeft (deadline now : Instant) : Rat := ((deadline.nanos - now.nanos : Int) : Rat) / 1000000

/-- A number of milliseconds that is left until a deadline: its sign tells on which side of the
present the deadline lies, and it is near the exact number, unless that is vast. -/
structure Remains (deadline now : Instant) (x : Float) : Prop where
  nonneg_iff : 0.0 ≤ x ↔ now ≤ deadline
  near : |exactLeft deadline now| < vast → ∃ q, toRat? x = some q ∧
    |q - exactLeft deadline now| ≤ |exactLeft deadline now| / 2 ^ 50

theorem exactLeft_of_le {deadline now : Instant} (h : now ≤ deadline) :
    exactLeft deadline now = (deadline.since now).inMillis := by
  have hle : now.nanos ≤ deadline.nanos := h
  rw [exactLeft, Duration.inMillis, Instant.since, ← Int.cast_natCast,
    Int.toNat_of_nonneg (by omega)]

theorem exactLeft_neg (deadline now : Instant) : exactLeft deadline now = -exactLeft now deadline := by
  rw [exactLeft, exactLeft, ← neg_div]
  push_cast
  ring

/-- The time left as a double. -/
theorem remains_millisLeft (deadline now : Instant) :
    Remains deadline now (millisLeft deadline now) := by
  unfold millisLeft
  split
  · next hle =>
    have hexact := exactLeft_of_le hle
    have hnonneg : 0 ≤ (deadline.since now).inMillis := by
      rw [Duration.inMillis]
      positivity
    refine ⟨iff_of_true (Duration.millis_nonneg _) hle, ?_⟩
    rw [hexact, abs_of_nonneg hnonneg]
    exact Duration.exists_toRat?_millis
  · next hlt =>
    -- past: the time since the deadline, with its sign changed
    have hpast : deadline.nanos < now.nanos := not_le.mp hlt
    have hexact := exactLeft_of_le (show deadline ≤ now from hpast.le)
    have hpos : 0 < (now.since deadline).nanos := by
      change 0 < (now.nanos - deadline.nanos).toNat
      omega
    have hnonneg : 0 ≤ (now.since deadline).inMillis := by
      rw [Duration.inMillis]
      positivity
    refine ⟨iff_of_false (not_le_of_negative (hasSign_neg (Duration.near_millis hpos).hasSign)
      trivial) hlt, ?_⟩
    rw [exactLeft_neg, hexact, abs_neg, abs_of_nonneg hnonneg]
    intro hvast
    obtain ⟨q, hq, hnear⟩ := Duration.exists_toRat?_millis hvast
    exact ⟨-q, toRat?_neg hq, by rwa [neg_sub_neg, abs_sub_comm]⟩

end Scheduler

end Multipath
