import Multipath.Proofs.Decimal.Nearest

/-!
# Shortest decimals lie in the interval of their double

* `Interval.Contains`: a number lies in an interval.
* `Interval.exists_search`: the search for a short decimal hits the interval, as a grid that is
  finer than the interval is among those tried.
* `roundsTo_shortest`: the shortest decimal of a double rounds to it.
-/

namespace Multipath.Decimal

open Binary

/-- The value of a decimal. -/
def toRat (d : Decimal) : Rat := d.significand * 10 ^ d.exponent

/-- A number has as many digits as the first power of ten above it tells. -/
theorem toDigits_bounds {n : Nat} (hn : 0 < n) :
    10 ^ ((Nat.toDigits 10 n).length - 1) ≤ n ∧ n < 10 ^ (Nat.toDigits 10 n).length := by
  have hlength := Nat.length_toDigits_pos (b := 10) (n := n)
  refine ⟨?_, (Nat.length_toDigits_le_iff (by decide) hlength).mp (Nat.le_refl _)⟩
  by_cases hone : (Nat.toDigits 10 n).length = 1
  · rw [hone]
    exact hn
  · have := mt (Nat.length_toDigits_le_iff (n := n) (b := 10) (by decide)
      (k := (Nat.toDigits 10 n).length - 1) (by omega)).mpr (by omega)
    omega

namespace Interval

variable {i : Interval} {r : Rat}

/-! ### Intervals -/

/-- A number lies in an interval. -/
structure Contains (i : Interval) (r : Rat) : Prop where
  lower : (i.lower : Rat) ≤ r * i.unit
  upper : r * i.unit ≤ i.upper
  lowerOpen : i.closed = false → (i.lower : Rat) < r * i.unit
  upperOpen : i.closed = false → r * i.unit < i.upper

/-- The bounds of an interval around its value. -/
structure Proper (i : Interval) : Prop where
  unit : 0 < i.unit
  below : i.lower < i.value
  above : i.value < i.upper

theorem contains_of_holds {d : Nat} (h : i.holds d) : i.Contains d := by
  have hcast : ((d * i.unit : Nat) : Rat) = d * i.unit := by push_cast; rfl
  unfold holds at h
  split at h
  next hclosed =>
    simp only [Bool.and_eq_true, decide_eq_true_eq] at h
    rw [← Nat.cast_le (α := Rat), ← Nat.cast_le (α := Rat), hcast] at h
    exact ⟨h.1, h.2, by simp [hclosed], by simp [hclosed]⟩
  next hopen =>
    simp only [Bool.and_eq_true, decide_eq_true_eq] at h
    rw [← Nat.cast_lt (α := Rat), ← Nat.cast_lt (α := Rat), hcast] at h
    exact ⟨h.1.le, h.2.le, fun _ => h.1, fun _ => h.2⟩

theorem contains_of_rescale {exponent : Int} (h : (i.rescale exponent).Contains r) :
    i.Contains (r * 10 ^ exponent) := by
  cases exponent with
  | ofNat n =>
    have hmul : r * 10 ^ (Int.ofNat n) * i.unit = r * ((i.unit * Nat.pow 10 n : Nat) : Rat) := by
      push_cast
      rw [Int.ofNat_eq_natCast, zpow_natCast]
      simp only [Nat.pow_eq]
      push_cast
      ring
    exact ⟨hmul ▸ h.lower, hmul ▸ h.upper, fun ho => hmul ▸ h.lowerOpen ho,
      fun ho => hmul ▸ h.upperOpen ho⟩
  | negSucc n =>
    have hpos : (0 : Rat) < 10 ^ (n + 1) := by positivity
    have hdiv : r * 10 ^ (Int.negSucc n) * i.unit = r * i.unit / 10 ^ (n + 1) := by
      rw [zpow_negSucc]
      ring
    have hscale : ∀ bound : Nat,
        ((bound * Nat.pow 10 (n + 1) : Nat) : Rat) = bound * 10 ^ (n + 1) := by
      simp [Nat.pow_eq]
    obtain ⟨hlower, hupper, hlowerOpen, hupperOpen⟩ := h
    simp only [rescale, hscale] at hlower hupper hlowerOpen hupperOpen
    refine ⟨?_, ?_, fun ho => ?_, fun ho => ?_⟩ <;> rw [hdiv]
    · exact (le_div_iff₀ hpos).mpr hlower
    · exact (div_le_iff₀ hpos).mpr hupper
    · exact (lt_div_iff₀ hpos).mpr (hlowerOpen ho)
    · exact (div_lt_iff₀ hpos).mpr (hupperOpen ho)

theorem Proper.rescale (h : i.Proper) (exponent : Int) : (i.rescale exponent).Proper := by
  obtain ⟨hunit, hbelow, habove⟩ := h
  cases exponent with
  | ofNat n => exact ⟨by simpa [Interval.rescale, Nat.pow_eq] using hunit, hbelow, habove⟩
  | negSucc n =>
    have hpos : 0 < Nat.pow 10 (n + 1) := Nat.pow_pos (by decide)
    exact ⟨hunit, Nat.mul_lt_mul_of_pos_right hbelow hpos, Nat.mul_lt_mul_of_pos_right habove hpos⟩

/-- An interval longer than `10 ^ exponent` is longer than the unit if `10 ^ exponent` is made the
unit. -/
theorem rescale_wide {exponent : Int} (h : (i.lower : Rat) + i.unit * 10 ^ exponent < i.upper) :
    (i.rescale exponent).lower + (i.rescale exponent).unit < (i.rescale exponent).upper := by
  rw [← Nat.cast_lt (α := Rat)]
  cases exponent with
  | ofNat n =>
    simp only [Interval.rescale, Nat.pow_eq]
    push_cast
    simpa using h
  | negSucc n =>
    have hpos : (0 : Rat) < 10 ^ (n + 1) := by positivity
    rw [zpow_negSucc] at h
    have := mul_lt_mul_of_pos_right h hpos
    simp only [Interval.rescale, Nat.pow_eq]
    push_cast
    rw [add_mul, mul_assoc, inv_mul_cancel₀ hpos.ne', mul_one] at this
    exact this

/-- What is found next to the value lies in the interval. -/
theorem contains_of_nearest? {d : Nat} (h : i.nearest? = some d) : i.Contains d := by
  unfold nearest? at h
  dsimp only at h
  split at h
  next h₁ h₂ =>
    split at h <;> obtain rfl := Option.some.inj h
    · exact contains_of_holds h₂
    · exact contains_of_holds h₁
  next h₁ _ =>
    obtain rfl := Option.some.inj h
    exact contains_of_holds h₁
  next _ h₂ =>
    obtain rfl := Option.some.inj h
    exact contains_of_holds h₂
  next => cases h

/-- In an interval that is longer than the unit there is a multiple of the unit next to the
value. -/
theorem exists_nearest? (h : i.Proper) (hwide : i.lower + i.unit < i.upper) :
    ∃ d, i.nearest? = some d := by
  have hmod := Nat.div_add_mod' i.value i.unit
  have hlt := Nat.mod_lt i.value h.unit
  have hbelow := h.below
  have habove := h.above
  have hnext : (i.value / i.unit + 1) * i.unit = i.value / i.unit * i.unit + i.unit := by ring
  have hholds : i.holds (i.value / i.unit) ∨ i.holds (i.value / i.unit + 1) := by
    by_cases hlower : i.lower < i.value / i.unit * i.unit
    · left
      unfold holds
      split <;> simp only [Bool.and_eq_true, decide_eq_true_eq] <;> omega
    · right
      unfold holds
      rw [hnext]
      split <;> simp only [Bool.and_eq_true, decide_eq_true_eq] <;> omega
  unfold nearest?
  dsimp only
  rcases hholds with h | h
  · cases h' : i.holds (i.value / i.unit + 1) <;> simp [h]
    split <;> simp
  · cases h' : i.holds (i.value / i.unit) <;> simp [h]
    split <;> simp

/-! ### Searching -/

/-- A search that tries a grid with a hit ends with a hit. -/
theorem exists_search {exponent : Int} {n k : Nat} (hk : k < n)
    (h : ∃ d, (i.rescale (exponent - k)).nearest? = some d) :
    i.Contains (i.search exponent n).toRat := by
  induction n generalizing exponent k with
  | zero => omega
  | succ n ih =>
    rw [search]
    cases hfirst : (i.rescale exponent).nearest? with
    | some d => exact contains_of_rescale (contains_of_nearest? hfirst)
    | none =>
      cases k with
      | zero => simp [hfirst] at h
      | succ k =>
        refine ih (k := k) (by omega) ?_
        rwa [show exponent - 1 - (k : Int) = exponent - (k + 1 : Nat) by push_cast; ring]

/-- A search hits an interval that is longer than the last of the grids it tries. -/
theorem contains_search (h : i.Proper) {exponent : Int} {n : Nat}
    (hwide : (i.lower : Rat) + i.unit * 10 ^ (exponent - n) < i.upper) :
    i.Contains (i.search exponent (n + 1)).toRat :=
  exists_search (Nat.lt_succ_self n)
    (exists_nearest? (h.rescale _) (rescale_wide hwide))

/-- The value of an interval is more than a hundredth of the power of ten for its magnitude. -/
theorem magnitude_lt (hunit : 0 < i.unit) (hvalue : 0 < i.value) :
    (10 : Rat) ^ (i.magnitude - 2) < i.value / i.unit := by
  have hunit' : (0 : Rat) < i.unit := by exact_mod_cast hunit
  unfold magnitude
  split
  next hle =>
    have hpos : 0 < i.value / i.unit := Nat.div_pos hle hunit
    have hlow : (10 : Rat) ^ ((Nat.toDigits 10 (i.value / i.unit)).length - 1) ≤
        ((i.value / i.unit : Nat) : Rat) := by
      exact_mod_cast (toDigits_bounds hpos).1
    calc (10 : Rat) ^ (((Nat.toDigits 10 (i.value / i.unit)).length : Int) - 2)
        < 10 ^ (((Nat.toDigits 10 (i.value / i.unit)).length - 1 : Nat) : Int) :=
          zpow_lt_zpow_right₀ (by norm_num) (by omega)
      _ ≤ ((i.value / i.unit : Nat) : Rat) := by rwa [zpow_natCast]
      _ ≤ i.value / i.unit := Nat.cast_div_le
  next hlt =>
    have hpos : 0 < i.unit / i.value := Nat.div_pos (by omega) hvalue
    have hlong : i.unit < 10 ^ (Nat.toDigits 10 (i.unit / i.value)).length * i.value :=
      (Nat.div_lt_iff_lt_mul hvalue).mp (toDigits_bounds hpos).2
    rw [lt_div_iff₀ hunit', show (2 : Int) - (Nat.toDigits 10 (i.unit / i.value)).length - 2
      = -((Nat.toDigits 10 (i.unit / i.value)).length : Int) by ring, zpow_neg, zpow_natCast,
      inv_mul_lt_iff₀ (by positivity)]
    exact_mod_cast hlong

end Interval

/-! ### The interval of a double -/

/-- The interval of `m * 2 ^ q`, in quarters of `2 ^ q`. -/
theorem interval_eq (m : Nat) (q : Int) : ∃ factor : Nat, 0 < factor ∧ 0 < (interval m q).unit ∧
    (2 : Rat) ^ (q - 2) = factor / (interval m q).unit ∧
    (interval m q).lower = (4 * m - slack m q) * factor ∧
    (interval m q).value = 4 * m * factor ∧ (interval m q).upper = (4 * m + 2) * factor := by
  unfold interval
  cases q - 2 with
  | ofNat n =>
    exact ⟨1 <<< n, by simp [Nat.shiftLeft_eq], by simp, by simp [Nat.shiftLeft_eq], rfl, rfl, rfl⟩
  | negSucc n =>
    exact ⟨1, by simp, by simp [Nat.shiftLeft_eq], by simp [Nat.shiftLeft_eq, zpow_negSucc], rfl,
      rfl, rfl⟩

theorem interval_proper {m : Nat} (hm : 0 < m) (q : Int) : (interval m q).Proper := by
  obtain ⟨factor, hfactor, hunit, -, hlower, hvalue, hupper⟩ := interval_eq m q
  have hslack : 0 < slack m q := by
    unfold slack
    split <;> omega
  refine ⟨hunit, ?_, ?_⟩
  · rw [hlower, hvalue]
    exact Nat.mul_lt_mul_of_pos_right (by omega) hfactor
  · rw [hvalue, hupper]
    exact Nat.mul_lt_mul_of_pos_right (by omega) hfactor

theorem roundsTo_of_contains {m : Nat} {q : Int} {r : Rat} (hm : 0 < m)
    (h : (interval m q).Contains r) : RoundsTo m q r := by
  obtain ⟨factor, -, hunit, hpow, hlower, -, hupper⟩ := interval_eq m q
  have hunit' : (0 : Rat) < (interval m q).unit := by exact_mod_cast hunit
  have hslack : slack m q ≤ 4 * m := (slack_le m q).trans (by omega)
  have hopen : m % 2 = 1 → (interval m q).closed = false := fun hodd => by simp [interval, hodd]
  obtain ⟨h₁, h₂, h₃, h₄⟩ := h
  rw [hlower] at h₁ h₃
  rw [hupper] at h₂ h₄
  push_cast [Nat.cast_sub hslack] at h₁ h₂ h₃ h₄
  refine ⟨?_, ?_, fun hodd => ?_, fun hodd => ?_⟩ <;> rw [hpow, ← mul_div_assoc]
  · exact (div_le_iff₀ hunit').mpr h₁
  · exact (le_div_iff₀ hunit').mpr h₂
  · exact (div_lt_iff₀ hunit').mpr (h₃ (hopen hodd))
  · exact (lt_div_iff₀ hunit').mpr (h₄ (hopen hodd))

/-- **The shortest decimal of a double rounds to it.** -/
theorem roundsTo_shortest {m : Nat} {q : Int} (hm : 0 < m) (hbound : m < 2 * hiddenBit) :
    RoundsTo m q (shortest m q).toRat := by
  have hproper := interval_proper hm q
  obtain ⟨factor, hfactor, hunit, hpow, hlower, hvalue, hupper⟩ := interval_eq m q
  have hmagnitude := Interval.magnitude_lt hunit (hproper.below.trans_le' (Nat.zero_le _))
  refine roundsTo_of_contains hm (Interval.contains_search hproper ?_)
  -- Seventeen digits suffice: the interval is longer than `value / 10 ^ 16`.
  have hlong : (4 * m : Rat) ≤ (2 + slack m q) * 10 ^ 16 := by
    have : 4 * m ≤ (2 + slack m q) * 10 ^ 16 := by
      unfold slack
      unfold hiddenBit at *
      split <;> omega
    exact_mod_cast this
  have hfactor' : (0 : Rat) < factor := by exact_mod_cast hfactor
  have hunit' : (0 : Rat) < (interval m q).unit := by exact_mod_cast hunit
  have hslack : slack m q ≤ 4 * m := (slack_le m q).trans (by omega)
  have hgrid : (10 : Rat) ^ ((interval m q).magnitude - 1 - (17 : Nat)) * 10 ^ 16
      = 10 ^ ((interval m q).magnitude - 2) := by
    rw [← zpow_natCast, ← zpow_add₀ (by norm_num)]
    congr 1
    push_cast
    ring
  have hstep : (interval m q).unit * (10 : Rat) ^ ((interval m q).magnitude - 1 - (17 : Nat))
      * 10 ^ 16 < 4 * m * factor := by
    rw [mul_assoc, hgrid, ← lt_div_iff₀' hunit']
    simpa [hvalue] using hmagnitude
  have hwidth : (4 * m * factor : Rat) ≤ (2 + slack m q) * 10 ^ 16 * factor := by gcongr
  generalize (10 : Rat) ^ ((interval m q).magnitude - 1 - (17 : Nat)) = grid at *
  rw [hlower, hupper]
  push_cast [Nat.cast_sub hslack]
  linarith

end Multipath.Decimal
