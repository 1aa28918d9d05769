import Multipath.Proofs.Decimal.Signs

/-!
# Doubles near a number

Positive numbers, as doubles: each operation rounds once, so what a few of them lead to is near the
exact result, and is positive even where it is too large to be finite.

* `Near ε x u`: the number `u` is `x`, up to a part `ε`; an infinity is near what is very large.
* `near_ofNat`: the double for a positive whole number.
* `Near.add`, `Near.mul`, `near_div`: sums, and products and quotients with a fixed number.
* `Near.hasSign`, `Near.finite`: what is near a positive number is positive, and finite if that is
  not too large.
-/

namespace Multipath.Binary

open Float.Model Float.Model.UnpackedFloat

/-- Far beyond what is measured, and not too much for a double. -/
def vast : Rat := 2 ^ 1000

/-- A positive normal number near `x`, or an infinity for a very large `x`. -/
def Near (ε x : Rat) : UnpackedFloat → Prop
  | .infinity s => s = .positive ∧ vast ≤ x
  | .finite s m e _ => s = .positive ∧ hiddenBit ≤ m ∧ m < 2 * hiddenBit ∧ minExponent ≤ e ∧
      |(m : Rat) * 2 ^ e - x| ≤ ε * x
  | _ => False

/-- What is off by a part `ε` is, rounded once more, off by this part. -/
def rounded (ε : Rat) : Rat := ε + (1 + ε) / 2 ^ 52

variable {ε x y : Rat} {u v : UnpackedFloat}

/-! ### Rounding -/

theorem near_rounded {z : Rat} (hy : |y - x| ≤ ε * x) (hz : |z - y| ≤ y / 2 ^ 52) :
    |z - x| ≤ rounded ε * x := by
  have hle : y ≤ (1 + ε) * x := by linarith [(abs_le.mp hy).2]
  calc |z - x| ≤ |z - y| + |y - x| := abs_sub_le z y x
    _ ≤ y / 2 ^ 52 + ε * x := add_le_add hz hy
    _ ≤ (1 + ε) * x / 2 ^ 52 + ε * x := by linarith
    _ = rounded ε * x := by
        rw [rounded]
        ring

theorem le_log2 {m : Nat} (hm : hiddenBit ≤ m) : 52 ≤ m.log2 :=
  (Nat.le_log2 (by unfold hiddenBit at hm; omega)).mpr hm

/-- Rounding what has 53 bits or more. -/
theorem near_roundWithAccuracy {m : Nat} {e : Int} (accuracy : Accuracy) (hm : hiddenBit ≤ m)
    (he : minExponent + 52 ≤ m.log2 + e) (hy : |y - x| ≤ ε * x) (hlow : (m : Rat) * 2 ^ e ≤ y)
    (hhigh : y ≤ (m + 1) * 2 ^ e) :
    Near (rounded ε) x (roundWithAccuracy Format.binary64 .positive m e accuracy) := by
  obtain ⟨n, hn⟩ := Nat.exists_eq_add_of_le (le_log2 hm)
  obtain ⟨M, E, hM, hround, hM₁, hM₂, hE, hnear⟩ :=
    roundWithAccuracy_near .positive accuracy hn (by omega) hlow hhigh
  rw [hround]
  exact ⟨rfl, hM₁, hM₂, by omega, near_rounded hy hnear⟩

theorem near_exact {m : Nat} {e : Int} (hm : hiddenBit ≤ m)
    (he : minExponent + 52 ≤ m.log2 + e) (hy : |(m : Rat) * 2 ^ e - x| ≤ ε * x) :
    Near (rounded ε) x (roundWithAccuracy Format.binary64 .positive m e .exact) := by
  have hpos : (0 : Rat) < 2 ^ e := by positivity
  exact near_roundWithAccuracy .exact hm he hy (le_refl _) (by linarith)

/-! ### What is near a number -/

namespace Near

theorem hasSign (h : Near ε x u) : HasSign .positive u := by
  cases u with
  | zero => cases h
  | notANumber => cases h
  | infinity s => exact h.1
  | finite s m e hm => exact h.1

/-- What is not too large has a finite value. -/
theorem finite (h : Near ε x u) (hx : x < vast) : ∃ q, value? u = some q ∧ |q - x| ≤ ε * x := by
  cases u with
  | zero => cases h
  | notANumber => cases h
  | infinity s => exact absurd hx (not_lt.mpr h.2)
  | finite s m e hm =>
    obtain ⟨rfl, -, -, -, hnear⟩ := h
    exact ⟨_, rfl, by simpa [Sign.apply] using hnear⟩

theorem mono (h : Near ε x u) {δ : Rat} (hδ : ε ≤ δ) (hx : 0 ≤ x) : Near δ x u := by
  cases u with
  | zero => cases h
  | notANumber => cases h
  | infinity s => exact h
  | finite s m e hm =>
    obtain ⟨rfl, hlow, hhigh, hmin, hnear⟩ := h
    exact ⟨rfl, hlow, hhigh, hmin, hnear.trans (mul_le_mul_of_nonneg_right hδ hx)⟩

/-- Packing keeps what is near, or makes it an infinity. -/
theorem pack (h : Near ε x u) (hε : ε ≤ 1) (hx : 0 ≤ x) :
    Near ε x (Float.Model.pack u).unpack := by
  cases u with
  | zero => cases h
  | notANumber => cases h
  | infinity s =>
    obtain ⟨rfl, hlarge⟩ := h
    exact ⟨rfl, hlarge⟩
  | finite s m e hm =>
    obtain ⟨rfl, hlow, hhigh, hmin, hnear⟩ := h
    by_cases he : e ≤ 971
    · rw [unpack_pack_normal hlow hhigh _ hmin he hm]
      exact ⟨rfl, hlow, hhigh, hmin, hnear⟩
    · have hpack : (Float.Model.pack (.finite .positive m e hm)).unpack = .infinity .positive := by
        change UnpackedFloat.unpack Format.binary64 (UnpackedFloat.pack Format.binary64 _) = _
        rw [UnpackedFloat.pack, if_pos (by simp only [Format.exponentBias]; omega)]
        rfl
      rw [hpack]
      refine ⟨rfl, ?_⟩
      have hmantissa : (2 : Rat) ^ 29 ≤ m := by
        have : 2 ^ 29 ≤ m := by unfold hiddenBit at hlow; omega
        exact_mod_cast this
      have hexponent : (2 : Rat) ^ 972 ≤ 2 ^ e := by
        rw [← zpow_natCast]
        exact zpow_le_zpow_right₀ one_le_two (by omega)
      have hvalue : 2 * vast ≤ m * 2 ^ e := by
        rw [vast, ← pow_succ', show 1000 + 1 = 29 + 972 from rfl, pow_add]
        exact mul_le_mul hmantissa hexponent (by positivity) (by positivity)
      have hpart : ε * x ≤ 1 * x := mul_le_mul_of_nonneg_right hε hx
      linarith [(abs_le.mp hnear).2]

/-! ### Sums -/

theorem zero_add (h : Near ε x u) (s : Sign) :
    Near ε x (UnpackedFloat.add Format.binary64 (.zero s) u) := by
  cases u with
  | zero => cases h
  | notANumber => cases h
  | infinity s' => exact h
  | finite s' m e hm => exact h

theorem add_zero (h : Near ε x u) (s : Sign) :
    Near ε x (UnpackedFloat.add Format.binary64 u (.zero s)) := by
  cases u with
  | zero => cases h
  | notANumber => cases h
  | infinity s' => exact h
  | finite s' m e hm => exact h

theorem add (hu : Near ε x u) (hv : Near ε y v) (hx : 0 ≤ x) (hy : 0 ≤ y) :
    Near (rounded ε) (x + y) (UnpackedFloat.add Format.binary64 u v) := by
  cases u with
  | zero => cases hu
  | notANumber => cases hu
  | infinity s =>
    obtain ⟨rfl, hlarge⟩ := hu
    have hsum : vast ≤ x + y := by linarith
    cases v with
    | zero => cases hv
    | notANumber => cases hv
    | infinity s' =>
      obtain ⟨rfl, -⟩ := hv
      exact ⟨rfl, hsum⟩
    | finite s' m' e' hm' => exact ⟨rfl, hsum⟩
  | finite s m e hm =>
    obtain ⟨rfl, hlow, -, hmin, hnear⟩ := hu
    cases v with
    | zero => cases hv
    | notANumber => cases hv
    | infinity s' =>
      obtain ⟨rfl, hlarge⟩ := hv
      exact ⟨rfl, by linarith⟩
    | finite s' m' e' hm' =>
      obtain ⟨rfl, -, -, hmin', hnear'⟩ := hv
      obtain ⟨n, hle, hvalue, hsum⟩ := add_positive e e' hm hm'
      have hlog := le_log2 (hlow.trans hle)
      rw [hsum, round_large .positive hlog]
      refine near_exact (hlow.trans hle) (by omega) ?_
      rw [hvalue, add_sub_add_comm, mul_add]
      exact (abs_add_le _ _).trans (add_le_add hnear hnear')

/-! ### Products -/

/-- A product with a number that is not below one. -/
theorem mul {m : Nat} {e : Int} (h : Near ε x u) (hx : 0 ≤ x) (hlow : hiddenBit ≤ m)
    (he : -52 ≤ e) (hm : 0 < m) :
    Near (rounded ε) (x * (m * 2 ^ e))
      (UnpackedFloat.mul Format.binary64 u (.finite .positive m e hm)) := by
  have hfactor : (1 : Rat) ≤ m * 2 ^ e := by
    have hmantissa : (2 : Rat) ^ 52 ≤ m := by exact_mod_cast hlow
    have hexponent : (2 : Rat) ^ (-52 : Int) ≤ 2 ^ e := zpow_le_zpow_right₀ one_le_two he
    calc (1 : Rat) = 2 ^ 52 * 2 ^ (-52 : Int) := by norm_num
      _ ≤ m * 2 ^ e := mul_le_mul hmantissa hexponent (by positivity) (by positivity)
  cases u with
  | zero => cases h
  | notANumber => cases h
  | infinity s =>
    obtain ⟨rfl, hlarge⟩ := h
    exact ⟨rfl, hlarge.trans (le_mul_of_one_le_right hx hfactor)⟩
  | finite s m' e' hm' =>
    obtain ⟨rfl, hlow', -, hmin', hnear⟩ := h
    have hproduct : hiddenBit * hiddenBit ≤ m' * m := Nat.mul_le_mul hlow' hlow
    have hlog : 104 ≤ (m' * m).log2 := (Nat.le_log2 (by positivity)).mpr hproduct
    refine near_exact (le_trans (by decide) hproduct) (by omega) ?_
    have hvalue : ((m' * m : Nat) : Rat) * 2 ^ (e' + e) = (m' * 2 ^ e') * (m * 2 ^ e) := by
      rw [zpow_add₀ two_ne_zero]
      push_cast
      ring
    have hpos : (0 : Rat) ≤ m * 2 ^ e := le_trans zero_le_one hfactor
    calc |((m' * m : Nat) : Rat) * 2 ^ (e' + e) - x * (m * 2 ^ e)|
        = |(m' : Rat) * 2 ^ e' - x| * (m * 2 ^ e) := by
          rw [hvalue, ← sub_mul, abs_mul, abs_of_nonneg hpos]
      _ ≤ ε * x * (m * 2 ^ e) := mul_le_mul_of_nonneg_right hnear hpos
      _ = ε * (x * (m * 2 ^ e)) := mul_assoc _ _ _

end Near

/-! ### Quotients -/

/-- A quotient of normal numbers, if it is one as well. -/
theorem near_div {m m' : Nat} {e e' : Int} {hm : 0 < m} {hm' : 0 < m'} (hlow : hiddenBit ≤ m)
    (hhigh : m < 2 * hiddenBit) (hlow' : hiddenBit ≤ m') (hhigh' : m' < 2 * hiddenBit)
    (he : minExponent + 53 ≤ e - e') :
    Near (rounded 0) (m * 2 ^ e / (m' * 2 ^ e'))
      (UnpackedFloat.div Format.binary64 (.finite .positive m e hm)
        (.finite .positive m' e' hm')) := by
  have hcore : divCore Format.binary64 m e m' e' =
      (m <<< 53 / m', e - e' - 53, accuracyOfFraction (m <<< 53 % m') m') := by
    have htarget : min (e - e') (Format.binary64.targetExponent
        (totalExponent m e - totalExponent m' e')) = e - e' - 53 := by
      simp only [Format.targetExponent, totalExponent, log2_normal hlow hhigh,
        log2_normal hlow' hhigh', Format.mantissaBits, Format.minExponent]
      unfold minExponent at he
      omega
    rw [divCore, htarget, show (e - e' - (e - e' - 53)).toNat = 53 by omega]
  change Near (rounded 0) _ (roundWithAccuracy Format.binary64 (.positive / .positive)
    (divCore Format.binary64 m e m' e').1 (divCore Format.binary64 m e m' e').2.1
    (divCore Format.binary64 m e m' e').2.2)
  rw [hcore, Nat.shiftLeft_eq]
  dsimp only
  have hquotient : hiddenBit ≤ m * 2 ^ 53 / m' := by
    refine (Nat.le_div_iff_mul_le hm').mpr ?_
    calc hiddenBit * m' ≤ hiddenBit * (2 * hiddenBit) := Nat.mul_le_mul_left _ hhigh'.le
      _ ≤ m * 2 ^ 53 := Nat.mul_le_mul hlow (by decide)
  have hlog := le_log2 hquotient
  have hvalue : (m : Rat) * 2 ^ e / (m' * 2 ^ e') =
      ((m * 2 ^ 53 : Nat) : Rat) / m' * 2 ^ (e - e' - 53) := by
    rw [zpow_sub₀ two_ne_zero, zpow_sub₀ two_ne_zero]
    push_cast
    field_simp
  have hunit : (0 : Rat) ≤ 2 ^ (e - e' - 53) := by positivity
  refine near_roundWithAccuracy (y := m * 2 ^ e / (m' * 2 ^ e')) _ hquotient (by omega)
    (by simp) ?_ ?_
  · rw [hvalue]
    exact mul_le_mul_of_nonneg_right Nat.cast_div_le hunit
  · rw [hvalue]
    refine mul_le_mul_of_nonneg_right ?_ hunit
    rw [div_le_iff₀ (by exact_mod_cast hm')]
    exact_mod_cast (Nat.lt_mul_of_div_lt (Nat.lt_succ_self _) hm').le

/-! ### Whole numbers -/

theorem near_ofNat {n : Nat} (hn : 0 < n) :
    Near (rounded 0) n (Float.ofNat n).toModel.unpack := by
  have hcast : (0 : Rat) ≤ n := Nat.cast_nonneg n
  rcases lt_or_ge n (2 ^ 53) with hsmall | hlarge
  · obtain ⟨m, e, hm, hwhole, hlow, hhigh, hmin, hvalue⟩ := unpack_ofNat hn hsmall
    have hexact : Near 0 n (Float.ofNat n).toModel.unpack := by
      rw [hwhole]
      exact ⟨rfl, hlow, hhigh, by unfold minExponent; omega, by simp [hvalue]⟩
    exact hexact.mono (by norm_num [rounded]) hcast
  · have hbits : hiddenBit ≤ n * 2 ^ 53 :=
      le_trans (by decide) (Nat.mul_le_mul_right (2 ^ 53) (Nat.succ_le_of_lt hn))
    have hlog := le_log2 hbits
    have hvalue : ((n * 2 ^ 53 : Nat) : Rat) * 2 ^ (-53 : Int) = n := by
      push_cast
      rw [mul_assoc]
      norm_num
    rw [unpack_ofNat_large hlarge, ofScientific_whole hn.ne']
    refine Near.pack ?_ (by norm_num [rounded]) hcast
    exact near_exact hbits (by unfold minExponent; omega) (by rw [hvalue]; simp)

end Multipath.Binary
