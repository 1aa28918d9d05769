import Multipath.Proofs.Decimal.Parts
import Multipath.Proofs.Decimal.Shortest

/-!
# Decimals read as doubles

A decimal in the interval of a double is read as that double.

* `Decimal.toFloat_of_roundsTo`: a decimal in the interval of a positive double.
* `Decimal.toFloat_of_zero`: zero.
-/

namespace Multipath.Decimal

open Binary

variable {m : Nat} {q : Int} {d : Decimal}

theorem roundsTo_pos {r : Rat} (hm : 0 < m) (hr : RoundsTo m q r) : 0 < r := by
  have hslack : (slack m q : Rat) ≤ 2 := by exact_mod_cast slack_le m q
  have hm' : (1 : Rat) ≤ m := by exact_mod_cast hm
  have hpow : (0 : Rat) < 2 ^ (q - 2) := by positivity
  refine lt_of_lt_of_le ?_ hr.lower
  exact mul_pos (by linarith) hpow

/-- What rounds to a double is neither beyond the largest power of ten nor below the smallest one
that is tested. -/
theorem roundsTo_bounds {r : Rat} (hm : 0 < m) (h : IsDouble m q) (hr : RoundsTo m q r) :
    (10 : Rat) ^ (-400 : Int) < r ∧ r < 10 ^ (400 : Int) := by
  have hslack : (slack m q : Rat) ≤ 2 := by exact_mod_cast slack_le m q
  have hm' : (1 : Rat) ≤ m := by exact_mod_cast hm
  have hbound : (m : Rat) < 9007199254740992 := by
    have := h.bound
    unfold hiddenBit at this
    exact_mod_cast this
  have hpow : (0 : Rat) < 2 ^ (q - 2) := by positivity
  have hleast : (2 : Rat) ^ (-1076 : Int) ≤ 2 ^ (q - 2) := by
    have := h.least
    unfold minExponent at this
    exact zpow_le_zpow_right₀ one_le_two (by omega)
  have hmost : (2 : Rat) ^ (q - 2) ≤ 2 ^ (969 : Int) := by
    have := h.most
    exact zpow_le_zpow_right₀ one_le_two (by omega)
  have hten : (2 : Rat) ^ (1200 : Int) < 10 ^ (400 : Int) := by
    rw [show (1200 : Int) = 3 * 400 by norm_num, zpow_mul]
    exact zpow_lt_zpow_left₀ (by norm_num) (by positivity) (by norm_num)
  constructor
  · calc (10 : Rat) ^ (-400 : Int) ≤ 2 ^ (-1200 : Int) := by
          rw [zpow_neg, zpow_neg]
          exact inv_anti₀ (by positivity) hten.le
      _ < 2 ^ (-1076 : Int) := zpow_lt_zpow_right₀ one_lt_two (by norm_num)
      _ ≤ 1 * 2 ^ (q - 2) := by linarith
      _ ≤ (4 * m - slack m q) * 2 ^ (q - 2) := by
          gcongr
          linarith
      _ ≤ r := hr.lower
  · calc r ≤ (4 * m + 2) * 2 ^ (q - 2) := hr.upper
      _ ≤ 2 ^ (56 : Int) * 2 ^ (969 : Int) := by
          gcongr
          norm_num
          linarith
      _ = 2 ^ (1025 : Int) := by rw [← zpow_add₀ two_ne_zero]; norm_num
      _ < 10 ^ (400 : Int) := (zpow_lt_zpow_right₀ one_lt_two (by norm_num)).trans hten

/-- The digits of a decimal tell its magnitude. -/
theorem toRat_bounds (hd : 0 < d.significand) :
    (10 : Rat) ^ ((Nat.toDigits 10 d.significand).length + d.exponent - 1) ≤ d.toRat ∧
      d.toRat < 10 ^ ((Nat.toDigits 10 d.significand).length + d.exponent) := by
  obtain ⟨hlow, hhigh⟩ := toDigits_bounds hd
  have hlength := Nat.length_toDigits_pos (b := 10) (n := d.significand)
  have hpow : (0 : Rat) < 10 ^ d.exponent := by positivity
  have hlow' : (10 : Rat) ^ ((Nat.toDigits 10 d.significand).length - 1) ≤ d.significand := by
    exact_mod_cast hlow
  have hhigh' : (d.significand : Rat) < 10 ^ (Nat.toDigits 10 d.significand).length := by
    exact_mod_cast hhigh
  constructor
  · calc (10 : Rat) ^ ((Nat.toDigits 10 d.significand).length + d.exponent - 1)
        = 10 ^ ((Nat.toDigits 10 d.significand).length - 1) * 10 ^ d.exponent := by
          rw [← zpow_natCast, ← zpow_add₀ (by norm_num)]
          congr 1
          omega
      _ ≤ d.toRat := by
          unfold toRat
          gcongr
  · rw [zpow_add₀ (by norm_num), zpow_natCast]
    unfold toRat
    gcongr

/-- **A decimal in the interval of a double is read as this double.** -/
theorem toFloat_of_roundsTo (hm : 0 < m) (h : IsDouble m q) (hr : RoundsTo m q d.toRat) :
    d.toFloat = Float.ofBits (bitsOf m q) := by
  have hpos := roundsTo_pos hm hr
  have hsignificand : 0 < d.significand := by
    by_contra hzero
    simp [toRat, Nat.eq_zero_of_not_pos hzero] at hpos
  obtain ⟨hlow, hhigh⟩ := roundsTo_bounds hm h hr
  obtain ⟨hleast, hmost⟩ := toRat_bounds hsignificand
  have htop := (zpow_lt_zpow_iff_right₀ (by norm_num)).mp (hlow.trans hmost)
  have hbottom := (zpow_lt_zpow_iff_right₀ (by norm_num)).mp (hleast.trans_lt hhigh)
  unfold toFloat
  dsimp only
  rw [if_neg (by omega), if_neg (by omega)]
  have hten : ∀ n, 0 < Nat.pow 10 n := fun n => Nat.pow_pos (by decide)
  cases hexponent : d.exponent with
  | ofNat n =>
    have hquotient : d.toRat = (d.significand * Nat.pow 10 n : Nat) / (1 : Nat) := by
      simp [toRat, hexponent, Nat.pow_eq]
    rw [hquotient] at hr
    exact congrArg Float.ofBits
      (nearestBits_eq h hr (Nat.mul_pos hsignificand (hten n)) (by decide))
  | negSucc n =>
    have hquotient : d.toRat = d.significand / (Nat.pow 10 (n + 1) : Nat) := by
      simp [toRat, hexponent, Nat.pow_eq, zpow_negSucc, div_eq_mul_inv]
    rw [hquotient] at hr
    exact congrArg Float.ofBits (nearestBits_eq h hr hsignificand (hten (n + 1)))

theorem toFloat_of_zero (hd : d.significand = 0) : d.toFloat = 0.0 := by
  simp [toFloat, hd]

end Multipath.Decimal
