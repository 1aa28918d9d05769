import Multipath.Decimal.Shortest
import Multipath.Proofs.Decimal.Order

/-!
# The double nearest to a quotient

A double is `m * 2 ^ q`, and the numbers that lie nearest to it form an interval around it, to which
the ends belong if `m` is even. Every quotient in this interval is rounded to the double.

* `RoundsTo m q r`: `r` lies in the interval of `m * 2 ^ q`.
* `log2Quotient_eq`, `roundQuotient_eq`: the exponent and the mantissa of a quotient.
* `nearestBits_eq`: the bits of the double nearest to a quotient in the interval.
-/

namespace Multipath.Binary

/-! ### Intervals -/

/-- How far below `m * 2 ^ q` its interval reaches, in quarters of `2 ^ q`: below a power of two the
next double is only half as far away. -/
def slack (m : Nat) (q : Int) : Nat := if m = hiddenBit ∧ minExponent < q then 1 else 2

theorem slack_le (m : Nat) (q : Int) : slack m q ≤ 2 := by
  unfold slack
  split <;> omega

/-- `r` lies in the interval of `m * 2 ^ q`. -/
structure RoundsTo (m : Nat) (q : Int) (r : Rat) : Prop where
  lower : (4 * m - slack m q) * 2 ^ (q - 2) ≤ r
  upper : r ≤ (4 * m + 2) * 2 ^ (q - 2)
  lowerOdd : m % 2 = 1 → (4 * m - slack m q) * 2 ^ (q - 2) < r
  upperOdd : m % 2 = 1 → r < (4 * m + 2) * 2 ^ (q - 2)

/-! ### Exponents -/

theorem log2_bounds {n : Nat} (hn : 0 < n) :
    (2 : Rat) ^ (n.log2 : Int) ≤ n ∧ (n : Rat) < 2 ^ ((n.log2 : Int) + 1) := by
  constructor
  · exact_mod_cast Nat.log2_self_le hn.ne'
  · exact_mod_cast Nat.lt_log2_self

theorem reached_eq {num den : Nat} (d : Int) (hden : 0 < den) :
    (match d with
      | .ofNat n => decide (den <<< n ≤ num)
      | .negSucc n => decide (den ≤ num <<< (n + 1))) = decide ((2 : Rat) ^ d ≤ num / den) := by
  have hden' : (0 : Rat) < den := by exact_mod_cast hden
  cases d with
  | ofNat n =>
    simp only [Int.ofNat_eq_natCast, zpow_natCast, le_div_iff₀ hden', Nat.shiftLeft_eq]
    rw [decide_eq_decide, mul_comm]
    exact_mod_cast Iff.rfl
  | negSucc n =>
    simp only [zpow_negSucc, Nat.shiftLeft_eq]
    rw [decide_eq_decide, le_div_iff₀ hden', inv_mul_le_iff₀ (by positivity), mul_comm]
    exact_mod_cast Iff.rfl

/-- The exponent of a quotient is the one whose power of two is the last that it reaches. -/
theorem log2Quotient_eq {num den : Nat} {e : Int} (hnum : 0 < num) (hden : 0 < den)
    (hlow : (2 : Rat) ^ e ≤ num / den) (hhigh : (num / den : Rat) < 2 ^ (e + 1)) :
    log2Quotient num den = e := by
  have hden' : (0 : Rat) < den := by exact_mod_cast hden
  obtain ⟨hnumLow, hnumHigh⟩ := log2_bounds hnum
  obtain ⟨hdenLow, hdenHigh⟩ := log2_bounds hden
  obtain ⟨d, hd⟩ : ∃ d : Int, d = (num.log2 : Int) - den.log2 := ⟨_, rfl⟩
  -- The difference of the logarithms is the exponent or one more.
  have hle : e ≤ d := by
    have : (num / den : Rat) < 2 ^ (d + 1) := by
      rw [div_lt_iff₀ hden']
      calc (num : Rat) < 2 ^ ((num.log2 : Int) + 1) := hnumHigh
        _ = 2 ^ (d + 1) * 2 ^ (den.log2 : Int) := by
            rw [← zpow_add₀ two_ne_zero, hd]
            congr 1
            omega
        _ ≤ 2 ^ (d + 1) * den := by gcongr
    have := (zpow_lt_zpow_iff_right₀ one_lt_two).mp (hlow.trans_lt this)
    omega
  have hge : d ≤ e + 1 := by
    have : (2 : Rat) ^ (d - 1) < num / den := by
      rw [lt_div_iff₀ hden']
      calc (2 : Rat) ^ (d - 1) * den < 2 ^ (d - 1) * 2 ^ ((den.log2 : Int) + 1) := by gcongr
        _ = 2 ^ (num.log2 : Int) := by
            rw [← zpow_add₀ two_ne_zero, hd]
            congr 1
            omega
        _ ≤ num := hnumLow
    have := (zpow_lt_zpow_iff_right₀ one_lt_two).mp (this.trans hhigh)
    omega
  rw [log2Quotient, ← hd]
  refine (congrArg (fun reached : Bool => if reached then d else d - 1)
    (reached_eq d hden)).trans ?_
  split
  next h =>
    have := (zpow_lt_zpow_iff_right₀ one_lt_two).mp ((of_decide_eq_true h).trans_lt hhigh)
    omega
  next h =>
    have h := not_le.mp (mt decide_eq_true h)
    have := (zpow_lt_zpow_iff_right₀ one_lt_two).mp (hlow.trans_lt h)
    omega

/-! ### Mantissas -/

/-- A quotient is its whole part and a fraction, and the rest of the division tells how the fraction
compares to a half. -/
theorem exists_fraction {den : Nat} (num : Nat) (hden : 0 < den) : ∃ f : Rat,
    (num / den : Rat) = (num / den : Nat) + f ∧ 0 ≤ f ∧ f < 1 ∧
      (2 * (num % den) < den ↔ f < 1 / 2) ∧ (den < 2 * (num % den) ↔ 1 / 2 < f) := by
  have hden' : (0 : Rat) < den := by exact_mod_cast hden
  have hlt : num % den < den := Nat.mod_lt _ hden
  have hnum : (num : Rat) = (num / den : Nat) * den + (num % den : Nat) := by
    exact_mod_cast (Nat.div_add_mod' num den).symm
  generalize num / den = whole at *
  generalize num % den = rest at *
  refine ⟨rest / den, ?_, by positivity, ?_, ?_, ?_⟩
  · rw [hnum]
    field_simp
  · rw [div_lt_one hden']
    exact_mod_cast hlt
  · rw [div_lt_iff₀ hden', ← Nat.cast_lt (α := Rat)]
    push_cast
    constructor <;> intro h <;> linarith
  · rw [lt_div_iff₀ hden', ← Nat.cast_lt (α := Rat)]
    push_cast
    constructor <;> intro h <;> linarith

/-- A quotient is rounded to the whole number that is nearest to it. -/
theorem roundQuotient_eq {num den k : Nat} (hden : 0 < den) {s : Rat} (hs : (num : Rat) / den = s)
    (hlow : (k : Rat) - 1 / 2 ≤ s) (hhigh : s ≤ k + 1 / 2)
    (hodd : k % 2 = 1 → (k : Rat) - 1 / 2 < s ∧ s < k + 1 / 2) : roundQuotient num den = k := by
  obtain ⟨f, hsum, hnonneg, hone, hbelow, habove⟩ := exists_fraction num hden
  rw [hs] at hsum
  simp only [roundQuotient, hbelow, habove]
  generalize num / den = whole at *
  have hcases : k = whole ∨ k = whole + 1 := by
    have hle : whole < k + 1 := by
      have : (whole : Rat) < k + 1 := by linarith
      exact_mod_cast this
    have hge : k < whole + 2 := by
      have : (k : Rat) < whole + 2 := by linarith
      exact_mod_cast this
    omega
  rcases hcases with rfl | rfl
  · split
    · rfl
    · rw [if_neg (by linarith)]
      have heven : k % 2 ≠ 1 := fun h => by linarith [(hodd h).2]
      omega
  · push_cast at hlow hodd
    rw [if_neg (by linarith)]
    split
    · rfl
    · have heven : (whole + 1) % 2 ≠ 1 := fun h => by linarith [(hodd h).1]
      omega

/-- A quotient in units of `2 ^ q`, rounded. -/
def mantissaAt (num den : Nat) (q : Int) : Nat :=
  match q with
  | .ofNat n => roundQuotient num (den <<< n)
  | .negSucc n => roundQuotient (num <<< (n + 1)) den

theorem mantissaAt_eq {num den k : Nat} {q : Int} (hden : 0 < den)
    (hlow : ((k : Rat) - 1 / 2) * 2 ^ q ≤ num / den)
    (hhigh : (num / den : Rat) ≤ (k + 1 / 2) * 2 ^ q)
    (hodd : k % 2 = 1 →
      ((k : Rat) - 1 / 2) * 2 ^ q < num / den ∧ (num / den : Rat) < (k + 1 / 2) * 2 ^ q) :
    mantissaAt num den q = k := by
  have hpow : (0 : Rat) < 2 ^ q := by positivity
  have hround : ∀ {num' den' : Nat}, 0 < den' → (num' : Rat) / den' = num / den / 2 ^ q →
      roundQuotient num' den' = k := fun hden' heq => by
    refine roundQuotient_eq hden' heq ((le_div_iff₀ hpow).mpr hlow) ((div_le_iff₀ hpow).mpr hhigh)
      fun h => ⟨(lt_div_iff₀ hpow).mpr (hodd h).1, (div_lt_iff₀ hpow).mpr (hodd h).2⟩
  cases q with
  | ofNat n =>
    refine hround (by simpa [Nat.shiftLeft_eq] using hden) ?_
    simp [Nat.shiftLeft_eq, div_div]
  | negSucc n =>
    refine hround hden ?_
    rw [zpow_negSucc, div_inv_eq_mul]
    push_cast [Nat.shiftLeft_eq]
    ring

/-! ### Bits -/

/-- The parts of a finite double other than its sign. -/
structure IsDouble (m : Nat) (q : Int) : Prop where
  bound : m < 2 * hiddenBit
  least : minExponent ≤ q
  most : q ≤ 971
  leading : hiddenBit ≤ m ∨ q = minExponent

theorem IsDouble.toNat_le {m : Nat} {q : Int} (h : IsDouble m q) :
    (q - minExponent).toNat ≤ 2045 := by
  have := h.most
  unfold minExponent
  omega

/-- The bits of the double `m * 2 ^ q`. -/
def bitsOf (m : Nat) (q : Int) : UInt64 := UInt64.ofNat ((q - minExponent).toNat * hiddenBit + m)

theorem nearestBits_of_exponent {num den : Nat} {q : Int}
    (h : max (log2Quotient num den - 52) minExponent = q) :
    nearestBits num den = UInt64.ofNat
      (min ((q - minExponent).toNat * hiddenBit + mantissaAt num den q) (2047 * hiddenBit)) := by
  subst h
  rfl

section

variable {num den m : Nat} {q : Int} (h : IsDouble m q) (hr : RoundsTo m q (num / den))
include h hr

/-- A quotient that reaches the power of two below the double, or any if there is none, has the
double's exponent. -/
theorem exponent_eq (hnum : 0 < num) (hden : 0 < den)
    (hreach : q = minExponent ∨ (2 : Rat) ^ (q + 52) ≤ num / den) :
    max (log2Quotient num den - 52) minExponent = q := by
  have hpos : (0 : Rat) < num / den := by positivity
  obtain ⟨e, hlow, hhigh⟩ := exists_mem_Ico_zpow hpos one_lt_two
  rw [log2Quotient_eq hnum hden hlow hhigh]
  have hbelow : (num / den : Rat) < 2 ^ (q + 53) := by
    have hm : (m : Rat) + 1 ≤ 2 * hiddenBit := by exact_mod_cast h.bound
    have hpow : (0 : Rat) < 2 ^ (q - 2) := by positivity
    calc (num / den : Rat) ≤ (4 * m + 2) * 2 ^ (q - 2) := hr.upper
      _ < 2 ^ 55 * 2 ^ (q - 2) := by
          gcongr
          norm_num [hiddenBit] at hm ⊢
          linarith
      _ = 2 ^ (q + 53) := by
          rw [← zpow_natCast, ← zpow_add₀ two_ne_zero]
          congr 1
          push_cast
          omega
  have hle := (zpow_lt_zpow_iff_right₀ one_lt_two).mp (hlow.trans_lt hbelow)
  have hleast := h.least
  rcases hreach with rfl | hreach
  · omega
  · have hge := (zpow_lt_zpow_iff_right₀ one_lt_two).mp (hreach.trans_lt hhigh)
    omega

/-- A quotient below the power of two below the double has the next lower exponent, and the double
is this power of two. -/
theorem exponent_eq_of_carry (hnum : 0 < num) (hden : 0 < den) (hmin : q ≠ minExponent)
    (hbelow : (num / den : Rat) < 2 ^ (q + 52)) :
    m = hiddenBit ∧ slack m q = 1 ∧ max (log2Quotient num den - 52) minExponent = q - 1 := by
  have hpow : (0 : Rat) < 2 ^ (q - 2) := by positivity
  have hlead : hiddenBit ≤ m := h.leading.resolve_right hmin
  have hleast : minExponent < q := lt_of_le_of_ne h.least (Ne.symm hmin)
  have hunits : (2 : Rat) ^ (q + 52) = 2 ^ 54 * 2 ^ (q - 2) := by
    rw [← zpow_natCast, ← zpow_add₀ two_ne_zero]
    congr 1
    push_cast
    omega
  have hm : m = hiddenBit := by
    have hlt : (4 * m - slack m q : Rat) < 2 ^ 54 :=
      lt_of_mul_lt_mul_right (hr.lower.trans_lt (hbelow.trans_eq hunits)) hpow.le
    have hslack : (slack m q : Rat) ≤ 2 := by exact_mod_cast slack_le m q
    have hlt : (4 * m : Rat) < 2 ^ 54 + 2 := by linarith
    have : 4 * m < 2 ^ 54 + 2 := by exact_mod_cast hlt
    unfold hiddenBit at hlead ⊢
    omega
  have hone : slack m q = 1 := by simp [slack, hm, hleast]
  refine ⟨hm, hone, ?_⟩
  have hlow : (2 : Rat) ^ (q + 51) ≤ num / den := by
    refine le_trans ?_ hr.lower
    rw [hone, hm, show q + 51 = ((53 : Nat) : Int) + (q - 2) by omega, zpow_add₀ two_ne_zero]
    gcongr
    norm_num [hiddenBit]
  rw [log2Quotient_eq hnum hden hlow (hbelow.trans_eq (by congr 1; omega))]
  omega

theorem nearestBits_of_reach (hnum : 0 < num) (hden : 0 < den)
    (hreach : q = minExponent ∨ (2 : Rat) ^ (q + 52) ≤ num / den) :
    nearestBits num den = bitsOf m q := by
  have hpow : (0 : Rat) < 2 ^ (q - 2) := by positivity
  have hq : (2 : Rat) ^ q = 4 * 2 ^ (q - 2) := by
    rw [show q = ((2 : Nat) : Int) + (q - 2) by omega, zpow_add₀ two_ne_zero]
    norm_num
  have hquarters : (4 * m - 2 : Rat) * 2 ^ (q - 2) ≤ (4 * m - slack m q) * 2 ^ (q - 2) := by
    have : (slack m q : Rat) ≤ 2 := by exact_mod_cast slack_le m q
    gcongr
  have hmantissa : mantissaAt num den q = m := by
    refine mantissaAt_eq hden ?_ ?_ fun hodd => ⟨?_, ?_⟩ <;> rw [hq]
    · linarith [hr.lower]
    · linarith [hr.upper]
    · linarith [hr.lowerOdd hodd]
    · linarith [hr.upperOdd hodd]
  rw [nearestBits_of_exponent (exponent_eq h hr hnum hden hreach), hmantissa, bitsOf,
    Nat.min_eq_left]
  have := h.bound
  have := h.toNat_le
  unfold hiddenBit at *
  omega

/-- Half a unit below a power of two, the mantissa is rounded up to the power of two, and carries
over into the exponent. -/
theorem nearestBits_of_carry (hnum : 0 < num) (hden : 0 < den) (hmin : q ≠ minExponent)
    (hbelow : (num / den : Rat) < 2 ^ (q + 52)) : nearestBits num den = bitsOf m q := by
  obtain ⟨rfl, hone, hexponent⟩ := exponent_eq_of_carry h hr hnum hden hmin hbelow
  have hpow : (0 : Rat) < 2 ^ (q - 2) := by positivity
  have hhalf : (2 : Rat) ^ (q - 1) = 2 * 2 ^ (q - 2) := by
    rw [show q - 1 = ((1 : Nat) : Int) + (q - 2) by omega, zpow_add₀ two_ne_zero]
    norm_num
  have hunits : (2 : Rat) ^ (q + 52) = 4 * hiddenBit * 2 ^ (q - 2) := by
    rw [show q + 52 = ((54 : Nat) : Int) + (q - 2) by omega, zpow_add₀ two_ne_zero]
    norm_num [hiddenBit]
  have hlower := hr.lower
  rw [hone] at hlower
  have hmantissa : mantissaAt num den (q - 1) = 2 * hiddenBit := by
    refine mantissaAt_eq hden ?_ ?_ fun hodd => by omega
    · rw [hhalf]
      push_cast at hlower ⊢
      linarith
    · rw [hhalf]
      push_cast
      linarith
  rw [nearestBits_of_exponent hexponent, hmantissa, bitsOf]
  refine congrArg UInt64.ofNat ?_
  have := h.least
  have := h.toNat_le
  unfold hiddenBit at *
  omega

/-- **The double nearest to a quotient in the interval of a double is that double.** -/
theorem nearestBits_eq (hnum : 0 < num) (hden : 0 < den) :
    nearestBits num den = bitsOf m q := by
  by_cases hreach : q = minExponent ∨ (2 : Rat) ^ (q + 52) ≤ num / den
  · exact nearestBits_of_reach h hr hnum hden hreach
  · obtain ⟨hmin, hbelow⟩ := not_or.mp hreach
    exact nearestBits_of_carry h hr hnum hden hmin (not_le.mp hbelow)

end

end Multipath.Binary
