import Mathlib.Algebra.Order.BigOperators.Group.List
import Mathlib.Tactic.FieldSimp
import Multipath.Proofs.Decimal.Scaling

/-!
# Sums of doubles

A sum of two doubles is rounded to 53 bits, so it is off by no more than a part in `2 ^ 52`.  A sum
that is finite has finite summands.

* `round_le`: what rounding may add to a number.
* `value?_pack`: packing keeps a canonical number, or leaves nothing finite.
* `toRat?_add_le`: what a sum of doubles may add to the sum of their values.
* `toRat?_foldl_add_le`: the same for a whole list.
-/

namespace Multipath.Binary

open Float.Model Float.Model.UnpackedFloat

/-! ### Rounding -/

/-- The exponent to which `m * 2 ^ e` is brought before it is rounded. -/
theorem targetExponent_eq (m : Nat) (e : Int) :
    Format.binary64.targetExponent (totalExponent m e) = max (m.log2 + e - 52) minExponent := by
  simp only [Format.targetExponent, totalExponent, Format.mantissaBits, Format.minExponent,
    minExponent]
  omega

theorem roundedMantissa_bounds (x : ExtendedMantissa) :
    x.mantissa ≤ x.roundedMantissa ∧ x.roundedMantissa ≤ x.mantissa + 1 := by
  rcases x with ⟨m, roundBit, stickyBit⟩
  cases roundBit <;> cases stickyBit <;>
    simp [ExtendedMantissa.roundedMantissa, ExtendedMantissa.accuracy,
      Accuracy.roundToNearestEven]
  omega

theorem log2_small {m : Nat} (hm : m < 2 * hiddenBit) : m.log2 ≤ 52 := by
  by_cases hzero : m = 0
  · simp [hzero]
  · have := (Nat.log2_lt hzero (k := 53)).mpr hm
    omega

theorem shiftToTargetExponent_small {m : Nat} {e : Int} (hm : m < 2 * hiddenBit)
    (he : minExponent ≤ e) :
    shiftToTargetExponent Format.binary64 m e .exact = (⟨m, false, false⟩, e) := by
  have hlog := log2_small hm
  have hshift : (max ((m.log2 : Int) + e - 52) minExponent - e).toNat = 0 := by omega
  rw [shiftToTargetExponent, targetExponent_eq, shiftToExponent, hshift]
  simp [HShiftRight.hShiftRight, Nat.repeat, ExtendedMantissa.ofMantissaAndAccuracy]

/-- What needs no more than 53 bits is not rounded. -/
theorem roundWithAccuracy_small (s : Sign) {m : Nat} {e : Int} (hpos : 0 < m)
    (hm : m < 2 * hiddenBit) (he : minExponent ≤ e) :
    roundWithAccuracy Format.binary64 s m e .exact = .finite s m e hpos := by
  have hshift := shiftToTargetExponent_small hm he
  exact roundWithAccuracy_eq hpos hshift hshift

theorem mantissa_ofMantissaAndAccuracy (m : Nat) (accuracy : Accuracy) :
    (ExtendedMantissa.ofMantissaAndAccuracy m accuracy).mantissa = m := by
  rcases accuracy with _ | ordering
  · rfl
  · cases ordering <;> rfl

/-- What has 53 bits or more, and maybe a fraction beyond them, is brought to 53 bits and comes out
off by no more than a part in `2 ^ 52`. -/
theorem roundWithAccuracy_near (s : Sign) {m n : Nat} {e : Int} (accuracy : Accuracy)
    (hlog : m.log2 = 52 + n) (he : minExponent ≤ e + n) {x : Rat} (hlow : (m : Rat) * 2 ^ e ≤ x)
    (hhigh : x ≤ (m + 1) * 2 ^ e) :
    ∃ M E hM, roundWithAccuracy Format.binary64 s m e accuracy = .finite s M E hM ∧
      hiddenBit ≤ M ∧ M < 2 * hiddenBit ∧ e + n ≤ E ∧ |(M : Rat) * 2 ^ E - x| ≤ x / 2 ^ 52 := by
  have hm : m ≠ 0 := by
    rintro rfl
    simp at hlog
    omega
  have hquot₁ : hiddenBit ≤ m / 2 ^ n := by
    refine (Nat.le_div_iff_mul_le (by positivity)).mpr ?_
    rw [hiddenBit, show 4503599627370496 = 2 ^ 52 from rfl, ← pow_add, ← hlog]
    exact Nat.log2_self_le hm
  have hquot₂ : m / 2 ^ n < 2 * hiddenBit := by
    refine (Nat.div_lt_iff_lt_mul (by positivity)).mpr ?_
    rw [hiddenBit, show 2 * 4503599627370496 = 2 ^ 53 from rfl, ← pow_add,
      show 53 + n = m.log2 + 1 by omega]
    exact Nat.lt_log2_self
  have hfirst : shiftToTargetExponent Format.binary64 m e accuracy
      = (ExtendedMantissa.ofMantissaAndAccuracy m accuracy >>> n, e + n) := by
    have htarget : (max ((m.log2 : Int) + e - 52) minExponent - e).toNat = n := by omega
    rw [shiftToTargetExponent, targetExponent_eq, shiftToExponent, htarget]
  have hbounds := roundedMantissa_bounds (ExtendedMantissa.ofMantissaAndAccuracy m accuracy >>> n)
  rw [mantissa_shiftRight, mantissa_ofMantissaAndAccuracy] at hbounds
  have hsecond := fun M E hM => roundWithAccuracy_eq (s := s) (M := M) (E := E) hM hfirst
  generalize (ExtendedMantissa.ofMantissaAndAccuracy m accuracy >>> n).roundedMantissa = r
    at hbounds hsecond
  -- What is rounded and what comes out lie between two neighbours, which are that close.
  have hvalue : |(r : Rat) * 2 ^ (e + n) - x| ≤ x / 2 ^ 52 := by
    obtain ⟨q, hq⟩ : ∃ q, q = m / 2 ^ n := ⟨_, rfl⟩
    rw [← hq] at hbounds hquot₁
    have hunit : (2 : Rat) ^ (e + n) = 2 ^ n * 2 ^ e := by
      rw [zpow_add₀ two_ne_zero, zpow_natCast, mul_comm]
    have hpos : (0 : Rat) < 2 ^ (e + n) := by positivity
    have hbelow : (q : Rat) * 2 ^ (e + n) ≤ x := by
      have hle : ((q * 2 ^ n : Nat) : Rat) ≤ m := by
        exact_mod_cast hq ▸ Nat.div_mul_le_self m (2 ^ n)
      calc (q : Rat) * 2 ^ (e + n) = (q * 2 ^ n : Nat) * 2 ^ e := by
            rw [hunit]
            push_cast
            ring
        _ ≤ m * 2 ^ e := mul_le_mul_of_nonneg_right hle (by positivity)
        _ ≤ x := hlow
    have habove : x ≤ (q + 1) * 2 ^ (e + n) := by
      have hle : ((m + 1 : Nat) : Rat) ≤ ((q + 1) * 2 ^ n : Nat) := by
        refine Nat.cast_le.mpr (Nat.succ_le_of_lt ?_)
        exact hq ▸ Nat.lt_mul_of_div_lt (Nat.lt_succ_self _) (by positivity)
      calc x ≤ (m + 1 : Nat) * 2 ^ e := by exact_mod_cast hhigh
        _ ≤ ((q + 1) * 2 ^ n : Nat) * 2 ^ e := mul_le_mul_of_nonneg_right hle (by positivity)
        _ = (q + 1) * 2 ^ (e + n) := by
            rw [hunit]
            push_cast
            ring
    have hr₁ : (q : Rat) * 2 ^ (e + n) ≤ r * 2 ^ (e + n) :=
      mul_le_mul_of_nonneg_right (by exact_mod_cast hbounds.1) hpos.le
    have hr₂ : (r : Rat) * 2 ^ (e + n) ≤ (q + 1) * 2 ^ (e + n) :=
      mul_le_mul_of_nonneg_right (by exact_mod_cast hbounds.2) hpos.le
    have hulp : 2 ^ 52 * (2 : Rat) ^ (e + n) ≤ x := by
      refine le_trans (mul_le_mul_of_nonneg_right ?_ hpos.le) hbelow
      exact_mod_cast hquot₁
    rw [abs_le]
    constructor <;> linarith
  by_cases hcarry : r < 2 * hiddenBit
  · have hr : 0 < r := by unfold hiddenBit at hquot₁; omega
    exact ⟨r, e + n, hr, hsecond _ _ hr (shiftToTargetExponent_small hcarry he),
      by omega, hcarry, le_refl _, hvalue⟩
  · obtain rfl : r = hiddenBit * 2 ^ 1 := by omega
    have hlast := shiftToTargetExponent_shifted (m := hiddenBit) (le_refl _) (by decide) 1
      (e := e + n) (by omega)
    refine ⟨hiddenBit, e + n + 1, by decide, hsecond _ _ (by decide) hlast, le_refl _, by decide,
      by omega, ?_⟩
    have hsame : (hiddenBit : Rat) * 2 ^ (e + n + 1) = (hiddenBit * 2 ^ 1 : Nat) * 2 ^ (e + n) := by
      rw [zpow_add_one₀ two_ne_zero]
      push_cast
      ring
    rwa [hsame]

/-- What needs more than 53 bits is brought to 53 bits and rounded there. -/
theorem roundWithAccuracy_large (s : Sign) {m n : Nat} {e : Int} (hlog : m.log2 = 52 + n)
    (he : minExponent ≤ e) :
    ∃ M E hM, roundWithAccuracy Format.binary64 s m e .exact = .finite s M E hM ∧
      hiddenBit ≤ M ∧ M < 2 * hiddenBit ∧ minExponent ≤ E ∧
      (M : Rat) * 2 ^ E ≤ (1 + 1 / 2 ^ 52) * (m * 2 ^ e) := by
  have hpos : (0 : Rat) < 2 ^ e := by positivity
  obtain ⟨M, E, hM, hround, hlow, hhigh, hmin, hnear⟩ :=
    roundWithAccuracy_near s .exact hlog (by omega) (le_refl ((m : Rat) * 2 ^ e)) (by linarith)
  refine ⟨M, E, hM, hround, hlow, hhigh, by omega, ?_⟩
  linarith [(abs_le.mp hnear).2]

/-- What has 53 bits or more keeps its exponent until it is rounded. -/
theorem round_large (s : Sign) {m : Nat} (hm : 52 ≤ m.log2) (e : Int) :
    UnpackedFloat.round Format.binary64 s m e =
      roundWithAccuracy Format.binary64 s m e .exact := by
  have hshift : (e - max ((m.log2 : Int) + e - 52) minExponent).toNat = 0 := by omega
  simp [UnpackedFloat.round, targetExponent_eq, decreaseExponent, hshift]

/-- Rounding a number adds no more than a part in `2 ^ 52`. -/
theorem round_le (s : Sign) {m : Nat} {e : Int} (hm : 0 < m) (he : minExponent ≤ e) :
    ∃ M E hM, UnpackedFloat.round Format.binary64 s m e = .finite s M E hM ∧ IsCanonical (.finite s M E hM) ∧
      (M : Rat) * 2 ^ E ≤ (1 + 1 / 2 ^ 52) * (m * 2 ^ e) := by
  by_cases hlarge : 52 < m.log2
  · obtain ⟨n, hn⟩ : ∃ n, m.log2 = 52 + n := ⟨m.log2 - 52, by omega⟩
    obtain ⟨M, E, hM, heq, hlead, hlt, hmin, hle⟩ := roundWithAccuracy_large s hn he
    exact ⟨M, E, hM, (round_large s hlarge.le e).trans heq, ⟨hlt, hmin, .inl hlead⟩, hle⟩
  · simp only [UnpackedFloat.round, targetExponent_eq, decreaseExponent, Nat.shiftLeft_eq]
    obtain ⟨k, hk⟩ : ∃ k, (e - max ((m.log2 : Int) + e - 52) minExponent).toNat = k := ⟨_, rfl⟩
    have hlt : m * 2 ^ k < 2 * hiddenBit :=
      calc m * 2 ^ k < 2 ^ (m.log2 + 1) * 2 ^ k :=
            Nat.mul_lt_mul_of_pos_right Nat.lt_log2_self (by positivity)
        _ = 2 ^ (m.log2 + 1 + k) := (pow_add _ _ _).symm
        _ ≤ 2 ^ 53 := Nat.pow_le_pow_right (by decide) (by omega)
    have hpos : 0 < m * 2 ^ k := by positivity
    have hvalue : ((m * 2 ^ k : Nat) : Rat) * 2 ^ (e - k) = m * 2 ^ e := by
      rw [zpow_sub₀ two_ne_zero, zpow_natCast]
      push_cast
      field_simp
    refine ⟨m * 2 ^ k, e - k, hpos, ?_, ⟨hlt, by omega, ?_⟩, ?_⟩
    · rw [hk, roundWithAccuracy_small s hpos hlt (by omega)]
    · rcases Nat.lt_or_ge (m.log2 + k) 52 with hfew | hmany
      · exact .inr (by omega)
      · refine .inl ?_
        calc hiddenBit = 2 ^ 52 := rfl
          _ ≤ 2 ^ (m.log2 + k) := Nat.pow_le_pow_right (by decide) hmany
          _ = 2 ^ m.log2 * 2 ^ k := pow_add _ _ _
          _ ≤ m * 2 ^ k := Nat.mul_le_mul_right _ (Nat.log2_self_le hm.ne')
    · rw [hvalue]
      have : (0 : Rat) ≤ m * 2 ^ e := by positivity
      linarith

/-! ### Packing -/

theorem unpack_pack_subnormal {m : Nat} (h : m < hiddenBit) (s : Sign) (hm : 0 < m) :
    (Float.Model.pack (.finite s m minExponent hm)).unpack = .finite s m minExponent hm := by
  have hlog : m.log2 < 52 := (Nat.log2_lt hm.ne').mpr h
  have hfraction : (BitVec.ofNat 52 m).toNat = m := by
    exact Nat.mod_eq_of_lt h
  have hzero : BitVec.ofNat 52 m ≠ 0#52 := fun heq => by
    have := congrArg BitVec.toNat heq
    rw [hfraction] at this
    simp at this
    omega
  change UnpackedFloat.unpack Format.binary64 (UnpackedFloat.pack Format.binary64 _) = _
  rw [UnpackedFloat.pack]
  rw [if_neg (by decide), if_neg (by simp [Format.mantissaBits]; omega), UnpackedFloat.unpack]
  simp only [unpackExponent_packComponents, unpackMantissa_packComponents,
    unpackSign_packComponents, ofBitVec_toBitVec]
  rw [if_neg (by decide), if_pos trivial, dif_neg hzero]
  simp only [hfraction]
  rfl

/-- Packing keeps the value of a canonical number, or leaves nothing finite. -/
theorem value?_pack {u : UnpackedFloat} (hu : IsCanonical u) {q : Rat}
    (h : value? (Float.Model.pack u).unpack = some q) : value? u = some q := by
  cases u with
  | zero s => cases s <;> exact h
  | infinity s => cases s <;> cases h
  | notANumber => cases h
  | finite s m e hm =>
    obtain ⟨hlt, hmin, hlead⟩ := hu
    by_cases hnormal : hiddenBit ≤ m
    · by_cases he : e ≤ 971
      · rwa [unpack_pack_normal hnormal hlt s hmin he hm] at h
      · -- Too large an exponent packs to an infinity.
        change value? (UnpackedFloat.unpack Format.binary64
          (UnpackedFloat.pack Format.binary64 _)) = _ at h
        rw [UnpackedFloat.pack, if_pos (by simp only [Format.exponentBias]; omega)] at h
        cases s <;> cases h
    · obtain rfl := hlead.resolve_left hnormal
      rwa [unpack_pack_subnormal (not_le.mp hnormal) s hm] at h

/-! ### Adding -/

theorem sign_of_nonneg {s : Sign} {m : Nat} {e : Int} {hm : 0 < m} {p : Rat}
    (h : value? (.finite s m e hm) = some p) (hp : 0 ≤ p) : s = .positive ∧ p = m * 2 ^ e := by
  obtain rfl := Option.some.inj h
  cases s with
  | positive => exact ⟨rfl, by simp [Sign.apply]⟩
  | negative =>
    have : (0 : Rat) < m * 2 ^ e := by positivity
    simp only [Sign.apply, Int.cast_neg, Int.cast_natCast, neg_mul] at hp
    linarith

/-- A smaller exponent is reached by a larger mantissa. -/
theorem decreaseExponent_value (m : Nat) {e e' : Int} (h : e' ≤ e) :
    ((decreaseExponent m e e').1 : Rat) * 2 ^ e' = m * 2 ^ e := by
  obtain ⟨k, rfl⟩ : ∃ k : Nat, e = e' + k := ⟨(e - e').toNat, by omega⟩
  simp only [decreaseExponent, add_sub_cancel_left, Int.toNat_natCast, Nat.shiftLeft_eq]
  rw [zpow_add₀ two_ne_zero, zpow_natCast]
  push_cast
  ring

/-- The sum of two positive numbers is rounded from their common exponent. -/
theorem add_positive {m m' : Nat} (e e' : Int) (hm : 0 < m) (hm' : 0 < m') :
    ∃ n : Nat, m ≤ n ∧ (n : Rat) * 2 ^ min e e' = m * 2 ^ e + m' * 2 ^ e' ∧
      UnpackedFloat.add Format.binary64 (.finite .positive m e hm) (.finite .positive m' e' hm') =
        UnpackedFloat.round Format.binary64 .positive n (min e e') := by
  obtain ⟨n, hn⟩ : ∃ n, (decreaseExponent m e (min e e')).1 = n := ⟨_, rfl⟩
  obtain ⟨n', hn'⟩ : ∃ n', (decreaseExponent m' e' (min e e')).1 = n' := ⟨_, rfl⟩
  have hle : m ≤ n := by
    rw [← hn, decreaseExponent, Nat.shiftLeft_eq]
    exact Nat.le_mul_of_pos_right _ (by positivity)
  refine ⟨n + n', by omega, ?_, ?_⟩
  · rw [← decreaseExponent_value m (min_le_left e e'), ← decreaseExponent_value m' (min_le_right e e'),
      hn, hn']
    push_cast
    ring
  · have hcompare : compare ((n : Int) + n') 0 = .gt := Int.compare_eq_gt.mpr (by omega)
    simp only [UnpackedFloat.add, hn, hn', Sign.apply, UnpackedFloat.normalize, hcompare]
    rfl

/-- Canonical numbers that are not negative have a canonical sum, not much above the sum of their
values. -/
theorem value?_add_le {u v : UnpackedFloat} (hu : IsCanonical u) (hv : IsCanonical v) {p q : Rat}
    (hp : value? u = some p) (hq : value? v = some q) (hp₀ : 0 ≤ p) (hq₀ : 0 ≤ q) :
    IsCanonical (UnpackedFloat.add Format.binary64 u v) ∧
      ∃ r, value? (UnpackedFloat.add Format.binary64 u v) = some r ∧ 0 ≤ r ∧
        r ≤ (1 + 1 / 2 ^ 52) * (p + q) := by
  cases u with
  | infinity s => cases hp
  | notANumber => cases hp
  | zero s =>
    obtain rfl := Option.some.inj hp
    cases v with
    | infinity s' => cases hq
    | notANumber => cases hq
    | zero s' =>
      obtain rfl := Option.some.inj hq
      have hsum : ∃ s'', UnpackedFloat.add Format.binary64 (.zero s) (.zero s') = .zero s'' := by
        cases s <;> cases s' <;> exact ⟨_, rfl⟩
      obtain ⟨s'', hsum⟩ := hsum
      rw [hsum]
      exact ⟨trivial, 0, rfl, le_refl 0, by norm_num⟩
    | finite s' m e hm => exact ⟨hv, q, hq, hq₀, by linarith⟩
  | finite s m e hm =>
    cases v with
    | infinity s' => cases hq
    | notANumber => cases hq
    | zero s' =>
      obtain rfl := Option.some.inj hq
      exact ⟨hu, p, hp, hp₀, by linarith⟩
    | finite s' m' e' hm' =>
      obtain ⟨rfl, rfl⟩ := sign_of_nonneg hp hp₀
      obtain ⟨rfl, rfl⟩ := sign_of_nonneg hq hq₀
      obtain ⟨-, hmin, -⟩ := hu
      obtain ⟨-, hmin', -⟩ := hv
      obtain ⟨n, hle, hvalue, hsum⟩ := add_positive e e' hm hm'
      obtain ⟨M, E, hM, hround, hcanonical, hbound⟩ :=
        round_le .positive (hm.trans_le hle) (le_min hmin hmin')
      rw [hsum, hround]
      exact ⟨hcanonical, M * 2 ^ E, by simp [value?, Sign.apply], by positivity, hvalue ▸ hbound⟩

section Doubles

variable {x y : Float} {q r : Rat}

theorem unpack_add (x y : Float) : (x + y).toModel.unpack = (Float.Model.pack
    (UnpackedFloat.add Format.binary64 x.toModel.unpack y.toModel.unpack)).unpack := rfl

/-- A sum of doubles that are not negative adds no more than a part in `2 ^ 52`. -/
theorem toRat?_add_le {p : Rat} (hx : toRat? x = some p) (hy : toRat? y = some q) (hp : 0 ≤ p)
    (hq : 0 ≤ q) (hr : toRat? (x + y) = some r) : 0 ≤ r ∧ r ≤ (1 + 1 / 2 ^ 52) * (p + q) := by
  rw [toRat?_eq_value?] at hx hy hr
  obtain ⟨hcanonical, r', hr', hbounds⟩ :=
    value?_add_le (isCanonical_unpack x) (isCanonical_unpack y) hx hy hp hq
  rw [unpack_add] at hr
  obtain rfl := Option.some.inj ((value?_pack hcanonical hr).symm.trans hr')
  exact hbounds

/-- A finite sum starts out finite. -/
theorem toRat?_of_add (hy : toRat? y = some q) (hr : toRat? (x + y) = some r) :
    ∃ p, toRat? x = some p := by
  rw [toRat?_eq_value?] at hy hr ⊢
  rw [unpack_add] at hr
  cases hu : x.toModel.unpack with
  | zero s => exact ⟨_, rfl⟩
  | finite s m e hm => exact ⟨_, rfl⟩
  | notANumber =>
    have hsum : UnpackedFloat.add Format.binary64 .notANumber y.toModel.unpack = .notANumber := by
      cases y.toModel.unpack <;> rfl
    rw [hu, hsum] at hr
    cases value?_pack (u := .notANumber) trivial hr
  | infinity s =>
    have hsum : UnpackedFloat.add Format.binary64 (.infinity s) y.toModel.unpack = .infinity s := by
      cases hv : y.toModel.unpack with
      | notANumber => simp [hv, value?] at hy
      | infinity s' => simp [hv, value?] at hy
      | zero s' => rfl
      | finite s' m e hm => rfl
    rw [hu, hsum] at hr
    cases value?_pack (u := .infinity s) trivial hr

/-- A finite sum of a list of doubles that are not negative adds at each step no more than a part in
`2 ^ 52`. -/
theorem toRat?_foldl_add_le {α : Type} (f : α → Float) (g : α → Rat) (l : List α)
    (h : ∀ a ∈ l, toRat? (f a) = some (g a) ∧ 0 ≤ g a)
    (hr : toRat? (l.foldl (fun sum a => sum + f a) x) = some r) :
    ∃ p, toRat? x = some p ∧ (0 ≤ p → r ≤ (1 + 1 / 2 ^ 52) ^ l.length * (p + (l.map g).sum)) := by
  induction l generalizing x with
  | nil => exact ⟨r, hr, fun _ => by simp⟩
  | cons a l ih =>
    obtain ⟨⟨ha, ha₀⟩, hl⟩ := List.forall_mem_cons.mp h
    obtain ⟨p', hp', hle⟩ := ih hl hr
    obtain ⟨p, hp⟩ := toRat?_of_add ha hp'
    refine ⟨p, hp, fun hp₀ => ?_⟩
    obtain ⟨hp'₀, hp'le⟩ := toRat?_add_le hp ha hp₀ ha₀ hp'
    have hsum : 0 ≤ (l.map g).sum := List.sum_nonneg fun q hq => by
      obtain ⟨b, hb, rfl⟩ := List.mem_map.mp hq
      exact (hl b hb).2
    calc r ≤ (1 + 1 / 2 ^ 52) ^ l.length * (p' + (l.map g).sum) := hle hp'₀
      _ ≤ (1 + 1 / 2 ^ 52) ^ l.length * ((1 + 1 / 2 ^ 52) * (p + (g a + (l.map g).sum))) := by
          gcongr
          linarith
      _ = (1 + 1 / 2 ^ 52) ^ (a :: l).length * (p + ((a :: l).map g).sum) := by
          rw [List.length_cons, List.map_cons, List.sum_cons, pow_succ]
          ring

end Doubles

end Multipath.Binary
