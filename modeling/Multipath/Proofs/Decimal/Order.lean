import Mathlib
import Multipath.Decimal.Binary

/-!
# Doubles are ordered as their values

The order of doubles compares signs, exponents and mantissas, and is meant to compare the numbers
they stand for.

* `value?`, `toRat?_eq_value?`: the value of a double, from its sign, mantissa and exponent.
* `IsCanonical`, `isCanonical_unpack`: the leading bit of a mantissa is in its place, unless the
  exponent is the least one.
* `compare_eq`: canonical numbers are compared as their values are.
* `lt_iff`, `le_iff`, `beq_iff`: so finite doubles are as well.
-/

namespace Multipath.Binary

open Float.Model Float.Model.UnpackedFloat

/-! ### Values -/

theorem scaled_eq (m : Nat) (q : Int) : scaled m q = (m : Rat) * (2 : Rat) ^ q := by
  cases q with
  | ofNat n => simp [scaled, Nat.shiftLeft_eq]
  | negSucc n =>
    rw [scaled, Rat.mkRat_eq_div, Nat.shiftLeft_eq, one_mul, zpow_negSucc, div_eq_mul_inv]
    push_cast
    rfl

/-- The number that sign, mantissa and exponent stand for. -/
def value? : UnpackedFloat → Option Rat
  | .zero _ => some 0
  | .finite s m e _ => some ((s.apply m : Int) * (2 : Rat) ^ e)
  | .infinity _ => none
  | .notANumber => none

section Fields

variable (b : BitVec Format.binary64.numBits)

theorem toNat_unpackMantissa : (unpackMantissa b).toNat = b.toNat % hiddenBit := by
  simp [unpackMantissa, hiddenBit]

theorem toNat_unpackExponent : (unpackExponent b).toNat = b.toNat / hiddenBit % 2048 := by
  simp [unpackExponent, hiddenBit, Nat.shiftRight_eq_div_pow]

theorem ofBitVec_unpackSign :
    Sign.ofBitVec (unpackSign b) = if signBit ≤ b.toNat then .negative else .positive := by
  have hlt : b.toNat < 2 ^ 64 := b.isLt
  have hbit : (unpackSign b).toNat = b.toNat / signBit := by
    simp [unpackSign, signBit, Nat.shiftRight_eq_div_pow]
    omega
  have hzero : unpackSign b = 0#1 ↔ ¬ signBit ≤ b.toNat := by
    rw [← BitVec.toNat_inj, hbit, BitVec.toNat_zero, Nat.div_eq_zero_iff, not_le]
    simp [signBit]
  by_cases hneg : signBit ≤ b.toNat <;> simp [Sign.ofBitVec, hzero, hneg]

theorem unpackExponent_eq_ones :
    unpackExponent b = -1#_ ↔ b.toNat / hiddenBit % 2048 = 2047 := by
  rw [← toNat_unpackExponent, ← BitVec.toNat_inj]
  rfl

theorem unpackExponent_eq_zero :
    unpackExponent b = 0#_ ↔ b.toNat / hiddenBit % 2048 = 0 := by
  rw [← toNat_unpackExponent, ← BitVec.toNat_inj]
  rfl

theorem unpackMantissa_eq_zero : unpackMantissa b = 0#_ ↔ b.toNat % hiddenBit = 0 := by
  rw [← toNat_unpackMantissa, ← BitVec.toNat_inj]
  rfl

theorem toNat_implicit (v : BitVec 52) : (1#1 ++ v).toNat = v.toNat + hiddenBit := by
  rw [BitVec.toNat_append, ← Nat.shiftLeft_add_eq_or_of_lt v.isLt, Nat.add_comm]
  rfl

theorem unpack_special (h : b.toNat / hiddenBit % 2048 = 2047) :
    value? (UnpackedFloat.unpack Format.binary64 b) = none := by
  rw [UnpackedFloat.unpack, if_pos ((unpackExponent_eq_ones b).mpr h)]
  split <;> rfl

theorem unpack_zero (h : b.toNat / hiddenBit % 2048 = 0) (hfraction : b.toNat % hiddenBit = 0) :
    UnpackedFloat.unpack Format.binary64 b =
      .zero (if signBit ≤ b.toNat then .negative else .positive) := by
  rw [UnpackedFloat.unpack, if_neg (mt (unpackExponent_eq_ones b).mp (by omega)),
    if_pos ((unpackExponent_eq_zero b).mpr h), dif_pos ((unpackMantissa_eq_zero b).mpr hfraction),
    ofBitVec_unpackSign]

theorem unpack_subnormal (h : b.toNat / hiddenBit % 2048 = 0)
    (hfraction : b.toNat % hiddenBit ≠ 0) : UnpackedFloat.unpack Format.binary64 b =
      .finite (if signBit ≤ b.toNat then .negative else .positive) (b.toNat % hiddenBit)
        minExponent (Nat.pos_of_ne_zero hfraction) := by
  rw [UnpackedFloat.unpack, if_neg (mt (unpackExponent_eq_ones b).mp (by omega)),
    if_pos ((unpackExponent_eq_zero b).mpr h),
    dif_neg (mt (unpackMantissa_eq_zero b).mp hfraction)]
  simp only [ofBitVec_unpackSign, toNat_unpackMantissa, toNat_unpackExponent, h]
  rfl

theorem unpack_normal (h₁ : b.toNat / hiddenBit % 2048 ≠ 2047)
    (h₀ : b.toNat / hiddenBit % 2048 ≠ 0) : UnpackedFloat.unpack Format.binary64 b =
      .finite (if signBit ≤ b.toNat then .negative else .positive) (b.toNat % hiddenBit + hiddenBit)
        (minExponent + (b.toNat / hiddenBit % 2048 - 1 : Nat))
        (Nat.add_pos_right _ (by decide)) := by
  have hexponent : ((b.toNat / hiddenBit % 2048 : Nat) : Int) - ((1023 : Nat) + (52 : Nat))
      = minExponent + ((b.toNat / hiddenBit % 2048 - 1 : Nat) : Int) := by
    unfold minExponent
    omega
  rw [UnpackedFloat.unpack, if_neg (mt (unpackExponent_eq_ones b).mp h₁),
    if_neg (mt (unpackExponent_eq_zero b).mp h₀)]
  simp only [ofBitVec_unpackSign, toNat_implicit, toNat_unpackMantissa, toNat_unpackExponent,
    ← hexponent]
  rfl

end Fields

theorem value?_finite (negative : Prop) [Decidable negative] (m : Nat) (e : Int) (hm : 0 < m) :
    value? (.finite (if negative then .negative else .positive) m e hm) =
      some (if negative then -scaled m e else scaled m e) := by
  split <;> simp [value?, Sign.apply, scaled_eq]

/-- The value of a double is that of its parts, however they are taken. -/
theorem toRat?_eq_value? (x : Float) : toRat? x = value? x.toModel.unpack := by
  change toRat? x = value? (UnpackedFloat.unpack Format.binary64 x.toBits.toBitVec)
  have hb : x.toBits.toNat = x.toBits.toBitVec.toNat := rfl
  by_cases h₁ : x.toBits.toNat / hiddenBit % 2048 = 2047
  · rw [unpack_special _ h₁]
    by_cases h₂ : x.toBits.toNat % hiddenBit = 0 <;> simp [toRat?, decode, h₁, h₂]
  · by_cases h₀ : x.toBits.toNat / hiddenBit % 2048 = 0
    · by_cases h₂ : x.toBits.toNat % hiddenBit = 0
      · rw [unpack_zero _ h₀ h₂]
        simp [toRat?, decode, h₀, h₂, value?, scaled_eq]
      · rw [unpack_subnormal _ h₀ h₂, value?_finite]
        simp [toRat?, decode, h₀]
    · rw [unpack_normal _ h₁ h₀, value?_finite]
      simp [toRat?, decode, h₁, h₀]

/-! ### Order -/

/-- The leading bit of the mantissa is in its place, unless the exponent is the least one. -/
def IsCanonical : UnpackedFloat → Prop
  | .finite _ m e _ => m < 2 * hiddenBit ∧ minExponent ≤ e ∧ (hiddenBit ≤ m ∨ e = minExponent)
  | _ => True

theorem isCanonical_unpack (x : Float) : IsCanonical x.toModel.unpack := by
  change IsCanonical (UnpackedFloat.unpack Format.binary64 x.toBits.toBitVec)
  have hlt : x.toBits.toBitVec.toNat % hiddenBit < hiddenBit := Nat.mod_lt _ (by decide)
  by_cases h₁ : x.toBits.toBitVec.toNat / hiddenBit % 2048 = 2047
  · have hnone := unpack_special _ h₁
    cases hu : UnpackedFloat.unpack Format.binary64 x.toBits.toBitVec with
    | finite => simp [hu, value?] at hnone
    | _ => trivial
  · by_cases h₀ : x.toBits.toBitVec.toNat / hiddenBit % 2048 = 0
    · by_cases h₂ : x.toBits.toBitVec.toNat % hiddenBit = 0
      · rw [unpack_zero _ h₀ h₂]
        trivial
      · rw [unpack_subnormal _ h₀ h₂]
        exact ⟨by omega, le_refl _, .inr rfl⟩
    · rw [unpack_normal _ h₁ h₀]
      exact ⟨by omega, by omega, .inl (by omega)⟩

/-- Of two canonical magnitudes the one with the greater exponent is the greater one. -/
theorem scaled_lt_of_lt {m₁ m₂ : Nat} {e₁ e₂ : Int} (h₁ : m₁ < 2 * hiddenBit)
    (h₂ : hiddenBit ≤ m₂) (he : e₁ < e₂) : (m₁ : Rat) * 2 ^ e₁ < m₂ * 2 ^ e₂ := by
  have hm₁ : (m₁ : Rat) < 2 * hiddenBit := by exact_mod_cast h₁
  have hm₂ : (hiddenBit : Rat) ≤ m₂ := by exact_mod_cast h₂
  calc (m₁ : Rat) * 2 ^ e₁ < 2 * hiddenBit * 2 ^ e₁ := by gcongr
    _ = hiddenBit * 2 ^ (e₁ + 1) := by
        rw [zpow_add_one₀ two_ne_zero]
        ring
    _ ≤ hiddenBit * 2 ^ e₂ := by
        gcongr
        · norm_num
        · omega
    _ ≤ m₂ * 2 ^ e₂ := by gcongr

/-- Canonical magnitudes are compared by their exponents, and then by their mantissas. -/
theorem compare_magnitudes {s₁ s₂ : Sign} {m₁ m₂ : Nat} {e₁ e₂ : Int} {h₁ : 0 < m₁} {h₂ : 0 < m₂}
    (hc₁ : IsCanonical (.finite s₁ m₁ e₁ h₁)) (hc₂ : IsCanonical (.finite s₂ m₂ e₂ h₂)) :
    (compare e₁ e₂).then (compare m₁ m₂) = cmp ((m₁ : Rat) * 2 ^ e₁) (m₂ * 2 ^ e₂) := by
  obtain ⟨hlt₁, hmin₁, hlead₁⟩ := hc₁
  obtain ⟨hlt₂, hmin₂, hlead₂⟩ := hc₂
  rcases lt_trichotomy e₁ e₂ with he | rfl | he
  · rw [(cmp_eq_lt_iff _ _).mpr (scaled_lt_of_lt hlt₁ (hlead₂.resolve_right (by omega)) he),
      compare_lt_iff_lt.mpr he]
    rfl
  · have hpow : (0 : Rat) < 2 ^ e₁ := by positivity
    rw [cmp_mul_pos_right hpow, compare_eq_iff_eq.mpr rfl, ← cmp_eq_compare]
    exact (Nat.strictMono_cast.cmp_map_eq m₁ m₂).symm
  · rw [(cmp_eq_gt_iff _ _).mpr (scaled_lt_of_lt hlt₂ (hlead₁.resolve_right (by omega)) he),
      compare_gt_iff_gt.mpr he]
    rfl

theorem cmp_neg (a b : Rat) : cmp (-a) (-b) = (cmp a b).swap := by
  rw [cmp_swap]
  exact StrictAnti.cmp_map_eq (f := Neg.neg) (fun _ _ => neg_lt_neg) a b

/-- Canonical numbers are compared as their values are. -/
theorem compare_eq {u v : UnpackedFloat} (hu : IsCanonical u) (hv : IsCanonical v) {p q : Rat}
    (hp : value? u = some p) (hq : value? v = some q) : u.compare v = some (cmp p q) := by
  have hpos : ∀ (m : Nat) (e : Int), 0 < m → (0 : Rat) < m * 2 ^ e := fun m e hm => by positivity
  cases u with
  | zero s =>
    obtain rfl := Option.some.inj hp
    cases v with
    | zero s' =>
      obtain rfl := Option.some.inj hq
      rw [cmp_self_eq_eq]
      rfl
    | finite s' m e hm =>
      obtain rfl := Option.some.inj hq
      have hv' := hpos m e hm
      cases s' with
      | positive =>
        rw [(cmp_eq_lt_iff _ _).mpr (by simpa [Sign.apply] using hv')]
        rfl
      | negative =>
        rw [(cmp_eq_gt_iff _ _).mpr (by simpa [Sign.apply] using hv')]
        rfl
    | infinity s' => cases hq
    | notANumber => cases hq
  | finite s m e hm =>
    obtain rfl := Option.some.inj hp
    have hu' := hpos m e hm
    cases v with
    | zero s' =>
      obtain rfl := Option.some.inj hq
      cases s with
      | positive =>
        rw [(cmp_eq_gt_iff _ _).mpr (by simpa [Sign.apply] using hu')]
        rfl
      | negative =>
        rw [(cmp_eq_lt_iff _ _).mpr (by simpa [Sign.apply] using hu')]
        rfl
    | finite s' m' e' hm' =>
      obtain rfl := Option.some.inj hq
      have hv' := hpos m' e' hm'
      have hmagnitudes := compare_magnitudes hu hv
      cases s with
      | positive =>
        cases s' with
        | positive =>
          simp only [Sign.apply, Int.cast_natCast, ← hmagnitudes]
          rfl
        | negative =>
          rw [(cmp_eq_gt_iff _ _).mpr (by simp [Sign.apply]; linarith)]
          rfl
      | negative =>
        cases s' with
        | positive =>
          rw [(cmp_eq_lt_iff _ _).mpr (by simp [Sign.apply]; linarith)]
          rfl
        | negative =>
          simp only [Sign.apply, Int.cast_neg, Int.cast_natCast, neg_mul, cmp_neg, ← hmagnitudes]
          rfl
    | infinity s' => cases hq
    | notANumber => cases hq
  | infinity s => cases hp
  | notANumber => cases hp

section Finite

variable {x y : Float} {p q : Rat} (hx : toRat? x = some p) (hy : toRat? y = some q)
include hx hy

theorem compare_toModel : x.toModel.unpack.compare y.toModel.unpack = some (cmp p q) :=
  compare_eq (isCanonical_unpack x) (isCanonical_unpack y) ((toRat?_eq_value? x).symm.trans hx)
    ((toRat?_eq_value? y).symm.trans hy)

/-- A finite double is less than another one if its value is. -/
theorem lt_iff : x < y ↔ p < q := by
  change decide (x.toModel < y.toModel) = true ↔ p < q
  rw [decide_eq_true_iff]
  change (x.toModel.unpack.compare y.toModel.unpack == some .lt) = true ↔ p < q
  rw [compare_toModel hx hy, beq_iff_eq, Option.some.injEq, cmp_eq_lt_iff]

theorem le_iff : x ≤ y ↔ p ≤ q := by
  change decide (x.toModel ≤ y.toModel) = true ↔ p ≤ q
  rw [decide_eq_true_iff]
  change (x.toModel.unpack.compare y.toModel.unpack).any (·.isLE) = true ↔ p ≤ q
  rw [compare_toModel hx hy, Option.any_some, ← Ordering.ne_gt_iff_isLE, cmp_eq_gt_iff, not_lt]

theorem beq_iff : (x == y) = true ↔ p = q := by
  change (x.toModel.unpack.compare y.toModel.unpack == some .eq) = true ↔ p = q
  rw [compare_toModel hx hy, beq_iff_eq, Option.some.injEq, cmp_eq_eq_iff]

end Finite

/-- Nothing but a double of the same value equals a finite double. -/
theorem toRat?_of_beq {x y : Float} {q : Rat} (hy : toRat? y = some q) (h : (x == y) = true) :
    toRat? x = some q := by
  cases hx : toRat? x with
  | some p => rw [(beq_iff hx hy).mp h]
  | none =>
    change (x.toModel.unpack.compare y.toModel.unpack == some .eq) = true at h
    rw [toRat?_eq_value?] at hx hy
    cases hu : x.toModel.unpack with
    | zero s => simp [hu, value?] at hx
    | finite s m e hm => simp [hu, value?] at hx
    | notANumber =>
      rw [hu] at h
      cases h
    | infinity s =>
      rw [hu] at h
      cases hv : y.toModel.unpack with
      | notANumber => simp [hv, value?] at hy
      | infinity s' => simp [hv, value?] at hy
      | zero s' => cases s <;> rw [hv] at h <;> cases h
      | finite s' m e hm => cases s <;> rw [hv] at h <;> cases h

theorem isFinite_iff {x : Float} : x.isFinite = true ↔ ∃ p, toRat? x = some p := by
  change x.toModel.unpack.isFinite = true ↔ _
  rw [toRat?_eq_value?]
  cases x.toModel.unpack <;> simp [UnpackedFloat.isFinite, value?]

end Multipath.Binary
