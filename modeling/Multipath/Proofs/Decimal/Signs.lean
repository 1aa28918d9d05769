import Multipath.Proofs.Decimal.Adding

/-!
# Signs of doubles

A whole number other than zero keeps its sign when it becomes a double, whatever rounding does to
it, and a double that is multiplied with zero comes to nothing that is less or greater than zero.

* `HasSign`: the number is not zero and has this sign.
* `toRat?_toFloat`: a word that is not too long is the value of its double.
* `hasSign_ofNat`: the double for a positive number is positive.
* `eq_zero_of_between`: a whole number whose double lies between two zeros is zero.
-/

namespace Multipath.Binary

open Float.Model Float.Model.UnpackedFloat

/-- The number is greater or less than zero, as the sign says. -/
def HasSign (s : Sign) : UnpackedFloat → Prop
  | .infinity s' => s' = s
  | .finite s' _ _ _ => s' = s
  | _ => False

/-! ### Packing -/

theorem hasSign_pack {u : UnpackedFloat} (hu : IsCanonical u) {s : Sign} (h : HasSign s u) :
    HasSign s (Float.Model.pack u).unpack := by
  have hinfinite : ∀ s' : Sign,
      HasSign s' (UnpackedFloat.unpack Format.binary64 (packedInfinity Format.binary64 s')) := by
    intro s'
    cases s' <;> rfl
  cases u with
  | zero s' => cases h
  | notANumber => cases h
  | infinity s' =>
    obtain rfl := h
    exact hinfinite s'
  | finite s' m e hm =>
    obtain rfl := h
    obtain ⟨hlt, hmin, hlead⟩ := hu
    by_cases hnormal : hiddenBit ≤ m
    · by_cases he : e ≤ 971
      · rw [unpack_pack_normal hnormal hlt s' hmin he hm]
        rfl
      · -- Too large an exponent packs to an infinity.
        change HasSign s' (UnpackedFloat.unpack Format.binary64
          (UnpackedFloat.pack Format.binary64 _))
        rw [UnpackedFloat.pack, if_pos (by simp only [Format.exponentBias]; omega)]
        exact hinfinite s'
    · obtain rfl := hlead.resolve_left hnormal
      rw [unpack_pack_subnormal (not_le.mp hnormal) s' hm]
      rfl

theorem hasSign_neg {x : Float} (h : HasSign .positive x.toModel.unpack) :
    HasSign .negative (-x).toModel.unpack := by
  change HasSign .negative (Float.Model.pack x.toModel.unpack.neg).unpack
  have hcanonical := isCanonical_unpack x
  cases hu : x.toModel.unpack with
  | zero s => simp [hu, HasSign] at h
  | notANumber => simp [hu, HasSign] at h
  | infinity s =>
    rw [hu] at h
    obtain rfl : s = .positive := h
    exact hasSign_pack (u := .infinity .negative) trivial rfl
  | finite s m e hm =>
    rw [hu] at h hcanonical
    obtain rfl : s = .positive := h
    exact hasSign_pack (u := .finite .negative m e hm) hcanonical rfl

/-! ### Whole numbers -/

/-- A whole number of at most 53 bits is a normal number, and is not rounded. -/
theorem round_whole {n : Nat} (hpos : 0 < n) (hn : n < 2 * hiddenBit) :
    ∃ m e hm, UnpackedFloat.round Format.binary64 .positive n 0 = .finite .positive m e hm ∧
      hiddenBit ≤ m ∧ m < 2 * hiddenBit ∧ -52 ≤ e ∧ e ≤ 0 ∧ (m : Rat) * 2 ^ e = n := by
  have hlog := log2_small hn
  obtain ⟨k, hk⟩ : ∃ k, k = 52 - n.log2 := ⟨_, rfl⟩
  have hshift : (0 - max ((n.log2 : Int) + 0 - 52) minExponent).toNat = k := by
    unfold minExponent
    omega
  have hlow : hiddenBit ≤ n * 2 ^ k :=
    calc hiddenBit = 2 ^ n.log2 * 2 ^ k := by
          rw [← pow_add, hk, Nat.add_sub_cancel' hlog]
          rfl
      _ ≤ n * 2 ^ k := Nat.mul_le_mul_right _ (Nat.log2_self_le hpos.ne')
  have hhigh : n * 2 ^ k < 2 * hiddenBit :=
    calc n * 2 ^ k < 2 ^ (n.log2 + 1) * 2 ^ k :=
          Nat.mul_lt_mul_of_pos_right Nat.lt_log2_self (by positivity)
      _ = 2 * hiddenBit := by
          rw [← pow_add, hk, show n.log2 + 1 + (52 - n.log2) = 53 by omega]
          rfl
  refine ⟨n * 2 ^ k, 0 - k, by positivity, ?_, hlow, hhigh, by omega, by omega, ?_⟩
  · simp only [UnpackedFloat.round, targetExponent_eq, decreaseExponent, Nat.shiftLeft_eq, hshift]
    exact roundWithAccuracy_small _ _ hhigh (by unfold minExponent; omega)
  · push_cast
    rw [zero_sub, zpow_neg, zpow_natCast, mul_assoc, mul_inv_cancel₀ (by positivity), mul_one]

theorem unpack_toFloat {n : Nat} (hpos : 0 < n) (hn : n < 2 * hiddenBit) :
    ∃ m e hm, n.toUInt64.toFloat.toModel.unpack = .finite .positive m e hm ∧
      hiddenBit ≤ m ∧ m < 2 * hiddenBit ∧ -52 ≤ e ∧ e ≤ 0 ∧ (m : Rat) * 2 ^ e = n := by
  obtain ⟨m, e, hm, hround, hlow, hhigh, hmin, he, hvalue⟩ := round_whole hpos hn
  have hword : n.toUInt64.toNat = n := by
    rw [Nat.toUInt64_eq, UInt64.toNat_ofNat']
    exact Nat.mod_eq_of_lt (by unfold hiddenBit at *; omega)
  have hcompare : compare (n : Int) 0 = .gt := Int.compare_eq_gt.mpr (by omega)
  refine ⟨m, e, hm, ?_, hlow, hhigh, hmin, he, hvalue⟩
  change (Float.Model.pack (UnpackedFloat.normalize Format.binary64 (n.toUInt64.toNat : Int) 0
    .positive)).unpack = _
  rw [hword, UnpackedFloat.normalize, hcompare]
  change (Float.Model.pack (UnpackedFloat.round Format.binary64 .positive n 0)).unpack = _
  rw [hround]
  exact unpack_pack_normal hlow hhigh _ (by unfold minExponent; omega) (by omega) hm

/-- The double for a word of at most 53 bits has its value. -/
theorem toRat?_toFloat {n : UInt64} (hn : n.toNat < 2 * hiddenBit) :
    toRat? n.toFloat = some (n.toNat : Rat) := by
  rw [toRat?_eq_value?]
  rcases Nat.eq_zero_or_pos n.toNat with hzero | hpos
  · obtain rfl : n = 0 := UInt64.toNat_inj.mp hzero
    rfl
  · obtain ⟨m, e, hm, hwhole, -, -, -, -, hvalue⟩ := unpack_toFloat hpos hn
    rw [Nat.toUInt64_eq, UInt64.ofNat_toNat] at hwhole
    rw [hwhole, value?, ← hvalue]
    rfl

/-- The double for a whole number of at most 53 bits is made by multiplying with one. -/
theorem ofNat_small {n : Nat} (hn : n < 2 ^ 53) :
    Float.ofNat n = n.toUInt64.toFloat * Float.ofBits 0x3FF0000000000000 := by
  change Float.ofScientific n false 0 = _
  rw [Float.ofScientific, dif_pos ⟨hn, by decide⟩]
  rfl

theorem unpack_mul (x y : Float) : (x * y).toModel.unpack = (Float.Model.pack
    (UnpackedFloat.mul Format.binary64 x.toModel.unpack y.toModel.unpack)).unpack := rfl

/-- So it is exact. -/
theorem unpack_ofNat {n : Nat} (hpos : 0 < n) (hn : n < 2 ^ 53) :
    ∃ m e hm, (Float.ofNat n).toModel.unpack = .finite .positive m e hm ∧
      hiddenBit ≤ m ∧ m < 2 * hiddenBit ∧ -52 ≤ e ∧ (m : Rat) * 2 ^ e = n := by
  obtain ⟨m, e, hm, hwhole, hlow, hhigh, hmin, he, hvalue⟩ := unpack_toFloat hpos hn
  have hone : (Float.ofBits 0x3FF0000000000000).toModel.unpack =
      .finite .positive hiddenBit (-52) (by decide) := rfl
  have hproduct : UnpackedFloat.mul Format.binary64 (.finite .positive m e hm)
      (.finite .positive hiddenBit (-52) (by decide)) =
        .finite .positive m (e + -52 + (52 : Nat)) hm :=
    roundWithAccuracy_shifted hlow hhigh .positive 52 (by unfold minExponent; omega)
  refine ⟨m, e, hm, ?_, hlow, hhigh, hmin, hvalue⟩
  rw [ofNat_small hn, unpack_mul, hwhole, hone, hproduct,
    unpack_pack_normal hlow hhigh _ (by unfold minExponent; omega) (by omega) hm]
  congr 1
  omega

/-- A longer one is made from its decimal notation. -/
theorem unpack_ofNat_large {n : Nat} (hn : 2 ^ 53 ≤ n) :
    (Float.ofNat n).toModel.unpack =
      (Float.Model.pack (UnpackedFloat.ofScientific Format.binary64 n 0)).unpack := by
  change (Float.ofScientific n false 0).toModel.unpack = _
  rw [Float.ofScientific, dif_neg fun hsmall => absurd hsmall.1 (not_lt.mpr hn)]
  rfl

theorem log2_shiftLeft {n : Nat} (hn : n ≠ 0) (k : Nat) : (n <<< k).log2 = n.log2 + k := by
  rw [Nat.shiftLeft_eq, Nat.log2_eq_iff (by positivity), pow_add]
  refine ⟨Nat.mul_le_mul_right _ (Nat.log2_self_le hn), ?_⟩
  calc n * 2 ^ k < 2 ^ (n.log2 + 1) * 2 ^ k :=
        Nat.mul_lt_mul_of_pos_right Nat.lt_log2_self (by positivity)
    _ = 2 ^ (n.log2 + k + 1) := by rw [← pow_add, Nat.add_right_comm]

/-- A whole number in decimal notation is rounded once. -/
theorem ofScientific_whole {n : Nat} (hn : n ≠ 0) :
    UnpackedFloat.ofScientific Format.binary64 n 0 =
      roundWithAccuracy Format.binary64 .positive (n * 2 ^ 53) (-53) .exact := by
  have hbound : ¬ (0 : Int) < -((2 ^ 11 : Int) + n.log2) := by omega
  rw [UnpackedFloat.ofScientific, dif_neg hn, if_neg (by decide), if_neg hbound,
    if_pos (le_refl _)]
  change roundWithAccuracy Format.binary64 .positive (n <<< 53 * 1) (-53) .exact = _
  rw [mul_one, Nat.shiftLeft_eq]

theorem ofScientific_large {n : Nat} (hn : 2 ^ 53 ≤ n) :
    ∃ m e hm, UnpackedFloat.ofScientific Format.binary64 n 0 = .finite .positive m e hm ∧
      IsCanonical (.finite .positive m e hm) := by
  have hlog : (n * 2 ^ 53).log2 = 52 + (n.log2 + 1) := by
    rw [← Nat.shiftLeft_eq, log2_shiftLeft (by omega)]
    omega
  obtain ⟨m, e, hm, hround, hlow, hhigh, hmin, -⟩ :=
    roundWithAccuracy_large .positive hlog (e := -53) (by decide)
  exact ⟨m, e, hm, (ofScientific_whole (by omega)).trans hround, hhigh, hmin, .inl hlow⟩

/-- The double for a positive number is positive. -/
theorem hasSign_ofNat {n : Nat} (hn : 0 < n) :
    HasSign .positive (Float.ofNat n).toModel.unpack := by
  rcases lt_or_ge n (2 ^ 53) with hsmall | hlarge
  · obtain ⟨m, e, hm, hwhole, -⟩ := unpack_ofNat hn hsmall
    rw [hwhole]
    rfl
  · obtain ⟨m, e, hm, hscientific, hcanonical⟩ := ofScientific_large hlarge
    rw [unpack_ofNat_large hlarge, hscientific]
    exact hasSign_pack hcanonical rfl

/-! ### Between two zeros -/

/-- The number is neither less nor greater than zero. -/
def IsNought : UnpackedFloat → Prop
  | .zero _ => True
  | .notANumber => True
  | _ => False

theorem isNought_mul (x : Float) {y : Float} {s : Sign} (hy : y.toModel.unpack = .zero s) :
    IsNought (x * y).toModel.unpack := by
  rw [unpack_mul]
  have hpack : ∀ {u}, IsNought u → IsNought (Float.Model.pack u).unpack := by
    intro u hu
    cases u with
    | zero s => cases s <;> trivial
    | notANumber => trivial
    | infinity s => cases hu
    | finite s m e hm => cases hu
  refine hpack ?_
  rw [hy]
  cases x.toModel.unpack <;> trivial

theorem not_le_of_positive {x y : Float} (hx : HasSign .positive x.toModel.unpack)
    (hy : IsNought y.toModel.unpack) : ¬ x ≤ y := by
  change ¬ decide (x.toModel ≤ y.toModel) = true
  rw [decide_eq_true_iff]
  change ¬ (x.toModel.unpack.compare y.toModel.unpack).any (·.isLE) = true
  cases hu : x.toModel.unpack <;> cases hv : y.toModel.unpack <;>
    simp_all [HasSign, IsNought, UnpackedFloat.compare]

theorem not_le_of_negative {x y : Float} (hx : HasSign .negative x.toModel.unpack)
    (hy : IsNought y.toModel.unpack) : ¬ y ≤ x := by
  change ¬ decide (y.toModel ≤ x.toModel) = true
  rw [decide_eq_true_iff]
  change ¬ (y.toModel.unpack.compare x.toModel.unpack).any (·.isLE) = true
  cases hu : x.toModel.unpack <;> cases hv : y.toModel.unpack <;>
    simp_all [HasSign, IsNought, UnpackedFloat.compare]

theorem zero_le_of_positive {x : Float} (hx : HasSign .positive x.toModel.unpack) : 0.0 ≤ x := by
  change decide ((0.0 : Float).toModel ≤ x.toModel) = true
  rw [decide_eq_true_iff]
  change ((UnpackedFloat.zero .positive).compare x.toModel.unpack).any (·.isLE) = true
  cases hu : x.toModel.unpack <;> simp_all [HasSign, UnpackedFloat.compare]

/-- **A whole number whose double lies between two zeros is zero.** -/
theorem eq_zero_of_between {n : Int} {x y : Float} (hx : IsNought x.toModel.unpack)
    (hy : IsNought y.toModel.unpack) (hlow : x ≤ Float.ofInt n) (hhigh : Float.ofInt n ≤ y) :
    n = 0 := by
  cases n with
  | ofNat n =>
    cases n with
    | zero => rfl
    | succ n => exact absurd hhigh (not_le_of_positive (hasSign_ofNat (Nat.succ_pos n)) hy)
  | negSucc n =>
    exact absurd hlow (not_le_of_negative (hasSign_neg (hasSign_ofNat (Nat.succ_pos n))) hx)

end Multipath.Binary
