import Multipath.Proofs.Decimal.Parts

/-!
# Doubles on one scale

Apart from NaN, doubles stand on one scale: from zero they can be counted off in both directions, up
to the infinities.  They are compared as these counts are.  The bits of a double hold its count, so
the total order of doubles, which goes by the bits, agrees with the comparison of numbers, but for
the two zeros, which only the bits tell apart.

* `level`: where a double stands on the scale.
* `orderKey_cases`: the key of the total order is the level, one less on the negative side.
* `compare_level`, `lt_iff_level`, `le_iff_level`: doubles are compared as their levels are.
* `level_le_of_orderKey_le`, `level_lt_of_orderKey_lt`: what the total order says about levels.
-/

namespace Multipath.Binary

open Float.Model Float.Model.UnpackedFloat

/-- How many doubles lie from zero up to `m * 2 ^ e`. -/
def count (m : Nat) (e : Int) : Nat := (e - minExponent).toNat * hiddenBit + m

/-- How many doubles lie from zero up to infinity. -/
def infiniteCount : Nat := 2047 * hiddenBit

/-- Where a number stands on the scale of doubles. -/
def height : UnpackedFloat → Int
  | .finite .positive m e _ => count m e
  | .finite .negative m e _ => -count m e
  | .infinity .positive => infiniteCount
  | .infinity .negative => -infiniteCount
  | .zero _ => 0
  | .notANumber => 0

/-- Where a double stands on the scale of doubles. -/
def level (x : Float) : Int := height x.toModel.unpack

variable {x y : Float}

/-! ### Bits -/

theorem height_finite (negative : Prop) [Decidable negative] (m : Nat) (e : Int) (hm : 0 < m) :
    height (.finite (if negative then .negative else .positive) m e hm) =
      if negative then -(count m e : Int) else count m e := by
  split <;> rfl

theorem height_infinity (negative : Prop) [Decidable negative] :
    height (.infinity (if negative then .negative else .positive)) =
      if negative then -(infiniteCount : Int) else infiniteCount := by
  split <;> rfl

/-- The key of the total order is the level of a double, one less on the negative side. -/
theorem orderKey_cases (hx : x.isNaN = false) :
    orderKey x = level x ∧ 0 ≤ level x ∨ orderKey x = level x - 1 ∧ level x ≤ 0 := by
  have hlt : x.toBits.toBitVec.toNat < 2 ^ 64 := x.toBits.toBitVec.isLt
  have hkey : orderKey x = if signBit ≤ x.toBits.toBitVec.toNat
      then (signBit : Int) - 1 - x.toBits.toBitVec.toNat else x.toBits.toBitVec.toNat := rfl
  have hlevel : level x = height (UnpackedFloat.unpack Format.binary64 x.toBits.toBitVec) := rfl
  change (UnpackedFloat.unpack Format.binary64 x.toBits.toBitVec).isNaN = false at hx
  rw [hkey, hlevel]
  generalize x.toBits.toBitVec = bits at *
  by_cases h₁ : bits.toNat / hiddenBit % 2048 = 2047
  · by_cases h₂ : bits.toNat % hiddenBit = 0
    · rw [unpack_infinity h₁ h₂, height_infinity]
      unfold infiniteCount hiddenBit signBit at *
      split <;> omega
    · rw [unpack_notANumber h₁ h₂] at hx
      cases hx
  · by_cases h₀ : bits.toNat / hiddenBit % 2048 = 0
    · by_cases h₂ : bits.toNat % hiddenBit = 0
      · rw [unpack_zero _ h₀ h₂, height]
        unfold hiddenBit signBit at *
        split <;> omega
      · rw [unpack_subnormal _ h₀ h₂, height_finite]
        unfold count hiddenBit signBit minExponent at *
        split <;> omega
    · rw [unpack_normal _ h₁ h₀, height_finite]
      unfold count hiddenBit signBit minExponent at *
      split <;> omega

/-! ### Comparing -/

theorem isDouble_of_unpack {s : Sign} {m : Nat} {e : Int} {hm : 0 < m}
    (h : x.toModel.unpack = .finite s m e hm) : IsDouble m e := by
  cases hdecode : decode x with
  | finite negative m' e' =>
    obtain ⟨hdouble, hunpack⟩ := unpack_of_decode hdecode
    rw [h] at hunpack
    unfold unpacked at hunpack
    split at hunpack
    · obtain ⟨-, rfl, rfl⟩ := UnpackedFloat.finite.inj hunpack
      exact hdouble
    · cases hunpack
  | infinite negative =>
    obtain rfl := eq_of_infinite hdecode
    cases negative <;> cases h
  | notANumber =>
    obtain rfl := eq_of_notANumber hdecode
    cases h

theorem count_pos {m : Nat} (hm : 0 < m) (e : Int) : 0 < count m e := Nat.add_pos_right _ hm

theorem count_lt {m : Nat} {e : Int} (h : IsDouble m e) : count m e < infiniteCount := by
  obtain ⟨hbound, hleast, hmost, -⟩ := h
  unfold count infiniteCount hiddenBit minExponent at *
  omega

/-- Magnitudes are compared by their exponents and then by their mantissas, and so are their
counts. -/
theorem compare_counts {m₁ m₂ : Nat} {e₁ e₂ : Int} (h₁ : IsDouble m₁ e₁) (h₂ : IsDouble m₂ e₂) :
    (compare e₁ e₂).then (compare m₁ m₂) = cmp (count m₁ e₁ : Int) (count m₂ e₂) := by
  obtain ⟨hbound₁, hleast₁, -, hlead₁⟩ := h₁
  obtain ⟨hbound₂, hleast₂, -, hlead₂⟩ := h₂
  unfold count hiddenBit minExponent at *
  rcases lt_trichotomy e₁ e₂ with he | rfl | he
  · rw [compare_lt_iff_lt.mpr he, (cmp_eq_lt_iff _ _).mpr (by omega)]
    rfl
  · push_cast
    rw [compare_eq_iff_eq.mpr rfl, cmp_add_left, ← cmp_eq_compare]
    exact (Nat.strictMono_cast.cmp_map_eq m₁ m₂).symm
  · rw [compare_gt_iff_gt.mpr he, (cmp_eq_gt_iff _ _).mpr (by omega)]
    rfl

/-- Numbers are compared as their heights are. -/
theorem compare_height {u v : UnpackedFloat} (hu : u.isNaN = false) (hv : v.isNaN = false)
    (hu' : ∀ s m e hm, u = .finite s m e hm → IsDouble m e)
    (hv' : ∀ s m e hm, v = .finite s m e hm → IsDouble m e) :
    u.compare v = some (cmp (height u) (height v)) := by
  have hless : ∀ {a b : Int}, a < b → some Ordering.lt = some (cmp a b) :=
    fun h => congrArg some ((cmp_eq_lt_iff _ _).mpr h).symm
  have hgreater : ∀ {a b : Int}, b < a → some Ordering.gt = some (cmp a b) :=
    fun h => congrArg some ((cmp_eq_gt_iff _ _).mpr h).symm
  cases u with
  | notANumber => cases hu
  | zero s =>
    cases v with
    | notANumber => cases hv
    | zero s' => rfl
    | infinity s' => cases s' <;> rfl
    | finite s' m e hm =>
      have hpos := count_pos hm e
      cases s' with
      | positive => exact hless (by simp only [height]; omega)
      | negative => exact hgreater (by simp only [height]; omega)
  | infinity s =>
    cases v with
    | notANumber => cases hv
    | zero s' => cases s <;> rfl
    | infinity s' => cases s <;> cases s' <;> rfl
    | finite s' m e hm =>
      have hlt := count_lt (hv' _ _ _ _ rfl)
      cases s with
      | positive => exact hgreater (by cases s' <;> simp only [height] <;> omega)
      | negative => exact hless (by cases s' <;> simp only [height] <;> omega)
  | finite s m e hm =>
    have hpos := count_pos hm e
    have hlt := count_lt (hu' _ _ _ _ rfl)
    cases v with
    | notANumber => cases hv
    | zero s' =>
      cases s with
      | positive => exact hgreater (by simp only [height]; omega)
      | negative => exact hless (by simp only [height]; omega)
    | infinity s' =>
      cases s' with
      | positive => exact hless (by cases s <;> simp only [height] <;> omega)
      | negative => exact hgreater (by cases s <;> simp only [height] <;> omega)
    | finite s' m' e' hm' =>
      have hpos' := count_pos hm' e'
      have hcounts := compare_counts (hu' _ _ _ _ rfl) (hv' _ _ _ _ rfl)
      cases s with
      | positive =>
        cases s' with
        | positive => exact congrArg some hcounts
        | negative => exact hgreater (by simp only [height]; omega)
      | negative =>
        cases s' with
        | positive => exact hless (by simp only [height]; omega)
        | negative =>
          refine congrArg some ((congrArg Ordering.swap hcounts).trans ?_)
          rw [cmp_swap]
          exact (StrictAnti.cmp_map_eq (f := Neg.neg) (fun _ _ => neg_lt_neg) _ _).symm

/-- Only numbers are compared. -/
theorem isNaN_of_le (h : x ≤ y) : x.isNaN = false ∧ y.isNaN = false := by
  change decide (x.toModel ≤ y.toModel) = true at h
  rw [decide_eq_true_iff] at h
  change (x.toModel.unpack.compare y.toModel.unpack).any (·.isLE) = true at h
  change x.toModel.unpack.isNaN = false ∧ y.toModel.unpack.isNaN = false
  cases hu : x.toModel.unpack <;> cases hv : y.toModel.unpack <;>
    simp_all [UnpackedFloat.compare, UnpackedFloat.isNaN]

section Numbers

variable (hx : x.isNaN = false) (hy : y.isNaN = false)
include hx hy

theorem compare_level :
    x.toModel.unpack.compare y.toModel.unpack = some (cmp (level x) (level y)) :=
  compare_height hx hy (fun _ _ _ _ => isDouble_of_unpack) fun _ _ _ _ => isDouble_of_unpack

theorem lt_iff_level : x < y ↔ level x < level y := by
  change decide (x.toModel < y.toModel) = true ↔ level x < level y
  rw [decide_eq_true_iff]
  change (x.toModel.unpack.compare y.toModel.unpack == some .lt) = true ↔ level x < level y
  rw [compare_level hx hy, beq_iff_eq, Option.some.injEq, cmp_eq_lt_iff]

theorem le_iff_level : x ≤ y ↔ level x ≤ level y := by
  change decide (x.toModel ≤ y.toModel) = true ↔ level x ≤ level y
  rw [decide_eq_true_iff]
  change (x.toModel.unpack.compare y.toModel.unpack).any (·.isLE) = true ↔ level x ≤ level y
  rw [compare_level hx hy, Option.any_some, ← Ordering.ne_gt_iff_isLE, cmp_eq_gt_iff, not_lt]

/-- What the total order puts lower is no greater. -/
theorem level_le_of_orderKey_le (h : orderKey x ≤ orderKey y) : level x ≤ level y := by
  rcases orderKey_cases hx with hx | hx <;> rcases orderKey_cases hy with hy | hy <;> omega

/-- Above zero, what the total order puts strictly lower is less. -/
theorem level_lt_of_orderKey_lt (hpos : 0 < level y) (h : orderKey x < orderKey y) :
    level x < level y := by
  rcases orderKey_cases hx with hx | hx <;> rcases orderKey_cases hy with hy | hy <;> omega

end Numbers

/-- A double that is less than an infinity, but not less than its opposite, has a value. -/
theorem exists_toRat?_of_level (hx : x.isNaN = false) (hlow : -infiniteCount < level x)
    (hhigh : level x < infiniteCount) : ∃ q, toRat? x = some q := by
  rw [toRat?_eq_value?]
  unfold level at hlow hhigh
  change x.toModel.unpack.isNaN = false at hx
  cases hu : x.toModel.unpack with
  | notANumber =>
    rw [hu] at hx
    cases hx
  | zero s => exact ⟨_, rfl⟩
  | finite s m e hm => exact ⟨_, rfl⟩
  | infinity s =>
    rw [hu] at hlow hhigh
    cases s with
    | positive => exact absurd hhigh (lt_irrefl _)
    | negative => exact absurd hlow (lt_irrefl _)

end Multipath.Binary
