import Mathlib.Algebra.Order.Floor.Semifield
import Mathlib.Data.Rat.Floor
import Multipath.Draws
import Multipath.Proofs.Decimal.Order

/-!
# Scaling doubles by a power of two

Multiplying with a power of two changes the exponent and nothing else, so a probability, scaled up
to the range of the draws, is rounded only where it becomes a whole number.

* `shiftToTargetExponent_shifted`: bits that were only added can be shifted out again.
* `unpack_pack_normal`: a normal number is the same after packing.
* `toNat_threshold`: the draws below the threshold of a coin are as many as its probability allows.
-/

namespace Multipath.Binary

open Float.Model Float.Model.UnpackedFloat

/-! ### Rounding what needs none -/

theorem shiftRight_shifted (m n : Nat) :
    (⟨m * 2 ^ n, false, false⟩ : ExtendedMantissa) >>> n = ⟨m, false, false⟩ := by
  change Nat.repeat ExtendedMantissa.shiftRightOne n _ = _
  induction n generalizing m with
  | zero => simp [Nat.repeat]
  | succ n ih =>
    have hstep := ih (m * 2)
    rw [show m * 2 * 2 ^ n = m * 2 ^ (n + 1) by ring] at hstep
    rw [Nat.repeat, hstep]
    simp [ExtendedMantissa.shiftRightOne]

theorem log2_normal {m : Nat} (h₁ : hiddenBit ≤ m) (h₂ : m < 2 * hiddenBit) : m.log2 = 52 :=
  (Nat.log2_eq_iff (by unfold hiddenBit at h₁; omega)).mpr ⟨h₁, h₂⟩

theorem log2_shifted {m : Nat} (h₁ : hiddenBit ≤ m) (h₂ : m < 2 * hiddenBit) (n : Nat) :
    (m * 2 ^ n).log2 = 52 + n := by
  have hpos : 0 < 2 ^ n := by positivity
  refine (Nat.log2_eq_iff (by unfold hiddenBit at h₁; positivity)).mpr ⟨?_, ?_⟩
  · rw [pow_add]
    exact Nat.mul_le_mul_right _ h₁
  · rw [show 52 + n + 1 = 53 + n by omega, pow_add]
    exact Nat.mul_lt_mul_of_pos_right h₂ hpos

theorem shiftToTargetExponent_shifted {m : Nat} (h₁ : hiddenBit ≤ m) (h₂ : m < 2 * hiddenBit)
    (n : Nat) {e : Int} (he : minExponent ≤ e + n) :
    shiftToTargetExponent Format.binary64 (m * 2 ^ n) e .exact = (⟨m, false, false⟩, e + n) := by
  have htarget : Format.binary64.targetExponent (totalExponent (m * 2 ^ n) e) = e + n := by
    rw [Format.targetExponent, totalExponent, log2_shifted h₁ h₂]
    simp only [Format.mantissaBits, Format.minExponent]
    unfold minExponent at he
    omega
  rw [shiftToTargetExponent, htarget, shiftToExponent, add_sub_cancel_left, Int.toNat_natCast]
  exact Prod.ext (shiftRight_shifted m n) rfl

/-- Rounding shifts twice; the second time only what the first one rounded up to a further bit. -/
theorem roundWithAccuracy_eq {s : Sign} {m M : Nat} {e e' E : Int} {x : ExtendedMantissa}
    {accuracy : Accuracy} (hM : 0 < M)
    (hfirst : shiftToTargetExponent Format.binary64 m e accuracy = (x, e'))
    (hsecond : shiftToTargetExponent Format.binary64 x.roundedMantissa e' .exact =
      (⟨M, false, false⟩, E)) :
    roundWithAccuracy Format.binary64 s m e accuracy = .finite s M E hM := by
  simp only [roundWithAccuracy, hfirst, hsecond]
  rw [dif_neg hM.ne']

theorem roundWithAccuracy_shifted {m : Nat} (h₁ : hiddenBit ≤ m) (h₂ : m < 2 * hiddenBit)
    (s : Sign) (n : Nat) {e : Int} (he : minExponent ≤ e + n) :
    roundWithAccuracy Format.binary64 s (m * 2 ^ n) e .exact =
      .finite s m (e + n) (Nat.pos_of_ne_zero (by unfold hiddenBit at h₁; omega)) := by
  have hzero := shiftToTargetExponent_shifted h₁ h₂ 0 (e := e + n) (by simpa using he)
  simp only [pow_zero, mul_one, Nat.cast_zero, add_zero] at hzero
  exact roundWithAccuracy_eq _ (shiftToTargetExponent_shifted h₁ h₂ n he) hzero

/-! ### Packing -/

theorem unpackSign_packComponents (F : Float.Model.Format) (s : Sign) (e : BitVec F.exponentBits)
    (m : BitVec F.mantissaBitsWithoutImplicit) :
    unpackSign (packComponents F s e m) = s.toBitVec := by
  refine BitVec.eq_of_getLsbD_eq fun i hi => ?_
  obtain rfl : i = 0 := by omega
  simp [unpackSign, packComponents, BitVec.getLsbD_append, BitVec.getElem_append]

theorem ofBitVec_toBitVec (s : Sign) : Sign.ofBitVec s.toBitVec = s := by
  cases s <;> rfl

theorem unpack_pack_normal {m : Nat} (h₁ : hiddenBit ≤ m) (h₂ : m < 2 * hiddenBit) (s : Sign)
    {e : Int} (he : minExponent ≤ e) (he' : e ≤ 971) (hm : 0 < m) :
    (Float.Model.pack (.finite s m e hm)).unpack = .finite s m e hm := by
  have hlog := log2_normal h₁ h₂
  unfold hiddenBit at h₁ h₂
  unfold minExponent at he
  obtain ⟨b, hb⟩ : ∃ b : Nat, e = (b : Int) - 1075 := ⟨(e + 1075).toNat, by omega⟩
  have hbits : b + 1 < 2 ^ 11 := by omega
  have hexponent : (BitVec.ofNat 11 b).toNat = b := by
    rw [BitVec.toNat_ofNat, Nat.mod_eq_of_lt (by omega)]
  have hones : BitVec.ofNat 11 b ≠ -1#11 := fun h => by
    have := congrArg BitVec.toNat h
    rw [hexponent] at this
    simp at this
    omega
  have hzero : BitVec.ofNat 11 b ≠ 0#11 := fun h => by
    have := congrArg BitVec.toNat h
    rw [hexponent] at this
    simp at this
    omega
  have hbiased : (e + (Format.exponentBias Format.binary64 : Nat) + (52 : Nat)).toNat = b := by
    simp only [Format.exponentBias]
    omega
  have hmantissa : (1#1 ++ BitVec.ofNat 52 m).toNat = m := by
    rw [toNat_implicit, BitVec.toNat_ofNat]
    unfold hiddenBit
    omega
  change UnpackedFloat.unpack Format.binary64 (UnpackedFloat.pack Format.binary64 _) = _
  rw [UnpackedFloat.pack]
  simp only [hbiased]
  rw [if_neg (not_le.mpr hbits), if_pos (by simp [hlog, Format.mantissaBits])]
  rw [UnpackedFloat.unpack]
  simp only [unpackExponent_packComponents, unpackMantissa_packComponents,
    unpackSign_packComponents, ofBitVec_toBitVec]
  rw [if_neg hones, if_neg hzero]
  simp only [hmantissa, hexponent]
  congr 1
  rw [← Nat.cast_add]
  simp only [Format.exponentBias]
  omega

/-! ### Whole parts -/

theorem mantissa_shiftRight (x : ExtendedMantissa) (n : Nat) :
    (x >>> n).mantissa = x.mantissa / 2 ^ n := by
  change (Nat.repeat ExtendedMantissa.shiftRightOne n x).mantissa = _
  induction n with
  | zero => simp [Nat.repeat]
  | succ n ih =>
    rw [Nat.repeat, ExtendedMantissa.shiftRightOne, ih, Nat.div_div_eq_div_mul, pow_succ]

/-- The whole part of a positive number. -/
theorem roundToInt_positive (m : Nat) (e : Int) :
    (roundToInt .positive m e).toNat = ⌊(m : Rat) * 2 ^ e⌋₊ := by
  have hparts : (roundToInt .positive m e).toNat = m * 2 ^ e.toNat / 2 ^ (-e).toNat := by
    simp only [roundToInt, decreaseExponent, shiftToExponent, mantissa_shiftRight, Sign.apply,
      ExtendedMantissa.ofMantissaAndAccuracy, Nat.shiftLeft_eq, Int.toNat_natCast, sub_zero]
    congr 2
    omega
  rw [hparts]
  rcases le_total 0 e with he | he
  · obtain ⟨n, rfl⟩ := Int.eq_ofNat_of_zero_le he
    have hwhole : (m : Rat) * 2 ^ (n : Int) = ((m * 2 ^ n : Nat) : Rat) := by
      push_cast
      rw [zpow_natCast]
    rw [hwhole, Nat.floor_natCast]
    simp
  · obtain ⟨n, rfl⟩ : ∃ n : Nat, e = -(n : Int) := ⟨(-e).toNat, by omega⟩
    have hquotient : (m : Rat) * 2 ^ (-(n : Int)) = (m : Rat) / ((2 ^ n : Nat) : Rat) := by
      push_cast
      rw [zpow_neg, zpow_natCast, div_eq_mul_inv]
    rw [hquotient, Nat.floor_div_eq_div]
    simp

/-! ### Coins -/

theorem unpack_scale : Draws.scale.toModel.unpack = .finite .positive hiddenBit 12 (by decide) := rfl

/-- A double between the least normal one and 1 is a normal number. -/
theorem unpack_probability {p : Float} {q : Rat} (hp : toRat? p = some q)
    (hlow : (2 : Rat) ^ (-1022 : Int) ≤ q) (hhigh : q < 1) : ∃ m e hm,
      p.toModel.unpack = .finite .positive m e hm ∧ q = m * 2 ^ e ∧ hiddenBit ≤ m ∧
        m < 2 * hiddenBit ∧ minExponent ≤ e ∧ e < 0 := by
  have hpos : 0 < q := lt_of_lt_of_le (by positivity) hlow
  have hcanonical := isCanonical_unpack p
  rw [toRat?_eq_value?] at hp
  cases hu : p.toModel.unpack with
  | zero s =>
    simp only [hu, value?, Option.some.injEq] at hp
    exact absurd hp hpos.ne
  | infinity s => simp [hu, value?] at hp
  | notANumber => simp [hu, value?] at hp
  | finite s m e hm =>
    simp only [hu, value?, Option.some.injEq] at hp
    rw [hu] at hcanonical
    obtain ⟨hlt, hmin, hlead⟩ := hcanonical
    have hscale : (0 : Rat) < m * 2 ^ e := by positivity
    cases s with
    | negative =>
      simp only [Sign.apply, Int.cast_neg, Int.cast_natCast, neg_mul] at hp
      linarith
    | positive =>
      simp only [Sign.apply, Int.cast_natCast] at hp
      refine ⟨m, e, hm, rfl, hp.symm, ?_, hlt, hmin, ?_⟩
      · by_contra hsmall
        obtain rfl := hlead.resolve_left hsmall
        have hm' : (m : Rat) < 2 ^ (52 : Int) := by exact_mod_cast not_le.mp hsmall
        have hlt' : (m : Rat) * 2 ^ minExponent < 2 ^ (52 : Int) * 2 ^ minExponent := by gcongr
        rw [← zpow_add₀ two_ne_zero, show (52 : Int) + minExponent = -1022 from rfl] at hlt'
        linarith
      · by_contra he
        have hone : (1 : Rat) ≤ m := by exact_mod_cast hm
        have hpow : (1 : Rat) ≤ 2 ^ e := one_le_zpow₀ (by norm_num) (not_lt.mp he)
        have := one_le_mul_of_one_le_of_one_le hone hpow
        linarith

/-- The threshold of a coin is its probability, scaled to the range of the draws. -/
theorem toNat_threshold {p : Float} {q : Rat} (hp : toRat? p = some q)
    (hlow : (2 : Rat) ^ (-1022 : Int) ≤ q) (hhigh : q < 1) :
    (p * Draws.scale).toUInt64.toNat = ⌊q * 2 ^ 64⌋₊ := by
  obtain ⟨m, e, hm, hu, rfl, h₁, h₂, hmin, he⟩ := unpack_probability hp hlow hhigh
  have hproduct : (p * Draws.scale).toModel.unpack = .finite .positive m (e + 64) hm := by
    change (Float.Model.pack (UnpackedFloat.mul Format.binary64 p.toModel.unpack
      Draws.scale.toModel.unpack)).unpack = _
    have hmul := roundWithAccuracy_shifted h₁ h₂ .positive 52 (e := e + 12)
      (by unfold minExponent at hmin ⊢; omega)
    have hmul' : UnpackedFloat.mul Format.binary64 p.toModel.unpack Draws.scale.toModel.unpack =
        .finite .positive m (e + 12 + (52 : Nat)) hm := by
      rw [hu, unpack_scale]
      exact hmul
    rw [hmul', show e + 12 + ((52 : Nat) : Int) = e + 64 by omega]
    exact unpack_pack_normal h₁ h₂ _ (by unfold minExponent at hmin ⊢; omega) (by omega) hm
  have hwhole : (m : Rat) * 2 ^ (e + 64) = m * 2 ^ e * 2 ^ 64 := by
    rw [zpow_add₀ two_ne_zero, mul_assoc]
    norm_cast
  have hsmall : ⌊m * 2 ^ e * (2 : Rat) ^ 64⌋₊ < UInt64.size := by
    rw [Nat.floor_lt (by positivity), show ((UInt64.size : Nat) : Rat) = 1 * 2 ^ 64 by
      norm_num [UInt64.size]]
    gcongr
  change (UInt64.ofNatClamp
    ((p * Draws.scale).toModel.unpack.toInt 0 (UInt64.size - 1)).toNat).toNat = _
  rw [hproduct, toInt, roundToInt_positive, hwhole, UInt64.ofNatClamp_eq_ofNat _ hsmall,
    UInt64.toNat_ofNat_of_lt' hsmall]

end Multipath.Binary
