import Multipath.Proofs.Decimal.Adding
import Multipath.Proofs.Decimal.Nearest

/-!
# Doubles and their parts

A finite double is put together again from its sign, its mantissa and its exponent.

* `Binary.unpacked`: the number that the parts stand for.
* `Binary.eq_of_decode`: a double is the one with the bits of its parts, negated if it is negative.
* `Binary.toRat?_neg`: negation changes the sign of a finite value.
* `Binary.eq_of_infinite`, `Binary.eq_of_notANumber`: the doubles that are not finite.
-/

namespace Multipath.Binary

open Float.Model Float.Model.UnpackedFloat

/-- The number that a sign, a mantissa and an exponent stand for. -/
def unpacked (s : Sign) (m : Nat) (q : Int) : UnpackedFloat :=
  if hm : 0 < m then .finite s m q hm else .zero s

theorem unpack_pack_unpacked {m : Nat} {q : Int} (h : IsDouble m q) (s : Sign) :
    (Float.Model.pack (unpacked s m q)).unpack = unpacked s m q := by
  unfold unpacked
  split
  next hm =>
    rcases Nat.lt_or_ge m hiddenBit with hlt | hge
    · obtain rfl := h.leading.resolve_left (Nat.not_le.mpr hlt)
      exact unpack_pack_subnormal hlt s hm
    · exact unpack_pack_normal hge h.bound s h.least h.most hm
  next => cases s <;> rfl

theorem toNat_bitsOf {m : Nat} {q : Int} (h : IsDouble m q) :
    (bitsOf m q).toNat = (q - minExponent).toNat * hiddenBit + m := by
  have hbound := h.bound
  have hmost := h.most
  rw [bitsOf, UInt64.toNat_ofNat']
  unfold minExponent hiddenBit at *
  exact Nat.mod_eq_of_lt (by omega)

/-- The bits of a double that is not negative are those of its parts. -/
theorem unpack_bitsOf {m : Nat} {q : Int} (h : IsDouble m q) :
    UnpackedFloat.unpack Format.binary64 (bitsOf m q).toBitVec = unpacked .positive m q := by
  have hbits : (bitsOf m q).toBitVec.toNat = (q - minExponent).toNat * hiddenBit + m :=
    toNat_bitsOf h
  obtain ⟨hbound, hleast, hmost, hleading⟩ := h
  obtain ⟨k, rfl⟩ : ∃ k : Nat, q = minExponent + k := ⟨(q - minExponent).toNat, by omega⟩
  rw [show (minExponent + k - minExponent).toNat = k by omega] at hbits
  generalize (bitsOf m (minExponent + k)).toBitVec = bits at *
  have hk : k ≤ 2045 := by
    unfold minExponent at hmost
    omega
  have hsign : ¬signBit ≤ bits.toNat := by
    rw [hbits]
    unfold hiddenBit signBit at *
    omega
  rcases Nat.lt_or_ge m hiddenBit with hlt | hge
  · obtain rfl : k = 0 := by
      rcases hleading with hge | hzero <;> omega
    rw [Nat.zero_mul, Nat.zero_add] at hbits
    have hexponent : bits.toNat / hiddenBit % 2048 = 0 := by rw [hbits, Nat.div_eq_of_lt hlt]
    have hfraction : bits.toNat % hiddenBit = m := by rw [hbits, Nat.mod_eq_of_lt hlt]
    unfold unpacked
    split
    next hm =>
      rw [unpack_subnormal _ hexponent (by omega)]
      simp [hsign, hfraction]
    next hm =>
      rw [unpack_zero _ hexponent (by omega), if_neg hsign]
  · have hexponent : bits.toNat / hiddenBit % 2048 = k + 1 := by
      rw [hbits]
      unfold hiddenBit at *
      omega
    have hfraction : bits.toNat % hiddenBit + hiddenBit = m := by
      rw [hbits]
      unfold hiddenBit at *
      omega
    rw [unpack_normal _ (by omega) (by omega), unpacked, dif_pos (by omega)]
    simp [hsign, hfraction, hexponent]

theorem unpack_of_decode {x : Float} {negative : Bool} {m : Nat} {q : Int}
    (h : decode x = .finite negative m q) : IsDouble m q ∧
      x.toModel.unpack = unpacked (if negative then .negative else .positive) m q := by
  change IsDouble m q ∧ UnpackedFloat.unpack Format.binary64 x.toBits.toBitVec = _
  have hmod : x.toBits.toNat % hiddenBit < hiddenBit := Nat.mod_lt _ (by decide)
  have hexponent : x.toBits.toNat / hiddenBit % 2048 < 2048 := Nat.mod_lt _ (by decide)
  unfold decode at h
  dsimp only at h
  split at h
  next => split at h <;> cases h
  next hspecial =>
    split at h
    next hzero =>
      obtain ⟨rfl, rfl, rfl⟩ : _ ∧ _ ∧ _ := by simpa using h
      refine ⟨⟨by omega, le_refl _, by decide, .inr rfl⟩, ?_⟩
      unfold unpacked
      split
      next hm =>
        rw [unpack_subnormal x.toBits.toBitVec hzero hm.ne']
        simp
      next hm =>
        rw [unpack_zero x.toBits.toBitVec hzero (by simpa using hm)]
        simp
    next hzero =>
      obtain ⟨rfl, rfl, rfl⟩ : _ ∧ _ ∧ _ := by simpa using h
      refine ⟨⟨by omega, by omega, by unfold minExponent; omega, .inl (by omega)⟩, ?_⟩
      rw [unpack_normal x.toBits.toBitVec hspecial hzero, unpacked,
        dif_pos (by unfold hiddenBit; omega)]
      simp

theorem neg_unpacked (m : Nat) (q : Int) :
    (unpacked .positive m q).neg = unpacked .negative m q := by
  unfold unpacked
  split <;> rfl

/-- **A double is the one with the bits of its parts, negated if it is negative.** -/
theorem eq_of_decode {x : Float} {negative : Bool} {m : Nat} {q : Int}
    (h : decode x = .finite negative m q) :
    x = if negative then -Float.ofBits (bitsOf m q) else Float.ofBits (bitsOf m q) := by
  obtain ⟨hdouble, hunpack⟩ := unpack_of_decode h
  have hx : Float.ofModel (Float.Model.pack x.toModel.unpack) = x := Float.ofBits_toBits x
  have hbits := unpack_bitsOf hdouble
  rw [hunpack] at hx
  cases negative with
  | false => exact hx.symm.trans (congrArg (fun u => Float.ofModel (Float.Model.pack u)) hbits).symm
  | true =>
    have hmagnitude : (Float.ofBits (bitsOf m q)).toModel.unpack = unpacked .positive m q :=
      (congrArg (fun u => (Float.Model.pack u).unpack) hbits).trans (unpack_pack_unpacked hdouble _)
    have hneg : -Float.ofBits (bitsOf m q) = Float.ofModel (Float.Model.pack
        (Float.ofBits (bitsOf m q)).toModel.unpack.neg) := rfl
    rw [if_pos rfl, hneg, hmagnitude, neg_unpacked]
    exact hx.symm

/-- Negation changes the sign of a finite value. -/
theorem toRat?_neg {x : Float} {p : Rat} (h : toRat? x = some p) : toRat? (-x) = some (-p) := by
  have hfinite : ∃ negative m q, decode x = .finite negative m q := by
    unfold toRat? at h
    split at h
    · exact ⟨_, _, _, ‹_›⟩
    · cases h
  obtain ⟨negative, m, q, hdecode⟩ := hfinite
  obtain ⟨hdouble, hunpack⟩ := unpack_of_decode hdecode
  have hneg : (-x).toModel.unpack = unpacked (if negative then .positive else .negative) m q := by
    change (Float.Model.pack x.toModel.unpack.neg).unpack = _
    rw [← unpack_pack_unpacked hdouble, hunpack]
    congr 2
    cases negative <;> unfold unpacked <;> split <;> rfl
  rw [toRat?_eq_value?] at h ⊢
  rw [hunpack] at h
  rw [hneg]
  unfold unpacked at h ⊢
  split at h
  · obtain rfl := Option.some.inj h
    cases negative <;> simp [*, value?, Sign.apply]
  · obtain rfl := Option.some.inj h
    simp [*, value?]
theorem unpack_infinity {b : BitVec 64} (h : b.toNat / hiddenBit % 2048 = 2047)
    (hfraction : b.toNat % hiddenBit = 0) : UnpackedFloat.unpack Format.binary64 b =
      .infinity (if signBit ≤ b.toNat then .negative else .positive) := by
  rw [UnpackedFloat.unpack, if_pos ((unpackExponent_eq_ones b).mpr h),
    if_pos ((unpackMantissa_eq_zero b).mpr hfraction), ofBitVec_unpackSign]

theorem unpack_notANumber {b : BitVec 64} (h : b.toNat / hiddenBit % 2048 = 2047)
    (hfraction : b.toNat % hiddenBit ≠ 0) :
    UnpackedFloat.unpack Format.binary64 b = .notANumber := by
  rw [UnpackedFloat.unpack, if_pos ((unpackExponent_eq_ones b).mpr h),
    if_neg (mt (unpackMantissa_eq_zero b).mp hfraction)]

/-- A double is packed from what it unpacks to. -/
theorem eq_pack (x : Float) : x = Float.ofModel (Float.Model.pack
    (UnpackedFloat.unpack Format.binary64 x.toBits.toBitVec)) :=
  (Float.ofBits_toBits x).symm

theorem eq_of_infinite {x : Float} {negative : Bool} (h : decode x = .infinite negative) :
    x = if negative then -(1.0 / 0.0) else 1.0 / 0.0 := by
  unfold decode at h
  dsimp only at h
  split at h
  next hspecial =>
    split at h
    next hfraction =>
      obtain rfl := Binary.infinite.inj h
      rw [eq_pack x, unpack_infinity hspecial hfraction]
      by_cases hsign : signBit ≤ x.toBits.toNat
      · simp only [hsign, UInt64.toNat_toBitVec]
        rfl
      · simp only [hsign, UInt64.toNat_toBitVec]
        rfl
    next => cases h
  next => split at h <;> cases h

theorem eq_of_notANumber {x : Float} (h : decode x = .notANumber) : x = 0.0 / 0.0 := by
  unfold decode at h
  dsimp only at h
  split at h
  next hspecial =>
    split at h
    next => cases h
    next hfraction =>
      rw [eq_pack x, unpack_notANumber hspecial hfraction]
      rfl
  next => split at h <;> cases h

end Multipath.Binary
