import Multipath.Proofs.Decimal.Reading
import Multipath.Proofs.Toml.Lines

/-!
# Doubles read back

A double is written as its shortest decimal, and this decimal is read as the double.

* `Decimal.Reads`: digits in front of and behind a point that stand for a number.
* `Decimal.reads_positional`: the digits of a decimal stand for it.
* `Toml.Value.inline_float`: a double is read back from the text that is written for it.
-/

namespace Multipath

open Toml Toml.Number

/-! ### Digits -/

namespace Decimal

/-- Digits in front of and behind a point that stand for a number. -/
structure Reads (front back : List Char) (r : Rat) : Prop where
  whole : IsWhole front
  fraction : ∀ c ∈ back, c.isDigit
  value : (Nat.ofDigitChars 10 (front ++ back) 0 : Rat) / 10 ^ back.length = r

/-- Digits are what is kept of them, with zeros behind it. -/
theorem exists_trailing (digits : List Char) : ∃ zeros,
    digits = (digits.reverse.dropWhile (· == '0')).reverse ++ List.replicate zeros '0' := by
  have hsplit := List.takeWhile_append_dropWhile (p := (· == '0')) (l := digits.reverse)
  have hzeros : digits.reverse.takeWhile (· == '0')
      = List.replicate (digits.reverse.takeWhile (· == '0')).length '0' := by
    refine List.eq_replicate_iff.mpr ⟨rfl, fun c hc => ?_⟩
    simpa using List.mem_takeWhile_imp hc
  refine ⟨(digits.reverse.takeWhile (· == '0')).length, ?_⟩
  rw [← List.reverse_inj, List.reverse_append, List.reverse_reverse, List.reverse_replicate,
    ← hzeros, hsplit]

theorem head_toDigits {n : Nat} (hn : 0 < n) : (Nat.toDigits 10 n).head? ≠ some '0' := by
  intro h
  obtain ⟨rest, hrest⟩ := List.head?_eq_some_iff.mp h
  obtain rfl := (isWhole_toDigits n).leading rest hrest
  have := Nat.ofDigitChars_ten_toDigits (n := n)
  rw [hrest] at this
  simp [Nat.ofDigitChars] at this
  omega

theorem isWhole_of_head {word : List Char} (hne : word ≠ []) (hdigits : ∀ c ∈ word, c.isDigit)
    (hhead : word.head? ≠ some '0') : IsWhole word :=
  ⟨hne, hdigits, fun rest hrest => absurd (by rw [hrest]; rfl) hhead⟩

/-- The digits in front of the point, with zeros in front of a number below one. -/
theorem isWhole_front {n : Nat} (hn : 0 < n) (places : Nat) :
    let padded := List.replicate (places + 1 - (Nat.toDigits 10 n).length) '0' ++ Nat.toDigits 10 n
    IsWhole (padded.take (padded.length - places)) := by
  have hdigits := (isWhole_toDigits n).digits
  intro padded
  rcases Nat.lt_or_ge places (Nat.toDigits 10 n).length with hlong | hshort
  · have hpadded : padded = Nat.toDigits 10 n := by
      simp [padded, show places + 1 - (Nat.toDigits 10 n).length = 0 by omega]
    rw [hpadded]
    obtain ⟨first, others, hchars⟩ :=
      List.exists_cons_of_ne_nil (Nat.toDigits_ne_nil (n := n) (b := 10))
    obtain ⟨k, hk⟩ : ∃ k, (Nat.toDigits 10 n).length - places = k + 1 :=
      ⟨(Nat.toDigits 10 n).length - places - 1, by omega⟩
    have hhead := head_toDigits hn
    rw [hk]
    refine isWhole_of_head ?_ (fun c hc => hdigits c (List.mem_of_mem_take hc)) ?_
    · simp [hchars]
    · simpa [hchars] using hhead
  · obtain ⟨k, hk⟩ : ∃ k, places + 1 - (Nat.toDigits 10 n).length = k + 1 :=
      ⟨places - (Nat.toDigits 10 n).length, by omega⟩
    have hlength : padded.length - places = 1 := by
      simp [padded]
      omega
    have hfront : padded.take 1 = ['0'] := by simp [padded, hk, List.replicate_succ]
    rw [hlength, hfront]
    exact ⟨by simp, by simp, by simp⟩

/-- Digits with a point in front of the last places, without the zeros at the end. -/
theorem reads_split {digits : List Char} {places : Nat} (hdigits : ∀ c ∈ digits, c.isDigit)
    (hplaces : places ≤ digits.length) (hwhole : IsWhole (digits.take (digits.length - places))) :
    Reads (digits.take (digits.length - places))
      ((digits.drop (digits.length - places)).reverse.dropWhile (· == '0')).reverse
      (Nat.ofDigitChars 10 digits 0 / 10 ^ places) := by
  obtain ⟨zeros, hzeros⟩ := exists_trailing (digits.drop (digits.length - places))
  have hsplit := List.take_append_drop (digits.length - places) digits
  have hlength : (digits.drop (digits.length - places)).length = places := by
    rw [List.length_drop]
    omega
  generalize digits.take (digits.length - places) = front at *
  generalize digits.drop (digits.length - places) = back at *
  generalize (back.reverse.dropWhile (· == '0')).reverse = kept at *
  subst hzeros hsplit
  refine ⟨hwhole, fun c hc => hdigits c (by simp [hc]), ?_⟩
  have hvalue : Nat.ofDigitChars 10 (front ++ (kept ++ List.replicate zeros '0')) 0
      = 10 ^ zeros * Nat.ofDigitChars 10 (front ++ kept) 0 := by
    rw [← List.append_assoc, Nat.ofDigitChars_append, Nat.ofDigitChars_replicate_zero]
  rw [hvalue, ← hlength, List.length_append, List.length_replicate, pow_add]
  push_cast
  field_simp

theorem isDigit_zeros {c : Char} {n : Nat} (h : c ∈ List.replicate n '0') : c.isDigit := by
  obtain rfl := List.eq_of_mem_replicate h
  decide

/-- The digits of a decimal stand for it. -/
theorem reads_positional {d : Decimal} (hd : 0 < d.significand) :
    Reads d.positional.1 d.positional.2 d.toRat := by
  have hdigits := (isWhole_toDigits d.significand).digits
  have hvalue := Nat.ofDigitChars_ten_toDigits (n := d.significand)
  unfold positional
  cases hexponent : d.exponent with
  | ofNat n =>
    refine ⟨isWhole_of_head ?_ ?_ ?_, by simp, ?_⟩
    · simp [Nat.toDigits_ne_nil]
    · intro c hc
      rcases List.mem_append.mp hc with hc | hc
      · exact hdigits c hc
      · exact isDigit_zeros hc
    · obtain ⟨first, others, hchars⟩ :=
        List.exists_cons_of_ne_nil (Nat.toDigits_ne_nil (n := d.significand) (b := 10))
      have hhead := head_toDigits hd
      simpa [hchars] using hhead
    · simp only [List.append_nil, List.length_nil, Nat.ofDigitChars_append,
        Nat.ofDigitChars_replicate_zero, hvalue, toRat, hexponent]
      push_cast
      simp [mul_comm]
  | negSucc n =>
    have hpadded : ∀ c ∈ List.replicate (n + 1 + 1 - (Nat.toDigits 10 d.significand).length) '0'
        ++ Nat.toDigits 10 d.significand, c.isDigit := by
      intro c hc
      rcases List.mem_append.mp hc with hc | hc
      · exact isDigit_zeros hc
      · exact hdigits c hc
    have hread := reads_split hpadded (by simp; omega) (isWhole_front hd (n + 1))
    rw [Nat.ofDigitChars_append, Nat.ofDigitChars_replicate_zero, Nat.mul_zero, hvalue] at hread
    simpa [toRat, hexponent, zpow_negSucc, div_eq_mul_inv] using hread

end Decimal

/-! ### Words -/

namespace Toml.Number

/-- A word that begins with something else than a digit has no digits. -/
theorem digits?_of_none {c : Char} {rest : List Char} (h : digitValue? 10 c = none) :
    digits? 10 (c :: rest) = none := by
  unfold digits?
  split
  next => rfl
  next heq =>
    obtain ⟨rfl, -⟩ := List.cons.inj heq
    simp [h]
  next heq =>
    obtain ⟨rfl, -⟩ := List.cons.inj heq
    simp [h]
  next heq =>
    obtain ⟨rfl, -⟩ := List.cons.inj heq
    simp [h]

section

variable {front back : List Char} (hfront : IsWhole front) (hback : back ≠ [])
  (hdigits : ∀ c ∈ back, c.isDigit)
include hfront

theorem digits?_of_point : digits? 10 (front ++ '.' :: back) = none := by
  obtain ⟨-, hfront, -⟩ := hfront
  induction front with
  | nil => exact digits?_of_none (by decide)
  | cons c front ih =>
    obtain ⟨hc, hfront⟩ := List.forall_mem_cons.mp hfront
    have hrest := ih hfront
    cases hword : front ++ '.' :: back with
    | nil => simp at hword
    | cons d rest =>
      have hd : d ≠ '_' := by
        cases front with
        | nil =>
          obtain ⟨rfl, -⟩ := List.cons.inj hword
          decide
        | cons e front =>
          obtain ⟨rfl, -⟩ := List.cons.inj hword
          rintro rfl
          exact absurd (hfront '_' (by simp)) (by decide)
      rw [List.cons_append, hword, digits?]
      · simp [digitValue?_of_isDigit hc, ← hword, hrest]
      · simp
      · simp [hd]

theorem ne_of_isWhole {c : Char} (hc : c.isDigit = false) (rest : List Char) :
    front ++ '.' :: back ≠ c :: rest := by
  obtain ⟨first, others, rfl⟩ := List.exists_cons_of_ne_nil hfront.nonempty
  rintro h
  obtain ⟨rfl, -⟩ := List.cons.inj h
  simp [hfront.digits first (by simp)] at hc

theorem splitSign_of_isWhole (negative : Bool) :
    splitSign ((if negative then ['-'] else []) ++ (front ++ '.' :: back))
      = (negative, front ++ '.' :: back) := by
  cases negative with
  | true => rfl
  | false =>
    unfold splitSign
    split
    next h => exact absurd h (ne_of_isWhole hfront (by decide) _)
    next h => exact absurd h (ne_of_isWhole hfront (by decide) _)
    next => rfl

/-- A word with a point is no integer. -/
theorem integer?_of_point (negative : Bool) :
    integer? ((if negative then ['-'] else []) ++ (front ++ '.' :: back)) = none := by
  have hwhole : wholePart? (front ++ '.' :: back) = none := by
    simp [wholePart?, digits?_of_point hfront]
  have hsign : splitSign ((if negative then ['-'] else []) ++ (front ++ '.' :: back))
      = (negative, front ++ '.' :: back) := splitSign_of_isWhole hfront negative
  have hzero : ∀ c rest, c ≠ '.' → c.isDigit = false →
      (if negative then ['-'] else []) ++ (front ++ '.' :: back) ≠ '0' :: c :: rest := by
    intro c rest hpoint hc h
    cases negative with
    | true => simp at h
    | false =>
      cases front with
      | nil => simp at h
      | cons first others =>
        obtain ⟨rfl, h⟩ := List.cons.inj h
        obtain rfl := hfront.leading others rfl
        obtain ⟨rfl, -⟩ : c = '.' ∧ rest = back := by simpa using h.symm
        exact hpoint rfl
  unfold integer?
  split
  next h => exact absurd h (hzero 'x' _ (by decide) (by decide))
  next h => exact absurd h (hzero 'o' _ (by decide) (by decide))
  next h => exact absurd h (hzero 'b' _ (by decide) (by decide))
  next => simp [hsign, hwhole]

include hdigits

theorem chars_of_point : ∀ c ∈ front ++ '.' :: back, c.isDigit ∨ c = '.' := by
  intro c hc
  rcases List.mem_append.mp hc with hc | hc
  · exact .inl (hfront.digits c hc)
  · rcases List.mem_cons.mp hc with rfl | hc
    · exact .inr rfl
    · exact .inl (hdigits c hc)

/-- A sign and digits with a point among them make a word. -/
theorem isWord_of_point (negative : Bool) :
    IsWord ((if negative then ['-'] else []) ++ (front ++ '.' :: back)) := by
  have hchar := chars_of_point hfront hdigits
  have hword : ∀ c ∈ front ++ '.' :: back, isWordChar c := by
    intro c hc
    rcases hchar c hc with hc | rfl
    · exact isWordChar_of_isDigit hc
    · decide
  have hhyphen : '-' ∉ front ++ '.' :: back := fun hmem => by
    rcases hchar '-' hmem with h | h <;> revert h <;> decide
  cases negative with
  | true =>
    refine ⟨by simp, fun c hc => ?_, hhyphen⟩
    rcases List.mem_cons.mp hc with rfl | hc
    · decide
    · exact hword c hc
  | false => exact ⟨by simp, hword, fun hmem => hhyphen (List.mem_of_mem_tail hmem)⟩

include hback

/-- Digits with a point among them are read as a decimal. -/
theorem decimal?_of_point : decimal? (front ++ '.' :: back)
    = some ⟨Nat.ofDigitChars 10 (front ++ back) 0, -back.length⟩ := by
  have hmark : ∀ c ∈ front ++ '.' :: back, (!(c == 'e' || c == 'E')) = true := by
    intro c hc
    have hchar := chars_of_point hfront hdigits c hc
    simp only [Bool.not_eq_true', Bool.or_eq_false_iff, beq_eq_false_iff_ne]
    constructor <;> rintro rfl <;> revert hchar <;> decide
  have hpoint : ∀ c ∈ front, (c != '.') = true := by
    intro c hc
    simp only [bne_iff_ne]
    rintro rfl
    exact absurd (hfront.digits '.' hc) (by decide)
  have hwhole : (front ++ '.' :: back).takeWhile (· != '.') = front := by
    rw [List.takeWhile_append_of_pos hpoint]
    simp
  have hfraction : (front ++ '.' :: back).dropWhile (· != '.') = '.' :: back := by
    rw [List.dropWhile_append_of_pos hpoint]
    simp
  have hnone : (front ++ '.' :: back).any (fun c => c == 'e' || c == 'E') = false := by
    refine List.any_eq_false.mpr fun c hc => ?_
    simpa using hmark c hc
  simp only [decimal?, List.takeWhile_eq_self_iff.mpr hmark, List.dropWhile_eq_nil_iff.mpr hmark,
    hwhole, hfraction, wholePart?_of_isWhole hfront, digits?_of_isDigit hback hdigits, hnone]
  simp [hback, ← List.map_append, ofDigits_map]

/-- Digits with a point among them are read as the double that is nearest to them. -/
theorem value?_of_point (negative : Bool) {x : Float}
    (hx : (if negative then -Decimal.toFloat ⟨Nat.ofDigitChars 10 (front ++ back) 0, -back.length⟩
      else Decimal.toFloat ⟨Nat.ofDigitChars 10 (front ++ back) 0, -back.length⟩) = x)
    (hfinite : (x == 1.0 / 0.0) = false) :
    value? ((if negative then ['-'] else []) ++ (front ++ '.' :: back)) = some (.float x) := by
  have hne : ∀ c rest, c ≠ '-' → c.isDigit = false →
      (if negative then ['-'] else []) ++ (front ++ '.' :: back) ≠ c :: rest := by
    intro c rest hminus hc
    cases negative with
    | true => simp [hminus.symm]
    | false => exact ne_of_isWhole hfront hc rest
  have hfloat : float? ((if negative then ['-'] else []) ++ (front ++ '.' :: back)) = some x := by
    simp only [float?, splitSign_of_isWhole hfront, if_neg (ne_of_isWhole hfront (c := 'i') rfl _),
      if_neg (ne_of_isWhole hfront (c := 'n') rfl _), decimal?_of_point hfront hback hdigits,
      Option.bind_some, hx, hfinite]
    simp
  rw [value?, if_neg (hne 't' _ (by decide) rfl), if_neg (hne 'f' _ (by decide) rfl),
    integer?_of_point hfront negative, hfloat]
  rfl

end

end Toml.Number

/-! ### Doubles -/

namespace Decimal

open Binary

theorem Reads.toRat {front back : List Char} {r : Rat} (h : Reads front back r) :
    Decimal.toRat ⟨Nat.ofDigitChars 10 (front ++ back) 0, -back.length⟩ = r := by
  rw [← h.value, Decimal.toRat, zpow_neg, zpow_natCast, div_eq_mul_inv]

/-- A zero may stand behind the point. -/
theorem Reads.point {front : List Char} {r : Rat} (h : Reads front [] r) :
    Reads front ['0'] r := by
  refine ⟨h.whole, by simp, ?_⟩
  have hvalue := h.value
  rw [List.append_nil] at hvalue
  rw [Nat.ofDigitChars_append, ← hvalue]
  simp [Nat.ofDigitChars]

/-- The digits of a double stand for a number that is read as the double. -/
theorem reads_double {m : Nat} {q : Int} (h : IsDouble m q) {digits : List Char × List Char}
    (hdigits : digits = if m = 0 then (['0'], []) else (shortest m q).positional) :
    ∃ r, Reads digits.1 digits.2 r ∧ ∀ d : Decimal, d.toRat = r →
      d.toFloat = Float.ofBits (bitsOf m q) := by
  -- Zero has no shortest decimal; it is written as it is.
  by_cases hm : m = 0
  · rw [if_pos hm] at hdigits
    subst hdigits
    refine ⟨0, ⟨⟨by simp, by simp, by simp⟩, by simp, by simp [Nat.ofDigitChars]⟩, fun d hd => ?_⟩
    have hzero : d.significand = 0 := by
      have hpow : (10 : Rat) ^ d.exponent ≠ 0 := by positivity
      exact_mod_cast (mul_eq_zero.mp hd).resolve_right hpow
    have hq : q = minExponent := h.leading.resolve_left (by subst hm; decide)
    rw [toFloat_of_zero hzero, hm, hq]
    rfl
  · have hpos : 0 < m := Nat.pos_of_ne_zero hm
    have hround := roundsTo_shortest (q := q) hpos h.bound
    have hsignificand : 0 < (shortest m q).significand := by
      have := roundsTo_pos hpos hround
      by_contra hzero
      simp [toRat, Nat.eq_zero_of_not_pos hzero] at this
    rw [if_neg hm] at hdigits
    subst hdigits
    refine ⟨_, reads_positional hsignificand, fun d hd => ?_⟩
    exact toFloat_of_roundsTo hpos h (hd ▸ hround)

/-- A finite double is written as digits around a point that are nearest to it. -/
theorem displayPoint_of_finite {x : Float} {negative : Bool} {m : Nat} {q : Int}
    (h : decode x = .finite negative m q) : ∃ front back r,
      (displayPoint x).toList = (if negative then ['-'] else []) ++ (front ++ '.' :: back) ∧
      back ≠ [] ∧ Reads front back r ∧
      ∀ d : Decimal, d.toRat = r → d.toFloat = Float.ofBits (bitsOf m q) := by
  obtain ⟨r, hreads, hdouble⟩ := reads_double (unpack_of_decode h).1 rfl
  unfold displayPoint write
  rw [h]
  dsimp only
  -- A whole number is written with a zero behind its point.
  generalize (if m = 0 then (['0'], []) else (shortest m q).positional) = digits at *
  obtain ⟨front, back⟩ := digits
  cases back with
  | nil =>
    refine ⟨front, ['0'], r, ?_, by simp, hreads.point, hdouble⟩
    cases negative <;> simp [fileStyle]
  | cons c back =>
    refine ⟨front, c :: back, r, ?_, by simp, hreads, hdouble⟩
    cases negative <;> simp [fileStyle]

theorem beq_infinity_of_finite {x : Float} {negative : Bool} {m : Nat} {q : Int}
    (h : decode x = .finite negative m q) : (x == 1.0 / 0.0) = false := by
  obtain ⟨-, hunpack⟩ := unpack_of_decode h
  have hbeq : (x == 1.0 / 0.0)
      = (x.toModel.unpack.compare (.infinity .positive) == some .eq) := rfl
  rw [hbeq, hunpack, unpacked]
  split <;> rfl

end Decimal

theorem Toml.Value.inline_notANumber : (Value.float (0.0 / 0.0)).Inline := by
  have hchars : (Value.float (0.0 / 0.0)).inline.toList = ['n', 'a', 'n'] := by decide +kernel
  apply Value.inline_of_word
  · rw [hchars]
    exact ⟨by decide, List.all_eq_true.mp rfl, by decide⟩
  · rw [hchars]
    rfl

theorem Toml.Value.inline_infinity (negative : Bool) :
    (Value.float (if negative then -(1.0 / 0.0) else 1.0 / 0.0)).Inline := by
  have hchars : (Value.float (if negative then -(1.0 / 0.0) else 1.0 / 0.0)).inline.toList
      = if negative then ['-', 'i', 'n', 'f'] else ['i', 'n', 'f'] := by
    cases negative <;> decide +kernel
  apply Value.inline_of_word
  · rw [hchars]
    cases negative
    · exact ⟨by decide, List.all_eq_true.mp rfl, by decide⟩
    · exact ⟨by decide, List.all_eq_true.mp rfl, by decide⟩
  · rw [hchars]
    cases negative <;> rfl

/-- **Every double is read back from the text that is written for it.** -/
theorem Toml.Value.inline_float (x : Float) : (Value.float x).Inline := by
  cases hdecode : Binary.decode x with
  | notANumber =>
    rw [Binary.eq_of_notANumber hdecode]
    exact Value.inline_notANumber
  | infinite negative =>
    rw [Binary.eq_of_infinite hdecode]
    exact Value.inline_infinity negative
  | finite negative m q =>
    obtain ⟨front, back, r, hchars, hback, hreads, hdouble⟩ :=
      Decimal.displayPoint_of_finite hdecode
    apply Value.inline_of_word
    · rw [Value.inline, hchars]
      exact isWord_of_point hreads.whole hreads.fraction negative
    · rw [Value.inline, hchars]
      refine value?_of_point hreads.whole hback hreads.fraction negative ?_
        (Decimal.beq_infinity_of_finite hdecode)
      rw [hdouble _ hreads.toRat]
      exact (Binary.eq_of_decode hdecode).symm

end Multipath
