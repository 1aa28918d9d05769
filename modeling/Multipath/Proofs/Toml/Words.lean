import Mathlib.Algebra.GroupWithZero.Nat
import Multipath.Proofs.Text.Reading
import Multipath.Toml.Document

/-!
# Words read back

A word at the end of a line is read as the boolean or number it stands for, unless it is taken for
a date or a time; those have a hyphen or a colon behind their first digits.

* `Calendar.read_of_word`: a word with no hyphen behind its first character begins no date or time.
* `scalar_word`: a word is read as its value.
* `Number.value?_toDigits`: an integer is read back from its digits.
-/

namespace Multipath.Toml

open Reader

/-! ### Dates and times -/

namespace Calendar

theorem digits_eq_some {n value number : Nat} {text rest : List Char}
    (h : digits n value text = some (number, rest)) :
    ∃ taken, text = taken ++ rest ∧ taken.length = n ∧ ∀ c ∈ taken, c.isDigit := by
  induction n generalizing value text with
  | zero =>
    obtain ⟨-, rfl⟩ : value = number ∧ text = rest := by simpa [digits] using h
    exact ⟨[], rfl, rfl, by simp⟩
  | succ n ih =>
    cases text with
    | nil => cases h
    | cons c text =>
      by_cases hdigit : c.isDigit
      · obtain ⟨taken, rfl, rfl, hdigits⟩ := ih (by simpa [digits, hdigit] using h)
        exact ⟨c :: taken, rfl, rfl, by simpa [hdigit] using hdigits⟩
      · simp [digits, hdigit] at h

/-- Behind digits at the front of a line, the line goes on or ends. -/
theorem head_of_digits {n value number : Nat} {word later rest : List Char} (hn : 0 < n)
    (h : digits n value (word ++ '\n' :: later) = some (number, rest)) :
    ∀ c ∈ rest.head?, c ∈ word.tail ∨ c = '\n' := by
  obtain ⟨taken, htext, rfl, hdigits⟩ := digits_eq_some h
  intro c hc
  rcases List.append_eq_append_iff.mp htext with ⟨beyond, rfl, hend⟩ | ⟨left, rfl, rfl⟩
  · cases beyond with
    | nil =>
      obtain rfl : '\n' :: later = rest := hend
      exact .inr (by simpa [eq_comm] using hc)
    | cons d beyond =>
      obtain ⟨rfl, -⟩ := List.cons.inj hend
      exact absurd (hdigits '\n' (by simp)) (by decide)
  · obtain ⟨first, others, rfl⟩ := List.exists_cons_of_length_pos hn
    cases left with
    | nil => exact .inr (by simpa [eq_comm] using hc)
    | cons d left => simp_all

/-- A reader that wants a certain character behind digits. -/
theorem text_of_digits {n value number : Nat} {word later rest : List Char} (expected : String)
    {mark : Char} (hexpected : expected.toList = [mark]) (hn : 0 < n)
    (h : digits n value (word ++ '\n' :: later) = some (number, rest)) (hword : mark ∉ word.tail)
    (hmark : mark ≠ '\n') : Reader.text expected rest = none := by
  refine text_of_head_ne expected mark hexpected fun hhead => ?_
  rcases head_of_digits hn h mark hhead with hmem | rfl
  · exact hword hmem
  · exact hmark rfl

theorem digits_of_pair {least greatest number : Nat} {text rest : List Char}
    (h : pair least greatest text = some (number, rest)) :
    digits 2 0 text = some (number, rest) := by
  cases hdigits : digits 2 0 text with
  | none =>
    rw [pair, bind_of_none hdigits] at h
    cases h
  | some taken =>
    rw [pair, bind_of_some hdigits, ite_apply] at h
    split at h
    next => exact h
    next => cases h

theorem date_of_none {text : List Char} (h : digits 4 0 text = none) : date text = none := by
  rw [date, bind_of_none h]

theorem time_of_none {text : List Char} (h : digits 2 0 text = none) : time text = none := by
  rw [time, bind_of_none]
  rw [pair, bind_of_none h]

theorem date_of_word {word : List Char} (h : '-' ∉ word.tail) (later : List Char) :
    date (word ++ '\n' :: later) = none := by
  cases hyear : digits 4 0 (word ++ '\n' :: later) with
  | none => exact date_of_none hyear
  | some taken =>
    have hmark := text_of_digits "-" rfl (by decide) hyear h (by decide)
    rw [date, bind_of_some hyear, bind_of_none hmark]

theorem time_of_word {word : List Char} (h : ':' ∉ word.tail) (later : List Char) :
    time (word ++ '\n' :: later) = none := by
  cases hhour : pair 0 23 (word ++ '\n' :: later) with
  | none => rw [time, bind_of_none hhour]
  | some taken =>
    have hmark := text_of_digits ":" rfl (by decide) (digits_of_pair hhour) h (by decide)
    rw [time, bind_of_some hhour, bind_of_none hmark]

theorem read_of_none {text : List Char} (hdate : date text = none) (htime : time text = none) :
    Calendar.read text = none := by
  have hmoment : moment text = none := by
    rw [moment, orElse_of_none (bind_of_none hdate _), htime]
  rw [Calendar.read, bind_of_some (get_apply text), bind_of_none hmoment]

/-- A word without a hyphen or a colon behind its first character begins no date or time. -/
theorem read_of_word {word : List Char} (hhyphen : '-' ∉ word.tail) (hcolon : ':' ∉ word.tail)
    (later : List Char) : Calendar.read (word ++ '\n' :: later) = none :=
  read_of_none (date_of_word hhyphen later) (time_of_word hcolon later)

/-- What does not begin with a digit is no date or time. -/
theorem read_of_head {c : Char} (h : c.isDigit = false) (text : List Char) :
    Calendar.read (c :: text) = none := by
  have hdigits : ∀ n, digits (n + 1) 0 (c :: text) = none := by simp [digits, h]
  exact read_of_none (date_of_none (hdigits 3)) (time_of_none (hdigits 1))

end Calendar

/-! ### Scalars -/

/-- What is no string, date or time is read as a word. -/
theorem scalar_eq_need {text word rest : List Char} (hquoted : Quoted.read text = none)
    (hcalendar : Calendar.read text = none)
    (hspan : span Number.isWordChar text = some (word, rest)) :
    scalar text = need (Number.value? word) rest := by
  have hstring : (Value.string <$> Quoted.read) text = none := by rw [map_apply, hquoted]; rfl
  have hmoment : (Value.moment <$> Calendar.read) text = none := by rw [map_apply, hcalendar]; rfl
  rw [scalar, orElse_of_none hstring, orElse_of_none hmoment, bind_of_some hspan]

/-- A word that can stand for a boolean or number: it has no hyphen behind its first character. -/
structure IsWord (word : List Char) : Prop where
  nonempty : word ≠ []
  chars : ∀ c ∈ word, Number.isWordChar c
  hyphen : '-' ∉ word.tail

theorem scalar_word {word later : List Char} {v : Value} (hword : IsWord word)
    (hvalue : Number.value? word = some v) :
    scalar (word ++ '\n' :: later) = some (v, '\n' :: later) := by
  obtain ⟨first, others, rfl⟩ := List.exists_cons_of_ne_nil hword.nonempty
  have hfirst := hword.chars first (by simp)
  have hcolon : ':' ∉ (first :: others).tail := fun h =>
    absurd (hword.chars ':' (List.mem_of_mem_tail h)) (by decide)
  have hread := Calendar.read_of_word hword.hyphen hcolon later
  have hquoted : Quoted.read ((first :: others) ++ '\n' :: later) = none := by
    have hdouble : first ≠ '"' := by rintro rfl; revert hfirst; decide
    have hsingle : first ≠ '\'' := by rintro rfl; revert hfirst; decide
    simp [Quoted.read, Quoted.readLine, Reader.text, hdouble.symm, hsingle.symm]
  have hspan : span Number.isWordChar ((first :: others) ++ '\n' :: later)
      = some (first :: others, '\n' :: later) := span_append hword.chars (by simp; decide)
  rw [scalar_eq_need hquoted hread hspan, hvalue, need_some]

/-! ### Integers -/

namespace Number

theorem bounds_of_isDigit {c : Char} (h : c.isDigit) : 48 ≤ c.toNat ∧ c.toNat ≤ 57 := by
  simpa [Char.isDigit, UInt32.le_iff_toNat_le] using h

/-- The value of a decimal digit. -/
def digitOf (c : Char) : Nat := c.toNat - '0'.toNat

theorem digitOf_lt {c : Char} (h : c.isDigit) : digitOf c < 10 := by
  have := bounds_of_isDigit h
  simp [digitOf]
  omega

theorem digitValue?_of_isDigit {c : Char} (h : c.isDigit) :
    digitValue? 10 c = some (digitOf c) := by
  have hbounds := bounds_of_isDigit h
  have hlower : c.toLower = c := by
    have : ¬(c.val ≥ 'A'.val ∧ c.val ≤ 'Z'.val) := by
      simp only [ge_iff_le, UInt32.le_iff_toNat_le]
      rintro ⟨hle, -⟩
      have : 65 ≤ c.toNat := hle
      omega
    exact dif_neg this
  have hrange : (c.isAlphanum : Prop) ∧ c.toNat - '0'.toNat < 10 :=
    ⟨by simp [Char.isAlphanum, h], digitOf_lt h⟩
  simp only [digitValue?, hlower, h, if_true, if_pos hrange, digitOf]

theorem isWordChar_of_isDigit {c : Char} (h : c.isDigit) : isWordChar c := by
  simp [isWordChar, Char.isAlphanum, h]

/-- Digits without underscores are read one by one. -/
theorem digits?_of_isDigit {word : List Char} (hne : word ≠ []) (h : ∀ c ∈ word, c.isDigit) :
    digits? 10 word = some (word.map digitOf) := by
  induction word with
  | nil => exact absurd rfl hne
  | cons c word ih =>
    obtain ⟨hc, hword⟩ := List.forall_mem_cons.mp h
    cases word with
    | nil => simp [digits?, digitValue?_of_isDigit hc]
    | cons d word =>
      have hd : d ≠ '_' := by
        rintro rfl
        exact absurd (hword '_' (by simp)) (by decide)
      rw [digits?]
      · simp [digitValue?_of_isDigit hc, ih (by simp) hword]
      · simp
      · simp [hd]

theorem ofDigits_map (word : List Char) :
    ofDigits 10 (word.map digitOf) = Nat.ofDigitChars 10 word 0 := by
  rw [ofDigits, List.foldl_map]
  rfl

theorem ofDigitChars_lt {word : List Char} (h : ∀ c ∈ word, c.isDigit) :
    Nat.ofDigitChars 10 word 0 < 10 ^ word.length := by
  induction word with
  | nil => simp [Nat.ofDigitChars]
  | cons c word ih =>
    obtain ⟨hc, hword⟩ := List.forall_mem_cons.mp h
    have hvalue : 10 * 0 + (c.toNat - '0'.toNat) ≤ 9 := by
      have : c.toNat - '0'.toNat < 10 := digitOf_lt hc
      omega
    have := Nat.mul_le_mul_left (10 ^ word.length) hvalue
    have := ih hword
    rw [Nat.ofDigitChars_cons, Nat.ofDigitChars_eq_ofDigitChars_zero, List.length_cons,
      Nat.pow_succ]
    omega

/-- Digits of a whole number: no zero stands in front of others. -/
structure IsWhole (word : List Char) : Prop where
  nonempty : word ≠ []
  digits : ∀ c ∈ word, c.isDigit
  leading : ∀ rest, word = '0' :: rest → rest = []

theorem isWhole_toDigits (n : Nat) : IsWhole (Nat.toDigits 10 n) := by
  have hdigits : ∀ c ∈ Nat.toDigits 10 n, c.isDigit := fun _ hc =>
    Nat.isDigit_of_mem_toDigits (by decide) (by decide) hc
  refine ⟨Nat.toDigits_ne_nil, hdigits, fun rest hrest => ?_⟩
  -- A number below `10 ^ k` has no more than `k` digits.
  have hvalue : Nat.ofDigitChars 10 rest 0 = n := by
    rw [← Nat.ofDigitChars_ten_toDigits (n := n), hrest, Nat.ofDigitChars_cons]
    rfl
  have hlt := ofDigitChars_lt fun c (hc : c ∈ rest) => hdigits c (by simp [hrest, hc])
  rw [hvalue] at hlt
  by_cases hpos : 0 < rest.length
  · have := (Nat.length_toDigits_le_iff (by decide) hpos).mpr hlt
    rw [hrest, List.length_cons] at this
    omega
  · simpa using hpos

theorem wholePart?_of_isWhole {word : List Char} (h : IsWhole word) :
    wholePart? word = some (word.map digitOf) := by
  rw [wholePart?, digits?_of_isDigit h.nonempty h.digits]
  split
  next first second others heq =>
    obtain ⟨c, rest, rfl⟩ := List.exists_cons_of_ne_nil h.nonempty
    have := bounds_of_isDigit (h.digits c (by simp))
    simp only [List.map_cons, Option.some.injEq, List.cons.injEq] at heq
    have hzero : c.toNat - '0'.toNat = 0 := heq.1
    obtain rfl : c = '0' := Char.toNat_inj.mp (by simp at hzero ⊢; omega)
    simp [h.leading rest rfl] at heq
  next => rfl

theorem isWord_of_isWhole {word : List Char} (h : IsWhole word) : IsWord word where
  nonempty := h.nonempty
  chars c hc := isWordChar_of_isDigit (h.digits c hc)
  hyphen hmem := absurd (h.digits '-' (List.mem_of_mem_tail hmem)) (by decide)

/-- A whole number that fits into 64 bits with a sign is read from its digits. -/
theorem value?_of_isWhole {word : List Char} (h : IsWhole word)
    (hrange : Nat.ofDigitChars 10 word 0 ≤ 9223372036854775807) :
    value? word = some (.integer (Nat.ofDigitChars 10 word 0)) := by
  have hdigit : ∀ c, c ∈ word → c.isDigit := h.digits
  have hne : ∀ c rest, c.isDigit = false → word ≠ c :: rest := by
    rintro c rest hc rfl
    simp [hdigit c (by simp)] at hc
  have hinteger : integer? word = some (Nat.ofDigitChars 10 word 0 : Int) := by
    have hsign : splitSign word = (false, word) := by
      unfold splitSign
      split
      next => exact absurd rfl (hne '-' _ (by decide))
      next => exact absurd rfl (hne '+' _ (by decide))
      next => rfl
    have hbound : inRange? (Nat.ofDigitChars 10 word 0 : Int)
        = some (Nat.ofDigitChars 10 word 0 : Int) := by
      simp only [inRange?]
      rw [if_pos (by omega)]
    unfold integer?
    split
    · exact absurd (h.leading _ rfl) (by simp)
    · exact absurd (h.leading _ rfl) (by simp)
    · exact absurd (h.leading _ rfl) (by simp)
    · simp [hsign, wholePart?_of_isWhole h, ofDigits_map, hbound]
  simp [value?, hne 't' _ rfl, hne 'f' _ rfl, hinteger]

theorem value?_write (n : Nat) (h : n ≤ 9223372036854775807) :
    value? (write n).toList = some (.integer n) ∧ IsWord (write n).toList := by
  have hchars : (write n).toList = Nat.toDigits 10 n := by
    change (toString n).toList = _
    rw [Nat.toString_eq_ofList_toDigits, String.toList_ofList]
  have hvalue := value?_of_isWhole (isWhole_toDigits n) (by rwa [Nat.ofDigitChars_ten_toDigits])
  rw [Nat.ofDigitChars_ten_toDigits] at hvalue
  rw [hchars]
  exact ⟨hvalue, isWord_of_isWhole (isWhole_toDigits n)⟩

end Number

end Multipath.Toml
