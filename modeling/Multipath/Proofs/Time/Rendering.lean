import Multipath.Proofs.Text.Reading
import Multipath.Time.Text

/-!
# Durations read back

A duration whose seconds fit into 64 bits is read back from its text.

* `Duration.Readable units limit`: durations below `limit` are written in full in these units, and
  each unit is read under its names.
* `Duration.exists_amounts`: the amounts that are read from the parts of a duration add up to it.
* `Duration.parse?_render`: a duration is read back from its text.
-/

namespace Multipath

namespace TimeUnit

/-- Adding up stays within 64 bits as long as the sum does, and what is added in nanoseconds is
less than a second. -/
theorem addNanos?_eq {unit : TimeUnit} {nanos total : Nat}
    (hsmall : unit.nanos < secondNanos → nanos ≤ secondNanos)
    (hsum : total + nanos < bound * secondNanos) :
    unit.addNanos? nanos total = some (total + nanos) := by
  have hrest : total % secondNanos < secondNanos := Nat.mod_lt _ (by decide)
  have hfits : ¬(unit.nanos < secondNanos ∧ bound ≤ total % secondNanos + nanos) := by
    rintro ⟨hunit, hbound⟩
    have := hsmall hunit
    simp only [secondNanos, bound] at *
    omega
  have hseconds : (total + nanos) / secondNanos < bound :=
    Nat.div_lt_of_lt_mul (by rwa [Nat.mul_comm])
  simp [addNanos?, hfits, hseconds]

theorem add?_whole {unit : TimeUnit} {whole total : Nat}
    (hsmall : unit.nanos < secondNanos → whole * unit.nanos ≤ secondNanos)
    (hsum : total + whole * unit.nanos < bound * secondNanos) :
    unit.add? ⟨whole, 0, 0⟩ total = some (total + whole * unit.nanos) := by
  have hnone : unit.addNanos? 0 (total + whole * unit.nanos) = some (total + whole * unit.nanos) :=
    addNanos?_eq (fun _ => Nat.zero_le _) hsum
  simp [add?, addNanos?_eq hsmall hsum, fraction?, hnone]

end TimeUnit

namespace Duration

/-! ### One amount -/

theorem ofDigits_toDigits (n : Nat) : ofDigits (Nat.toDigits 10 n) = n :=
  Nat.ofDigitChars_ten_toDigits

theorem ofDigits_nil : ofDigits [] = 0 :=
  rfl

/-- A name under which a unit is read. -/
structure Names (name : String) (unit : TimeUnit) : Prop where
  found : TimeUnit.ofName? name = some unit
  letters : ∀ c ∈ name.toList, isUnitLetter c ∧ !(c.isDigit || Text.isBlank c) ∧ c ≠ '.'
  nonempty : name.toList ≠ []

instance (name : String) (unit : TimeUnit) : Decidable (Names name unit) :=
  decidable_of_iff (TimeUnit.ofName? name = some unit ∧
      name.toList.all (fun c => isUnitLetter c && (!(c.isDigit || Text.isBlank c) && c != '.')) ∧
      name.toList ≠ [])
    ⟨fun ⟨found, letters, nonempty⟩ => ⟨found, by simpa using letters, nonempty⟩,
      fun ⟨found, letters, nonempty⟩ => ⟨found, by simpa using letters, nonempty⟩⟩

/-- Digits behind blanks are taken up to the name of a unit. -/
theorem digits_append {blanks name rest : List Char} (n : Nat)
    (hblanks : ∀ c ∈ blanks, c = ' ')
    (hname : ∀ c ∈ (name ++ rest).head?, !(c.isDigit || Text.isBlank c)) :
    digits (blanks ++ (Nat.toDigits 10 n ++ (name ++ rest)))
      = some (Nat.toDigits 10 n, name ++ rest) := by
  have hdigit : ∀ c ∈ Nat.toDigits 10 n, c.isDigit := fun c hc =>
    Nat.isDigit_of_mem_toDigits (by decide) (by decide) hc
  have hrun : ∀ c ∈ blanks ++ Nat.toDigits 10 n, c.isDigit || Text.isBlank c := by
    intro c hc
    rcases List.mem_append.mp hc with hc | hc
    · rw [hblanks c hc]
      decide
    · simp [hdigit c hc]
  have hfilter : (blanks ++ Nat.toDigits 10 n).filter (·.isDigit) = Nat.toDigits 10 n := by
    rw [List.filter_append, List.filter_eq_nil_iff.mpr, List.filter_eq_self.mpr hdigit,
      List.nil_append]
    intro c hc
    rw [hblanks c hc]
    decide
  have hspan := Reader.span_append hrun fun c hc => by simpa using hname c hc
  rw [List.append_assoc] at hspan
  simp [digits, hspan, hfilter, -List.filter_append]

/-- An amount without a fraction is read in front of anything but a letter. -/
theorem amountOfUnit_append {blanks rest : List Char} {name : String} {unit : TimeUnit} {n : Nat}
    (hblanks : ∀ c ∈ blanks, c = ' ') (hname : Names name unit) (hn : n < TimeUnit.bound)
    (hrest : ∀ c ∈ rest.head?, isUnitLetter c = false) :
    amountOfUnit (blanks ++ (Nat.toDigits 10 n ++ (name.toList ++ rest)))
      = some (some (⟨n, 0, 0⟩, unit), rest) := by
  obtain ⟨first, others, hchars⟩ := List.exists_cons_of_ne_nil hname.nonempty
  obtain ⟨-, hfirst, hpoint⟩ := hname.letters first (by simp [hchars])
  have hdigits : digits (blanks ++ (Nat.toDigits 10 n ++ (name.toList ++ rest)))
      = some (Nat.toDigits 10 n, name.toList ++ rest) :=
    digits_append n hblanks (by simpa [hchars] using hfirst)
  have hfraction : Reader.text "." (name.toList ++ rest) = none :=
    Reader.text_of_head_ne "." '.' rfl (by simpa [hchars] using hpoint)
  have hletters : Reader.span isUnitLetter (name.toList ++ rest) = some (name.toList, rest) :=
    Reader.span_append (fun c hc => (hname.letters c hc).1) hrest
  simp [amountOfUnit, hdigits, Nat.toDigits_ne_nil, fractionDigits,
    Reader.accepts_of_none hfraction, ofDigits_toDigits, Nat.not_le.mpr hn, hletters, hname.found,
    ofDigits_nil]

/-! ### All amounts -/

/-- Durations below `limit` are written in full in these units, and each unit is read under both
of its names. -/
def Readable : List (Nat × String × String) → Nat → Prop
  | [], limit => limit ≤ 1
  | (size, one, several) :: units, limit =>
    (∃ unit ∈ TimeUnit.all, unit.nanos = size ∧ Names one unit ∧ Names several unit) ∧ 0 < size ∧
      (size < TimeUnit.secondNanos → limit ≤ TimeUnit.secondNanos) ∧ Readable units size

/-- The text of parts, each behind a blank. -/
def spaced (parts : List String) : List Char := parts.flatMap fun part => ' ' :: part.toList

theorem toList_intercalate (parts : List String) :
    (" ".intercalate parts).toList = (spaced parts).tail := by
  induction parts with
  | nil => simp [spaced]
  | cons part parts ih =>
    cases parts with
    | nil => simp [spaced]
    | cons next parts =>
      simp only [String.toList_intercalate, List.map_cons] at ih ⊢
      rw [List.intercalate_cons_cons, ih]
      simp [spaced]

theorem spaced_head (parts : List String) :
    ∀ c ∈ (spaced parts).head?, isUnitLetter c = false := by
  cases parts with
  | nil => simp [spaced]
  | cons part parts =>
    simp only [spaced, List.flatMap_cons, List.cons_append, List.head?_cons, Option.mem_some_iff]
    rintro c rfl
    decide

/-- The amount of a unit in which a duration is written fits into 64 bits. -/
theorem whole_lt {nanos size limit : Nat}
    (hsecond : size < TimeUnit.secondNanos → limit ≤ TimeUnit.secondNanos) (hnanos : nanos < limit)
    (hsum : nanos < TimeUnit.bound * TimeUnit.secondNanos) : nanos / size < TimeUnit.bound := by
  rcases Nat.lt_or_ge size TimeUnit.secondNanos with hlt | hge
  · have := hsecond hlt
    have := Nat.div_le_self nanos size
    simp only [TimeUnit.secondNanos, TimeUnit.bound] at *
    omega
  · apply Nat.div_lt_of_lt_mul
    have := Nat.mul_le_mul_right TimeUnit.bound hge
    rw [Nat.mul_comm TimeUnit.bound] at hsum
    omega

theorem amountOfUnit_nil : amountOfUnit [] = some (none, []) := by
  simp [amountOfUnit, digits, Reader.span, Reader.finish]

/-- The text of the first part, with or without a blank in front, is read as its amount. -/
theorem repeats_part {units : List (Nat × String × String)} {one several : String}
    {unit : TimeUnit} {nanos : Nat} {amounts : List (TimeAmount × TimeUnit)}
    (hone : Names one unit) (hseveral : Names several unit) (hzero : nanos / unit.nanos ≠ 0)
    (hwhole : nanos / unit.nanos < TimeUnit.bound)
    (hread : Reader.Repeats amountOfUnit amounts (spaced (parts units (nanos % unit.nanos))) [])
    (text : List Char)
    (htext : text = spaced (parts ((unit.nanos, one, several) :: units) nanos) ∨
      text = (spaced (parts ((unit.nanos, one, several) :: units) nanos)).tail) :
    Reader.Repeats amountOfUnit ((⟨nanos / unit.nanos, 0, 0⟩, unit) :: amounts) text [] := by
  have hname : Names (if nanos / unit.nanos = 1 then one else several) unit := by
    split
    · exact hone
    · exact hseveral
  have hamount := fun (blanks : List Char) (hblanks : ∀ c ∈ blanks, c = ' ') =>
    amountOfUnit_append hblanks hname hwhole (spaced_head (parts units (nanos % unit.nanos)))
  have hlength := Nat.length_toDigits_pos (b := 10) (n := nanos / unit.nanos)
  refine .more ?_ ?_ hread
  · rcases htext with rfl | rfl
    · simpa [parts, hzero, spaced, Nat.toString_eq_ofList_toDigits] using hamount [' '] (by simp)
    · simpa [parts, hzero, spaced, Nat.toString_eq_ofList_toDigits] using hamount [] (by simp)
  · rcases htext with rfl | rfl <;> simp [parts, hzero, spaced] <;> omega

/-- The amounts read from the parts of a duration, with or without a blank in front, add up to
it. -/
theorem exists_amounts {units : List (Nat × String × String)} {limit nanos : Nat} (total : Nat)
    (hunits : Readable units limit) (hnanos : nanos < limit)
    (hsum : total + nanos < TimeUnit.bound * TimeUnit.secondNanos) :
    ∃ amounts : List (TimeAmount × TimeUnit),
      (∀ text, text = spaced (parts units nanos) ∨ text = (spaced (parts units nanos)).tail →
        Reader.Repeats amountOfUnit amounts text []) ∧
      amounts.foldlM (fun total amount => TimeUnit.add? amount.2 amount.1 total) total
        = some (total + nanos) := by
  induction units generalizing limit nanos total with
  | nil =>
    obtain rfl : nanos = 0 := by
      simp only [Readable] at hunits
      omega
    refine ⟨[], ?_, rfl⟩
    rintro text (rfl | rfl) <;> exact .done amountOfUnit_nil
  | cons u units ih =>
    obtain ⟨size, one, several⟩ := u
    obtain ⟨⟨unit, -, rfl, hone, hseveral⟩, hpos, hsecond, hlater⟩ := hunits
    have hsplit : nanos / unit.nanos * unit.nanos + nanos % unit.nanos = nanos :=
      Nat.div_add_mod' _ _
    -- What is left over is below this unit, so the smaller ones take it.
    obtain ⟨amounts, hread, hadd⟩ := ih (total + nanos / unit.nanos * unit.nanos) hlater
      (Nat.mod_lt nanos hpos) (by omega)
    rw [Nat.add_assoc, hsplit] at hadd
    by_cases hzero : nanos / unit.nanos = 0
    · exact ⟨amounts, by simpa [parts, hzero] using hread, by simpa [hzero] using hadd⟩
    · have hwhole : nanos / unit.nanos < TimeUnit.bound :=
        whole_lt hsecond hnanos (by omega)
      refine ⟨(⟨nanos / unit.nanos, 0, 0⟩, unit) :: amounts,
        repeats_part hone hseveral hzero hwhole (hread _ (.inl rfl)), ?_⟩
      have hsmall : unit.nanos < TimeUnit.secondNanos →
          nanos / unit.nanos * unit.nanos ≤ TimeUnit.secondNanos := fun hlt => by
        have := hsecond hlt
        omega
      have hsum : total + nanos / unit.nanos * unit.nanos
          < TimeUnit.bound * TimeUnit.secondNanos := by omega
      have hfirst := TimeUnit.add?_whole hsmall hsum
      simpa [hfirst] using hadd

/-- The characters of the parts of a duration. -/
theorem mem_spaced {units : List (Nat × String × String)} {limit : Nat}
    (hunits : Readable units limit) (nanos : Nat) :
    ∀ c ∈ spaced (parts units nanos), c = ' ' ∨ c.isDigit ∨ isUnitLetter c := by
  induction units generalizing limit nanos with
  | nil => simp [parts, spaced]
  | cons u units ih =>
    obtain ⟨size, one, several⟩ := u
    obtain ⟨⟨unit, -, rfl, hone, hseveral⟩, -, -, hlater⟩ := hunits
    have hrest := ih hlater (nanos % unit.nanos)
    have hname : ∀ c ∈ (if nanos / unit.nanos = 1 then one else several).toList,
        isUnitLetter c := by
      split
      · exact fun c hc => (hone.letters c hc).1
      · exact fun c hc => (hseveral.letters c hc).1
    by_cases hzero : nanos / unit.nanos = 0
    · simpa [parts, hzero] using hrest
    · intro c hc
      rw [parts, if_neg hzero, spaced, List.flatMap_cons, String.toList_append,
        Nat.toString_eq_ofList_toDigits, String.toList_ofList] at hc
      simp only [List.mem_cons, List.cons_append, List.mem_append] at hc
      rcases hc with rfl | (hc | hc) | hc
      · exact .inl rfl
      · exact .inr (.inl (Nat.isDigit_of_mem_toDigits (by decide) (by decide) hc))
      · exact .inr (.inr (hname c hc))
      · exact hrest c hc

theorem readable_writtenUnits :
    Readable writtenUnits (TimeUnit.bound * TimeUnit.secondNanos) := by
  simp only [writtenUnits, Readable]
  decide

/-- A duration is written with digits, letters and blanks. -/
theorem mem_render {d : Duration} {c : Char} (h : c ∈ d.render.toList) :
    c = ' ' ∨ c.isDigit ∨ isUnitLetter c := by
  unfold render at h
  split at h
  · obtain rfl | rfl : c = '0' ∨ c = 's' := by simpa using h
    · exact .inr (.inl rfl)
    · exact .inr (.inr rfl)
  · rw [toList_intercalate] at h
    exact mem_spaced readable_writtenUnits _ c (List.mem_of_mem_tail h)

/-- **A duration is read back from its text, if its seconds fit into 64 bits.** -/
theorem parse?_render {d : Duration} (h : d.nanos < TimeUnit.bound * TimeUnit.secondNanos) :
    parse? d.render = some d := by
  obtain ⟨nanos⟩ := d
  by_cases hzero : nanos = 0
  · subst hzero
    decide
  · obtain ⟨amounts, hread, hadd⟩ := exists_amounts 0 readable_writtenUnits h
      (by rw [Nat.zero_add]; exact h)
    have hmany := (hread _ (.inr rfl)).many
    rw [← toList_intercalate] at hmany
    have hne : " ".intercalate (parts writtenUnits nanos) ≠ "0" := fun heq => by
      rw [heq] at hmany
      exact absurd hmany (by rw [show Reader.many amountOfUnit "0".toList = none by decide]; simp)
    have hparse : (Reader.many amountOfUnit).parse (" ".intercalate (parts writtenUnits nanos))
        = some amounts := by
      simp only [Reader.parse, hmany]
    cases amounts with
    | nil => exact absurd (by simpa [eq_comm] using hadd) hzero
    | cons amount amounts =>
      rw [render, if_neg (by simpa [isZero] using hzero), parse?, if_neg hne, hparse]
      simp only [total?, hadd, Nat.zero_add, Option.map_some]

end Duration

end Multipath
