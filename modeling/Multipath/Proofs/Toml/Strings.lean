import Multipath.Proofs.Text.Reading
import Multipath.Toml.Quoted

/-!
# Strings read back

A string without control characters, except for tabs, is read back from the form in which it is
written. Each form is read character by character: what is written for a character is read as that
character, whatever follows.

* `Quoted.Plain`: a string without control characters.
* `Quoted.line_append`, `Quoted.block_append`: the strings on one line and over several.
* `Quoted.read_write`: a string is read back from what is written for it.
-/

namespace Multipath.Toml.Quoted

open Reader

/-- A string without control characters, except for tabs. -/
def Plain (text : String) : Prop := ∀ c ∈ text.toList, isControl c = false

instance (text : String) : Decidable (Plain text) :=
  decidable_of_iff (text.toList.all (!isControl ·)) (by simp [Plain])

/-! ### Characters -/

theorem ne_newline_of_plain {c : Char} (h : isControl c = false) : c ≠ '\n' ∧ c ≠ '\r' := by
  constructor <;> rintro rfl <;> revert h <;> decide

theorem newline_of_head_ne {rest : List Char}
    (h : ∀ c ∈ rest.head?, c ≠ '\n' ∧ c ≠ '\r') : newline rest = none := by
  have hline : rest.head? ≠ some '\n' := fun heq => (h _ heq).1 rfl
  have hreturn : rest.head? ≠ some '\r' := fun heq => (h _ heq).2 rfl
  simp [newline, text_of_head_ne "\n" '\n' rfl hline, text_of_head_ne "\r\n" '\r' rfl hreturn]

/-- A character that is no control character is written as it is, but for tabs and backslashes. -/
theorem encode_of_plain {c : Char} {multiline : Bool} (h : isControl c = false) :
    encode multiline c =
      if c = '\t' then ['\\', 't'] else if c = '\\' then ['\\', '\\'] else [c] := by
  unfold encode
  split <;> simp_all [isControl]

/-- What is written for a character within double quotes on one line. -/
def escaped (c : Char) : List Char := if c = '"' then ['\\', '"'] else encode false c

theorem encodeAll_false (run : Nat) (chars : List Char) :
    encodeAll false run chars = chars.flatMap escaped := by
  induction chars generalizing run with
  | nil => rfl
  | cons c chars ih => by_cases hc : c = '"' <;> simp [encodeAll, quotesInRow, escaped, hc, ih]

/-! ### Strings on one line -/

/-- A string on one line is read from what is shown for its characters, if each of them is read
from what is shown for it. -/
theorem line_append {quote : Char} {raw : Bool} {shown : Char → List Char} {chars : List Char}
    (rest : List Char)
    (hshown : ∀ c ∈ chars,
      (shown c = [c] ∧ c ≠ quote ∧ (c = '\\' → raw) ∧ isControl c = false) ∨
      ∃ e, shown c = ['\\', e] ∧ raw = false ∧ quote ≠ '\\' ∧
        ∀ rest, escape (e :: rest) = some (c, rest)) :
    line quote raw (chars.flatMap shown ++ quote :: rest) = some (chars, rest) := by
  refine (Repeats.of_shown (by simp) fun c hc => ?_).many
  rcases hshown c hc with ⟨hself, hquote, hraw, hcontrol⟩ | ⟨e, hescape, rfl, hquote, hread⟩
  · have hslash : ¬(c = '\\' ∧ raw = false) := fun ⟨hslash, h⟩ => by simp [hraw hslash] at h
    simp [hself, hquote, hslash, hcontrol]
  · simp [hescape, hquote.symm, hread]

theorem line_escaped {chars : List Char} (rest : List Char)
    (hplain : ∀ c ∈ chars, isControl c = false) :
    line '"' false (chars.flatMap escaped ++ '"' :: rest) = some (chars, rest) := by
  refine line_append rest fun c hc => ?_
  have hcontrol := hplain c hc
  by_cases hquote : c = '"'
  · exact .inr ⟨'"', by simp [escaped, hquote], rfl, by decide, fun _ => by simp [escape, hquote]⟩
  by_cases htab : c = '\t'
  · exact .inr ⟨'t', by subst htab; rfl, rfl, by decide, fun _ => by simp [escape, htab]⟩
  by_cases hslash : c = '\\'
  · exact .inr ⟨'\\', by subst hslash; rfl, rfl, by decide, fun _ => by simp [escape, hslash]⟩
  · exact .inl ⟨by simp [escaped, encode_of_plain hcontrol, hquote, htab, hslash], hquote,
      fun h => absurd h hslash, hcontrol⟩

theorem line_raw {chars : List Char} (rest : List Char) (hquote : '\'' ∉ chars)
    (hplain : ∀ c ∈ chars, isControl c = false) :
    line '\'' true (chars ++ '\'' :: rest) = some (chars, rest) := by
  have hread : line '\'' true (chars.flatMap (fun c => [c]) ++ '\'' :: rest) = some (chars, rest) :=
    line_append rest fun c hc =>
      .inl ⟨rfl, ne_of_mem_of_not_mem hc hquote, fun _ => rfl, hplain c hc⟩
  simpa using hread

/-! ### Strings over several lines -/

/-- No more than two quotes follow each other. -/
def Sparse (quote : Char) (chars : List Char) : Prop :=
  ∀ suffix, suffix <:+ chars → (suffix.takeWhile (· == quote)).length ≤ 2

theorem Sparse.tail {quote c : Char} {chars : List Char} (h : Sparse quote (c :: chars)) :
    Sparse quote chars :=
  fun suffix hsuffix => h suffix (hsuffix.trans (List.suffix_cons _ _))

/-- Behind a run of `current` quotes, the longest run bounds what that run grows to, and every later
run. -/
theorem run_le_of_fold {quote : Char} {chars : List Char} {longest current bound : Nat}
    (h : (chars.foldl (fun (longest, current) d =>
      if d = quote then (max longest (current + 1), current + 1) else (longest, 0))
      (longest, current)).1 ≤ bound) (hcurrent : current ≤ longest) :
    longest ≤ bound ∧ current + (chars.takeWhile (· == quote)).length ≤ bound ∧
      ∀ suffix, suffix <:+ chars → (suffix.takeWhile (· == quote)).length ≤ bound := by
  induction chars generalizing longest current with
  | nil =>
    have hlongest : longest ≤ bound := h
    simpa [hlongest] using Nat.le_trans hcurrent hlongest
  | cons c chars ih =>
    rw [List.foldl_cons] at h
    dsimp only at h
    by_cases hc : c = quote
    · rw [if_pos hc] at h
      obtain ⟨hlongest, hrun, hlater⟩ := ih h (Nat.le_max_right ..)
      refine ⟨by omega, by simp [hc]; omega, fun suffix hsuffix => ?_⟩
      rcases List.suffix_cons_iff.mp hsuffix with rfl | hsuffix
      · simp [hc]
        omega
      · exact hlater suffix hsuffix
    · rw [if_neg hc] at h
      obtain ⟨hlongest, -, hlater⟩ := ih h (Nat.zero_le _)
      refine ⟨hlongest, by simpa [hc] using Nat.le_trans hcurrent hlongest,
        fun suffix hsuffix => ?_⟩
      rcases List.suffix_cons_iff.mp hsuffix with rfl | hsuffix
      · simp [hc]
      · exact hlater suffix hsuffix

theorem sparse_of_longestRun {quote : Char} {chars : List Char} (h : longestRun quote chars ≤ 2) :
    Sparse quote chars :=
  (run_le_of_fold h (Nat.le_refl 0)).2.2

/-- What is written for a character of a string over several lines. -/
def tabbed (raw : Bool) (c : Char) : List Char := if c = '\t' ∧ !raw then ['\\', 't'] else [c]

/-- Behind a run of quotes that stays below three, no quote is escaped. -/
theorem encodeAll_true {chars : List Char} (hslash : '\\' ∉ chars)
    (hplain : ∀ c ∈ chars, isControl c = false) (hsparse : Sparse '"' chars) (run : Nat)
    (hrun : run + (chars.takeWhile (· == '"')).length ≤ 2) :
    encodeAll true run chars = chars.flatMap (tabbed false) := by
  induction chars generalizing run with
  | nil => rfl
  | cons c chars ih =>
    obtain ⟨hc, hrest⟩ : c ≠ '\\' ∧ '\\' ∉ chars := by simpa [eq_comm] using hslash
    obtain ⟨hcontrol, hplain⟩ := List.forall_mem_cons.mp hplain
    have ih := ih hrest hplain hsparse.tail
    have hnext := hsparse.tail chars (List.suffix_refl _)
    by_cases hquote : c = '"'
    · subst hquote
      have : run + 1 + (chars.takeWhile (· == '"')).length ≤ 2 := by
        simp at hrun
        omega
      simp [encodeAll, quotesInRow, show run < 2 by omega, tabbed, ih (run + 1) this]
    · rw [List.flatMap_cons, ← ih 0 (by omega)]
      simp [encodeAll, hquote, encode_of_plain hcontrol, tabbed, hc]

theorem tabbed_cases (raw : Bool) (c : Char) :
    tabbed raw c = ['\\', 't'] ∨ tabbed raw c = [c] := by
  unfold tabbed
  split <;> simp

theorem tabbed_ne {quote c : Char} (raw : Bool) (hquote : quote ≠ '\\') (hc : c ≠ quote) :
    ∃ first others, tabbed raw c = first :: others ∧ first ≠ quote := by
  rcases tabbed_cases raw c with h | h
  · exact ⟨'\\', ['t'], h, hquote.symm⟩
  · exact ⟨c, [], h, hc⟩

theorem tabbed_quote {quote : Char} (raw : Bool) (htab : quote ≠ '\t') :
    tabbed raw quote = [quote] := by
  simp [tabbed, htab]

/-- A run of quotes ends before the closing delimiter, or goes on into it. -/
theorem run_tabbed {quote : Char} (raw : Bool) (chars : List Char) {rest : List Char}
    (hquote : quote ≠ '\\') (htab : quote ≠ '\t') (hrest : rest.head? ≠ some quote) :
    ((chars.flatMap (tabbed raw) ++ quote :: quote :: quote :: rest).takeWhile
        (· == quote)).length = (chars.takeWhile (· == quote)).length ∨
      ((chars.flatMap (tabbed raw) ++ quote :: quote :: quote :: rest).takeWhile
        (· == quote)).length = (chars.takeWhile (· == quote)).length + 3 := by
  induction chars with
  | nil =>
    cases rest with
    | nil => simp
    | cons c rest => simp_all
  | cons c chars ih =>
    by_cases hc : c = quote
    · subst hc
      simp only [List.flatMap_cons, tabbed_quote raw htab, List.cons_append, List.nil_append,
        List.takeWhile_cons, beq_self_eq_true, if_true, List.length_cons] at ih ⊢
      omega
    · obtain ⟨first, others, hfirst, hne⟩ := tabbed_ne raw hquote hc
      simp [hfirst, hne, hc]

/-- A quote in a run of up to five, other than three, stands for itself. -/
theorem piece_quote {quote : Char} {raw : Bool} {rest : List Char}
    (hrun : ((quote :: rest).takeWhile (· == quote)).length ≤ 5)
    (hne : ((quote :: rest).takeWhile (· == quote)).length ≠ 3) :
    piece quote raw (quote :: rest) = some (some [quote], rest) := by
  have hpos : 0 < ((quote :: rest).takeWhile (· == quote)).length := by simp
  simp only [piece, bind_apply, get_apply, Option.bind_some]
  generalize ((quote :: rest).takeWhile (· == quote)).length = run at *
  obtain rfl | rfl | rfl | rfl : run = 1 ∨ run = 2 ∨ run = 4 ∨ run = 5 := by omega
  all_goals rfl

/-- Three quotes close the string. -/
theorem piece_close {quote : Char} {raw : Bool} {rest : List Char}
    (hrest : rest.head? ≠ some quote) :
    piece quote raw (quote :: quote :: quote :: rest) = some (none, rest) := by
  have hrun : ((quote :: quote :: quote :: rest).takeWhile (· == quote)).length = 3 := by
    cases rest <;> simp_all
  simp only [piece, bind_apply, get_apply, Option.bind_some, hrun]
  rfl

/-- Any other character is read from what is written for it. -/
theorem piece_tabbed {quote c : Char} {raw : Bool} (rest : List Char) (hquote : quote ≠ '\\')
    (hc : c ≠ quote) (hslash : c = '\\' → raw) (hcontrol : isControl c = false) :
    piece quote raw (tabbed raw c ++ rest) = some (some [c], rest) := by
  obtain ⟨first, others, hfirst, hne⟩ := tabbed_ne raw hquote hc
  have hrun : ((tabbed raw c ++ rest).takeWhile (· == quote)).length = 0 := by simp [hfirst, hne]
  simp only [piece, bind_apply, get_apply, Option.bind_some, hrun]
  by_cases htab : c = '\t' ∧ !raw
  · obtain ⟨rfl, hraw⟩ := htab
    obtain rfl : raw = false := by simpa using hraw
    rfl
  · have hshown : tabbed raw c = [c] := if_neg htab
    have hself : ¬(c = '\\' ∧ raw = false) := fun ⟨hback, hraw⟩ => by simp [hslash hback] at hraw
    have hnewline : newline (c :: rest) = none :=
      newline_of_head_ne (by simpa using ne_newline_of_plain hcontrol)
    simp [hshown, hnewline, hself, hcontrol]

/-- A string over several lines is read from what is written for its characters. -/
theorem repeats_tabbed {quote : Char} {raw : Bool} {chars rest : List Char}
    (htab : quote ≠ '\t') (hquote : quote ≠ '\\') (hslash : raw = false → '\\' ∉ chars)
    (hplain : ∀ c ∈ chars, isControl c = false) (hsparse : Sparse quote chars)
    (hrest : rest.head? ≠ some quote) :
    Repeats (piece quote raw) (chars.map ([·]))
      (chars.flatMap (tabbed raw) ++ quote :: quote :: quote :: rest) rest := by
  induction chars with
  | nil => exact .done (piece_close hrest)
  | cons c chars ih =>
    obtain ⟨hcontrol, hplain⟩ := List.forall_mem_cons.mp hplain
    have hlater := ih (fun h => fun hmem => hslash h (by simp [hmem])) hplain hsparse.tail
    rw [List.flatMap_cons, List.append_assoc]
    by_cases hc : c = quote
    · subst hc
      -- A run that goes on into the delimiter has four or five quotes, so it does not begin with it.
      have hrun := run_tabbed raw (c :: chars) hquote htab hrest
      have hfew := hsparse (c :: chars) (List.suffix_refl _)
      have hpos : 0 < ((c :: chars).takeWhile (· == c)).length := by simp
      rw [List.flatMap_cons, tabbed_quote raw htab, List.append_assoc,
        List.singleton_append] at hrun
      rw [tabbed_quote raw htab, List.singleton_append]
      exact .more (piece_quote (by omega) (by omega)) (by simp) hlater
    · obtain ⟨first, others, hfirst, -⟩ := tabbed_ne raw hquote hc
      have hshorter : 0 < (tabbed raw c).length := by simp [hfirst]
      refine .more (piece_tabbed _ hquote hc (fun h => ?_) hcontrol) (by simp; omega) hlater
      cases raw with
      | true => rfl
      | false => exact absurd (by simp [h]) (hslash rfl)

/-- A string over several lines is read from what is written for its characters. -/
theorem block_append {quote : Char} (raw : Bool) {chars rest : List Char}
    (hquote : quote = '"' ∨ quote = '\'') (hslash : raw = false → '\\' ∉ chars)
    (hplain : ∀ c ∈ chars, isControl c = false) (hsparse : Sparse quote chars)
    (hrest : rest.head? ≠ some quote) :
    block quote raw (chars.flatMap (tabbed raw) ++ quote :: quote :: quote :: rest)
      = some (chars, rest) := by
  have htab : quote ≠ '\t' := by rcases hquote with rfl | rfl <;> decide
  have hback : quote ≠ '\\' := by rcases hquote with rfl | rfl <;> decide
  have hread := repeats_tabbed htab hback hslash hplain hsparse hrest
  have hnewline : newline (chars.flatMap (tabbed raw) ++ quote :: quote :: quote :: rest)
      = none := by
    refine newline_of_head_ne ?_
    cases chars with
    | nil => rcases hquote with rfl | rfl <;> simp
    | cons c chars =>
      obtain ⟨hcontrol, -⟩ := List.forall_mem_cons.mp hplain
      have := ne_newline_of_plain hcontrol
      rcases tabbed_cases raw c with h | h <;> simp [h, this]
  have hflat : (chars.map ([·])).flatten = chars := by
    rw [← List.flatMap_def]
    exact List.flatMap_singleton' chars
  simp [block, accepts_of_none hnewline, hread.many, hflat]

/-! ### The written forms -/

theorem text_single (quote : Char) (rest : List Char) (word : String) (h : word.toList = [quote]) :
    Reader.text word (quote :: rest) = some ((), rest) := by
  have := Reader.text_append word rest
  rwa [h] at this

theorem text_triple (quote : Char) (rest : List Char) (word : String)
    (h : word.toList = [quote, quote, quote]) :
    Reader.text word (quote :: quote :: quote :: rest) = some ((), rest) := by
  have := Reader.text_append word rest
  rwa [h] at this

/-- Behind a quote that is not followed by two more there is no delimiter of three. -/
theorem text_triple_eq_none {quote : Char} {rest : List Char} {word : String}
    (h : word.toList = [quote, quote, quote])
    (hrest : rest.head? = some quote → rest.tail.head? ≠ some quote) :
    Reader.text word (quote :: rest) = none := by
  match rest with
  | [] => simp [Reader.text, h]
  | [c] => simp [Reader.text, h]
  | c :: d :: rest =>
    have : quote = c → quote ≠ d := by simpa [eq_comm] using hrest
    simpa [Reader.text, h] using this

theorem escaped_ne (c : Char) : ∃ first others, escaped c = first :: others ∧ first ≠ '"' := by
  unfold escaped
  split
  next => exact ⟨'\\', ['"'], rfl, by decide⟩
  next hc =>
    unfold encode
    split <;> try split
    all_goals exact ⟨_, _, rfl, by first | exact hc | decide⟩

theorem read_double {text : String} {rest : List Char} (hplain : Plain text)
    (hrest : rest.head? ≠ some '"') :
    read ((writeDouble false "" text).toList ++ rest) = some (text, rest) := by
  have hwritten : (writeDouble false "" text).toList ++ rest
      = '"' :: (text.toList.flatMap escaped ++ '"' :: rest) := by
    simp [writeDouble, encodeAll_false]
  have hblock : Reader.text "\"\"\"" ('"' :: (text.toList.flatMap escaped ++ '"' :: rest))
      = none := by
    refine text_triple_eq_none rfl fun h => ?_
    cases hchars : text.toList with
    | nil => simpa using hrest
    | cons c chars =>
      obtain ⟨first, others, hfirst, hne⟩ := escaped_ne c
      simp [hchars, hfirst, hne] at h
  have hsingle : Reader.text "'''" ('"' :: (text.toList.flatMap escaped ++ '"' :: rest)) = none :=
    Reader.text_of_head_ne "'''" '\'' rfl (by simp)
  have hopen := text_single '"' (text.toList.flatMap escaped ++ '"' :: rest) "\"" rfl
  have hline := line_escaped rest hplain
  simp [hwritten, read, readLine, hblock, hsingle, hopen, hline]

theorem read_single {text : String} {rest : List Char} (hplain : Plain text)
    (hquote : '\'' ∉ text.toList) (hne : text.toList ≠ []) :
    read ((writeSingle false "" text).toList ++ rest) = some (text, rest) := by
  have hwritten : (writeSingle false "" text).toList ++ rest
      = '\'' :: (text.toList ++ '\'' :: rest) := by
    simp [writeSingle]
  have hblock : Reader.text "'''" ('\'' :: (text.toList ++ '\'' :: rest)) = none := by
    refine text_triple_eq_none rfl fun h => ?_
    obtain ⟨c, chars, hchars⟩ := List.exists_cons_of_ne_nil hne
    simp_all
  have hopen := text_single '\'' (text.toList ++ '\'' :: rest) "'" rfl
  have hline := line_raw rest hquote hplain
  have hdouble : Reader.text "\"" ('\'' :: (text.toList ++ '\'' :: rest)) = none :=
    Reader.text_of_head_ne "\"" '"' rfl (by simp)
  have hdoubles : Reader.text "\"\"\"" ('\'' :: (text.toList ++ '\'' :: rest)) = none :=
    Reader.text_of_head_ne "\"\"\"" '"' rfl (by simp)
  simp [hwritten, read, readLine, hblock, hdouble, hdoubles, hopen, hline]

theorem read_doubleBlock {text : String} {rest : List Char} (hplain : Plain text)
    (hslash : '\\' ∉ text.toList) (hrun : longestRun '"' text.toList ≤ 2)
    (hrest : rest.head? ≠ some '"') :
    read ((writeDouble true "" text).toList ++ rest) = some (text, rest) := by
  have hsparse := sparse_of_longestRun hrun
  have hencoded := encodeAll_true hslash hplain hsparse 0
    (by simpa using hsparse _ (List.suffix_refl _))
  have hwritten : (writeDouble true "" text).toList ++ rest = '"' :: '"' :: '"' ::
      (text.toList.flatMap (tabbed false) ++ '"' :: '"' :: '"' :: rest) := by
    simp [writeDouble, hencoded]
  have hopen := text_triple '"'
    (text.toList.flatMap (tabbed false) ++ '"' :: '"' :: '"' :: rest) "\"\"\"" rfl
  have hblock := block_append false (.inl rfl) (fun _ => hslash) hplain hsparse hrest
  simp [hwritten, read, hopen, hblock]

theorem read_singleBlock {text : String} {rest : List Char} (hplain : Plain text)
    (hrun : longestRun '\'' text.toList ≤ 2) (hrest : rest.head? ≠ some '\'') :
    read ((writeSingle true "" text).toList ++ rest) = some (text, rest) := by
  have htabbed : text.toList.flatMap (tabbed true) = text.toList := by
    have : tabbed true = fun c => [c] := funext fun c => by simp [tabbed]
    rw [this, List.flatMap_singleton']
  have hwritten : (writeSingle true "" text).toList ++ rest = '\'' :: '\'' :: '\'' ::
      (text.toList.flatMap (tabbed true) ++ '\'' :: '\'' :: '\'' :: rest) := by
    simp [writeSingle, htabbed]
  have hdouble : Reader.text "\"\"\"" ('\'' :: '\'' :: '\'' ::
      (text.toList.flatMap (tabbed true) ++ '\'' :: '\'' :: '\'' :: rest)) = none :=
    Reader.text_of_head_ne "\"\"\"" '"' rfl (by simp)
  have hopen := text_triple '\''
    (text.toList.flatMap (tabbed true) ++ '\'' :: '\'' :: '\'' :: rest) "'''" rfl
  have hblock := block_append true (.inr rfl) (by simp) hplain
    (sparse_of_longestRun hrun) hrest
  simp [hwritten, read, hdouble, hopen, hblock]

/-- **A string without control characters, except for tabs, is read back from what is written for
it**, in front of anything but a quote. -/
theorem read_write {text : String} {rest : List Char} (hplain : Plain text)
    (hrest : ∀ c ∈ rest.head?, c ≠ '"' ∧ c ≠ '\'') :
    read ((write text).toList ++ rest) = some (text, rest) := by
  have hdouble : rest.head? ≠ some '"' := fun h => (hrest _ h).1 rfl
  have hsingle : rest.head? ≠ some '\'' := fun h => (hrest _ h).2 rfl
  have hcontrols : text.toList.any needsEscape = false := by
    simp only [List.any_eq_false, needsEscape]
    intro c hc
    simp [hplain c hc]
  have hlines : text.toList.contains '\n' = false := by
    have hmem : '\n' ∉ text.toList := fun h => (ne_newline_of_plain (hplain _ h)).1 rfl
    simpa using hmem
  unfold write
  simp only [hcontrols, hlines]
  split
  next => exact read_double hplain hdouble
  split
  next h hnot =>
    refine read_single hplain (by simp_all) fun hnil => ?_
    simp [hnil] at h
  split
  next h =>
    exact read_doubleBlock hplain (by simp_all) (by simp_all) hdouble
  split
  next h => exact read_singleBlock hplain (by simp_all) hsingle
  next => exact read_double hplain hdouble

end Multipath.Toml.Quoted
