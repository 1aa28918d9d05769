import Multipath.Proofs.Toml.Strings
import Multipath.Proofs.Toml.Words
import Multipath.Toml.Layout

/-!
# Lines read back

The lines of a written file are read one after the other, each as the statement it was written for.

* `Value.Inline`: a value that is read back from a line.
* `Statement.shown`: the line that is written for a statement.
* `Statement.readAll_shown`: the statements of a written file are read back.
-/

namespace Multipath.Toml

open Reader

/-! ### Values -/

/-- A value that is read back at the end of a line. -/
def Value.Inline (v : Value) : Prop :=
  ∀ later, value maxDepth (v.inline.toList ++ '\n' :: later) = some (v, '\n' :: later)

/-- What does not begin with a bracket or brace is a scalar. -/
theorem value_eq_scalar {depth : Nat} {text : List Char} (hbracket : text.head? ≠ some '[')
    (hbrace : text.head? ≠ some '\x7b') : value depth text = scalar text := by
  cases depth with
  | zero => rfl
  | succ depth =>
    simp [value, text_of_head_ne "[" '[' rfl hbracket, text_of_head_ne "\x7b" '\x7b' rfl hbrace]

theorem Value.inline_of_word {v : Value} (hword : IsWord v.inline.toList)
    (hvalue : Number.value? v.inline.toList = some v) : v.Inline := by
  intro later
  obtain ⟨first, others, hchars⟩ := List.exists_cons_of_ne_nil hword.nonempty
  have hfirst := hword.chars first (by simp [hchars])
  rw [value_eq_scalar, scalar_word hword hvalue]
  all_goals
    rw [hchars, List.cons_append, List.head?_cons]
    rintro ⟨rfl⟩
    revert hfirst
    decide

theorem Value.inline_boolean (b : Bool) : (Value.boolean b).Inline := by
  apply Value.inline_of_word
  · cases b
    · exact ⟨by decide, List.all_eq_true.mp rfl, by decide⟩
    · exact ⟨by decide, List.all_eq_true.mp rfl, by decide⟩
  · cases b <;> rfl

theorem Value.inline_natural {n : Nat} (h : n ≤ 9223372036854775807) :
    (Value.integer n).Inline :=
  have ⟨hvalue, hword⟩ := Number.value?_write n h
  Value.inline_of_word hword hvalue

/-- What is read as a string begins with a quote. -/
theorem Quoted.head_of_read {text rest : List Char} {word : String}
    (h : Quoted.read text = some (word, rest)) :
    text.head? = some '"' ∨ text.head? = some '\'' := by
  cases text with
  | nil => simp [Quoted.read, Quoted.readLine, Reader.text] at h
  | cons c text =>
    by_cases hdouble : '"' = c
    · exact .inl (by rw [hdouble]; rfl)
    by_cases hsingle : '\'' = c
    · exact .inr (by rw [hsingle]; rfl)
    · simp [Quoted.read, Quoted.readLine, Reader.text, hdouble, hsingle] at h

theorem Value.inline_string {text : String} (h : Quoted.Plain text) :
    (Value.string text).Inline := by
  intro later
  have hread : Quoted.read ((Quoted.write text).toList ++ '\n' :: later)
      = some (text, '\n' :: later) := Quoted.read_write h (by simp)
  have hhead := Quoted.head_of_read hread
  rw [Value.inline, value_eq_scalar, scalar]
  · simp [hread]
  all_goals rcases hhead with h | h <;> simp [h]

theorem gap_of_head {c : Char} (text : List Char) (hcomment : c ≠ '#') (hspace : ¬Quoted.isSpace c)
    (hline : c ≠ '\n' ∧ c ≠ '\r') : gap (c :: text) = some ((), c :: text) := by
  have hnewline : Quoted.newline (c :: text) = none :=
    Quoted.newline_of_head_ne (by simpa using hline)
  rw [gap, bind_of_some (Repeats.done ?_).many]
  · rfl
  · simp [hspace, hnewline]

theorem value_emptyArray (depth : Nat) (later : List Char) :
    value (depth + 1) ('[' :: ']' :: '\n' :: later) = some (.array [], '\n' :: later) := by
  have hgap : gap (']' :: '\n' :: later) = some ((), ']' :: '\n' :: later) :=
    gap_of_head _ (by decide) (by decide) (by decide)
  have hclose : accepts (Reader.text "]") (']' :: '\n' :: later) = some (true, '\n' :: later) :=
    accepts_append "]" ('\n' :: later)
  have hopen : Reader.text "[" ('[' :: ']' :: '\n' :: later) = some ((), ']' :: '\n' :: later) :=
    text_append "[" (']' :: '\n' :: later)
  have hitems : arrayRest (value depth) (']' :: '\n' :: later)
      = some (.array [], '\n' :: later) := by
    rw [arrayRest, bind_of_some (Repeats.done ?_).many]
    · rfl
    · simp [hgap, hclose]
  rw [value, orElse_of_some]
  rw [bind_of_some hopen, hitems]

theorem Value.inline_emptyArray : (Value.array []).Inline := fun later => by
  have hchars : (Value.array []).inline.toList = ['[', ']'] := by simp [Value.inline, inlineItems]
  rw [hchars]
  exact value_emptyArray 78 later

/-- No value begins with a blank. -/
theorem value_of_isSpace {depth : Nat} {c : Char} {text : List Char} (h : Quoted.isSpace c) :
    value depth (c :: text) = none := by
  have hfirst : (c :: text).head? ≠ some '[' ∧ (c :: text).head? ≠ some '\x7b' ∧
      c.isDigit = false ∧ Number.isWordChar c = false ∧ c ≠ '"' ∧ c ≠ '\'' := by
    obtain rfl | rfl : c = ' ' ∨ c = '\t' := by simpa [Quoted.isSpace] using h
    · exact ⟨by simp, by simp, rfl, rfl, by decide, by decide⟩
    · exact ⟨by simp, by simp, rfl, rfl, by decide, by decide⟩
  obtain ⟨hbracket, hbrace, hdigit, hword, hdouble, hsingle⟩ := hfirst
  have hquoted : Quoted.read (c :: text) = none := by
    simp [Quoted.read, Quoted.readLine, Reader.text, hdouble.symm, hsingle.symm]
  have hspan : span Number.isWordChar (c :: text) = some ([], c :: text) := by
    simp [span, hword]
  rw [value_eq_scalar hbracket hbrace,
    scalar_eq_need hquoted (Calendar.read_of_head hdigit text) hspan]
  rfl

theorem Value.Inline.spaces {v : Value} (h : v.Inline) (later : List Char) :
    skip Quoted.isSpace (' ' :: (v.inline.toList ++ '\n' :: later))
      = some ((), v.inline.toList ++ '\n' :: later) := by
  change skip Quoted.isSpace ([' '] ++ (v.inline.toList ++ '\n' :: later)) = _
  refine skip_append (List.all_eq_true.mp rfl) fun c hc => ?_
  cases hspace : Quoted.isSpace c with
  | false => rfl
  | true =>
    obtain ⟨text, htext⟩ : ∃ text, v.inline.toList ++ '\n' :: later = c :: text :=
      List.head?_eq_some_iff.mp hc
    have hread := h later
    rw [htext, value_of_isSpace hspace] at hread
    cases hread

/-! ### Keys -/

/-- A name that is written without quotes. -/
def Bare (name : String) : Prop := name.toList ≠ [] ∧ ∀ c ∈ name.toList, isBareChar c

instance (name : String) : Decidable (Bare name) :=
  decidable_of_iff (name.toList ≠ [] ∧ name.toList.all isBareChar) (by simp [Bare])

theorem writeKeyPart_of_bare {name : String} (h : Bare name) : writeKeyPart name = name := by
  have hnonempty : name ≠ "" := fun hempty => h.1 (by simp [hempty])
  simp [writeKeyPart, List.all_eq_true.mpr h.2, hnonempty]

theorem not_of_isBareChar {c : Char} (h : isBareChar c) :
    Quoted.isSpace c = false ∧ c ≠ '"' ∧ c ≠ '\'' ∧ c ≠ '[' ∧ c ≠ '#' ∧ c ≠ '\n' ∧ c ≠ '\r' ∧
      c ≠ '\ufeff' := by
  refine ⟨?_, ?_, ?_, ?_, ?_, ?_, ?_, ?_⟩
  · by_cases hspace : c = ' ' ∨ c = '\t'
    · rcases hspace with rfl | rfl <;> revert h <;> decide
    · simpa [Quoted.isSpace] using hspace
  all_goals
    rintro rfl
    revert h
    decide

/-- A name is read up to what follows it and the blanks behind it. -/
theorem keyPart_append {name : String} {rest : List Char} (hname : Bare name) (blanks : List Char)
    (hblanks : ∀ c ∈ blanks, Quoted.isSpace c)
    (hrest : ∀ c ∈ rest.head?, isBareChar c = false ∧ Quoted.isSpace c = false) :
    keyPart (name.toList ++ (blanks ++ rest)) = some (name, rest) := by
  obtain ⟨first, others, hchars⟩ := List.exists_cons_of_ne_nil hname.1
  obtain ⟨hspace, hdouble, hsingle, -⟩ := not_of_isBareChar (hname.2 first (by simp [hchars]))
  have hfront : skip Quoted.isSpace (name.toList ++ (blanks ++ rest))
      = some ((), name.toList ++ (blanks ++ rest)) :=
    skip_of_head (by simpa [hchars] using hspace)
  have hquoted : Quoted.readLine (name.toList ++ (blanks ++ rest)) = none := by
    simp [Quoted.readLine, Reader.text, hchars, hdouble.symm, hsingle.symm]
  have hspan : span isBareChar (name.toList ++ (blanks ++ rest))
      = some (name.toList, blanks ++ rest) := by
    refine span_append hname.2 fun c hc => ?_
    cases blanks with
    | nil => exact (hrest c hc).1
    | cons blank blanks =>
      obtain rfl : blank = c := by simpa using hc
      cases hbare : isBareChar blank with
      | false => rfl
      | true => simp [(not_of_isBareChar hbare).1] at hblanks
  have hback := skip_append hblanks fun c hc => (hrest c hc).2
  have hne : name ≠ "" := fun hempty => hname.1 (by simp [hempty])
  simp [keyPart, spaces, hfront, hquoted, hspan, hback, hne]

theorem toList_writeKey {name : String} {path : List String} (h : ∀ n ∈ name :: path, Bare n) :
    (writeKey (name :: path)).toList = name.toList ++ path.flatMap fun n => '.' :: n.toList := by
  induction path generalizing name with
  | nil => simp [writeKey, writeKeyPart_of_bare (h name (by simp))]
  | cons next path ih =>
    have hnext := ih fun n (hn : n ∈ next :: path) => h n (List.mem_cons_of_mem name hn)
    simp only [writeKey, List.map_cons, String.toList_intercalate] at hnext ⊢
    rw [List.intercalate_cons_cons, hnext, writeKeyPart_of_bare (h name (by simp))]
    simp

theorem key_of_parts {name : String} {path : List String} {text later : List Char}
    (hname : keyPart text = some (name, path.flatMap (fun n => '.' :: n.toList) ++ later))
    (hlength : path.length < maxDepth) (hpath : ∀ n ∈ path, Bare n)
    (hlater : ∀ c ∈ later.head?, isBareChar c = false ∧ Quoted.isSpace c = false ∧ c ≠ '.') :
    key text = some (name :: path, later) := by
  have hpoint : accepts (Reader.text ".") later = some (false, later) :=
    accepts_of_none (text_of_head_ne "." '.' rfl fun h => (hlater _ h).2.2 rfl)
  have hclose : (do
      if ← accepts (Reader.text ".") then some <$> keyPart
      else return none : Reader (Option String)) later = some (none, later) := by
    simp [hpoint]
  have hpart : ∀ n ∈ path, ∀ later : List Char,
      (∀ c ∈ later.head?, isBareChar c = false ∧ Quoted.isSpace c = false) → (do
        if ← accepts (Reader.text ".") then some <$> keyPart
        else return none : Reader (Option String)) ('.' :: n.toList ++ later)
          = some (some n, later) := by
    intro n hn later hlater
    have hpoint : accepts (Reader.text ".") ('.' :: (n.toList ++ later))
        = some (true, n.toList ++ later) := accepts_append "." _
    have hread := keyPart_append (hpath n hn) [] (by simp) hlater
    rw [List.nil_append] at hread
    simp [hpoint, hread]
  -- A further part may follow a part, as a point is neither a letter nor a blank.
  have hparts := Repeats.of_shown_before
    (fun later => ∀ c ∈ later.head?, isBareChar c = false ∧ Quoted.isSpace c = false) hclose
    (fun c hc => ⟨(hlater c hc).1, (hlater c hc).2.1⟩)
    fun n hn => ⟨List.cons_ne_nil '.' n.toList, by simp; decide, hpart n hn⟩
  rw [key, bind_of_some hname, bind_of_some hparts.many]
  simp [Nat.not_le.mpr hlength]

/-- A key is read up to what follows it. -/
theorem key_append {name : String} {path : List String} (rest : List Char)
    (hlength : path.length < maxDepth) (hpath : ∀ n ∈ name :: path, Bare n)
    (hrest : ∀ c ∈ rest.head?, isBareChar c = false ∧ Quoted.isSpace c = false ∧ c ≠ '.') :
    key ((writeKey (name :: path)).toList ++ rest) = some (name :: path, rest) := by
  rw [toList_writeKey hpath, List.append_assoc]
  refine key_of_parts ?_ hlength (fun n hn => hpath n (by simp [hn])) hrest
  refine keyPart_append (hpath name (by simp)) [] (by simp) ?_
  cases path with
  | nil => exact fun c hc => ⟨(hrest c hc).1, (hrest c hc).2.1⟩
  | cons next path => simp; decide

/-- A name in front of a value. -/
theorem key_name {name : String} (hname : Bare name) (rest : List Char) :
    key (name.toList ++ (' ' :: '=' :: rest)) = some ([name], '=' :: rest) := by
  have hpart : keyPart (name.toList ++ (' ' :: '=' :: rest)) = some (name, '=' :: rest) :=
    keyPart_append hname [' '] (by simp; decide) (by simp; decide)
  exact key_of_parts hpart (by decide) (List.forall_mem_nil _) (by simp; decide)

/-! ### Statements -/

/-- The line that is written for a statement. -/
def Statement.shown : Statement → List Char
  | .table path => '[' :: (writeKey path).toList ++ [']', '\n']
  | .element path => '[' :: '[' :: (writeKey path).toList ++ [']', ']', '\n']
  | .entry path v => (writeKey path).toList ++ ' ' :: '=' :: ' ' :: v.inline.toList ++ ['\n']

/-- A statement that is written without quotes around names, with a value that is read back from
a line. -/
def Statement.Legible : Statement → Prop
  | .table path | .element path => path ≠ [] ∧ path.length ≤ maxDepth ∧ ∀ n ∈ path, Bare n
  | .entry path v => ∃ name, path = [name] ∧ Bare name ∧ v.Inline

theorem head_writeKey {name : String} {path : List String} (h : ∀ n ∈ name :: path, Bare n) :
    ∃ c others, (writeKey (name :: path)).toList = c :: others ∧ isBareChar c := by
  have hname := h name (by simp)
  obtain ⟨c, others, hchars⟩ := List.exists_cons_of_ne_nil hname.1
  exact ⟨c, _, by rw [toList_writeKey h, hchars]; rfl, hname.2 c (by simp [hchars])⟩

theorem Statement.read_table {name : String} {path : List String} (rest : List Char)
    (hlength : path.length < maxDepth) (hpath : ∀ n ∈ name :: path, Bare n) :
    Statement.read ((Statement.table (name :: path)).shown ++ rest)
      = some (.table (name :: path), '\n' :: rest) := by
  obtain ⟨c, others, hchars, hbare⟩ := head_writeKey hpath
  obtain ⟨-, -, -, hbracket, -⟩ := not_of_isBareChar hbare
  have hkey := key_append (']' :: '\n' :: rest) hlength hpath (by simp; decide)
  have hopen : Reader.text "[" ('[' :: ((writeKey (name :: path)).toList ++ ']' :: '\n' :: rest))
      = some ((), (writeKey (name :: path)).toList ++ ']' :: '\n' :: rest) := text_append "[" _
  have hopens : Reader.text "[[" ('[' :: ((writeKey (name :: path)).toList ++ ']' :: '\n' :: rest))
      = none := by simp [Reader.text, hchars, hbracket.symm]
  have hclose : Reader.text "]" (']' :: '\n' :: rest) = some ((), '\n' :: rest) :=
    text_append "]" _
  have hshown : (Statement.table (name :: path)).shown ++ rest
      = '[' :: ((writeKey (name :: path)).toList ++ ']' :: '\n' :: rest) := by
    simp [Statement.shown]
  rw [hshown, Statement.read, orElse_of_none (bind_of_none hopens _), orElse_apply,
    bind_of_some hopen, bind_of_some hkey, bind_of_some hclose]
  rfl

theorem Statement.read_element {name : String} {path : List String} (rest : List Char)
    (hlength : path.length < maxDepth) (hpath : ∀ n ∈ name :: path, Bare n) :
    Statement.read ((Statement.element (name :: path)).shown ++ rest)
      = some (.element (name :: path), '\n' :: rest) := by
  have hkey := key_append (']' :: ']' :: '\n' :: rest) hlength hpath (by simp; decide)
  have hopen : Reader.text "[["
      ('[' :: '[' :: ((writeKey (name :: path)).toList ++ ']' :: ']' :: '\n' :: rest))
      = some ((), (writeKey (name :: path)).toList ++ ']' :: ']' :: '\n' :: rest) :=
    text_append "[[" _
  have hclose : Reader.text "]]" (']' :: ']' :: '\n' :: rest) = some ((), '\n' :: rest) :=
    text_append "]]" _
  have hshown : (Statement.element (name :: path)).shown ++ rest
      = '[' :: '[' :: ((writeKey (name :: path)).toList ++ ']' :: ']' :: '\n' :: rest) := by
    simp [Statement.shown]
  rw [hshown, Statement.read, orElse_apply, bind_of_some hopen, bind_of_some hkey,
    bind_of_some hclose]
  rfl

theorem Statement.read_entry {name : String} {v : Value} (rest : List Char) (hname : Bare name)
    (hvalue : v.Inline) :
    Statement.read ((Statement.entry [name] v).shown ++ rest)
      = some (.entry [name] v, '\n' :: rest) := by
  obtain ⟨c, others, hchars⟩ := List.exists_cons_of_ne_nil hname.1
  obtain ⟨-, -, -, hbracket, -⟩ := not_of_isBareChar (hname.2 c (by simp [hchars]))
  have hwritten : (writeKey [name]).toList = name.toList := by
    simp [writeKey, writeKeyPart_of_bare hname]
  have hkey := key_name hname (' ' :: (v.inline.toList ++ '\n' :: rest))
  have hopen : ∀ word, word.toList.head? = some '[' → Reader.text word
      (name.toList ++ ' ' :: '=' :: ' ' :: (v.inline.toList ++ '\n' :: rest)) = none := by
    intro word hword
    cases hletters : word.toList with
    | nil => simp [hletters] at hword
    | cons letter letters =>
      refine text_of_head_ne word letter hletters ?_
      rw [hletters] at hword
      simp [hchars, Option.some.inj hword, hbracket]
  have hequals : Reader.text "=" ('=' :: ' ' :: (v.inline.toList ++ '\n' :: rest))
      = some ((), ' ' :: (v.inline.toList ++ '\n' :: rest)) := text_append "=" _
  have hshown : (Statement.entry [name] v).shown ++ rest
      = name.toList ++ ' ' :: '=' :: ' ' :: (v.inline.toList ++ '\n' :: rest) := by
    simp [Statement.shown, hwritten]
  have hread := hvalue rest
  have hspaces : spaces (' ' :: (v.inline.toList ++ '\n' :: rest))
      = some ((), v.inline.toList ++ '\n' :: rest) := hvalue.spaces rest
  rw [hshown, Statement.read, orElse_of_none (bind_of_none (hopen "[[" rfl) _),
    orElse_of_none (bind_of_none (hopen "[" rfl) _), bind_of_some hkey, bind_of_some hequals,
    bind_of_some hspaces, bind_of_some hread]
  rfl

theorem Statement.read_shown {s : Statement} (h : s.Legible) (rest : List Char) :
    Statement.read (s.shown ++ rest) = some (s, '\n' :: rest) := by
  match s, h with
  | .table (name :: path), ⟨_, hlength, hpath⟩ => exact read_table rest hlength hpath
  | .element (name :: path), ⟨_, hlength, hpath⟩ => exact read_element rest hlength hpath
  | .entry _ v, ⟨name, rfl, hname, hvalue⟩ => exact read_entry rest hname hvalue

/-! ### Lines -/

theorem spaces_newline (rest : List Char) : spaces ('\n' :: rest) = some ((), '\n' :: rest) :=
  skip_of_head (by simp; decide)

theorem lineEnd_newline (rest : List Char) : lineEnd ('\n' :: rest) = some ((), rest) := by
  have hcomment : accepts (Reader.text "#") ('\n' :: rest) = some (false, '\n' :: rest) :=
    accepts_of_none (text_of_head_ne "#" '#' rfl (by simp))
  have hline : Reader.text "\n" ('\n' :: rest) = some ((), rest) := text_append "\n" rest
  simp [lineEnd, spaces_newline, comment, hcomment, Quoted.newline, hline]

theorem Statement.head_shown {s : Statement} (h : s.Legible) :
    ∃ c others, s.shown = c :: others ∧ (c = '[' ∨ isBareChar c) := by
  match s, h with
  | .table _, _ => exact ⟨_, _, rfl, .inl rfl⟩
  | .element _, _ => exact ⟨_, _, rfl, .inl rfl⟩
  | .entry _ v, ⟨name, rfl, hname, _⟩ =>
    obtain ⟨c, others, hchars, hbare⟩ := head_writeKey fun n (hn : n ∈ [name]) => by simp_all
    exact ⟨c, _, by rw [shown, hchars]; rfl, .inr hbare⟩

theorem line_shown {s : Statement} (h : s.Legible) (rest : List Char) :
    line (s.shown ++ rest) = some (some (some s), rest) := by
  obtain ⟨c, others, hchars, hc⟩ := Statement.head_shown h
  have hread := Statement.read_shown h rest
  have hc : Quoted.isSpace c = false ∧ c ≠ '#' ∧ c ≠ '\n' ∧ c ≠ '\r' := by
    rcases hc with rfl | hbare
    · decide
    · obtain ⟨hspace, -, -, -, hhash, hline, hreturn, -⟩ := not_of_isBareChar hbare
      exact ⟨hspace, hhash, hline, hreturn⟩
  have hspaces : skip Quoted.isSpace (c :: (others ++ rest)) = some ((), c :: (others ++ rest)) :=
    skip_of_head (by simpa using hc.1)
  rw [hchars] at hread ⊢
  simp at hread
  simp [line, spaces, hspaces, hread, lineEnd_newline, hc]

theorem line_empty (rest : List Char) : line ('\n' :: rest) = some (some none, rest) := by
  simp [line, spaces_newline, lineEnd_newline]

theorem line_nil : line [] = some (none, []) := by
  rfl

/-- What is written for a line, which is empty if it has no statement. -/
def shownLine : Option Statement → List Char
  | some s => s.shown
  | none => ['\n']

/-- **The statements of a written file are read back.** -/
theorem Statement.readAll_shown {lines : List (Option Statement)}
    (h : ∀ s, some s ∈ lines → s.Legible) :
    Statement.readAll.parse (String.ofList (lines.flatMap shownLine))
      = some (lines.filterMap id) := by
  have hlines : Reader.many line (lines.flatMap shownLine) = some (lines, []) := by
    have hshown : ∀ l ∈ lines, shownLine l ≠ [] ∧
        ∀ rest, line (shownLine l ++ rest) = some (some l, rest) := by
      intro l hl
      cases l with
      | none => exact ⟨by simp [shownLine], line_empty⟩
      | some s =>
        obtain ⟨c, others, hchars, -⟩ := Statement.head_shown (h s hl)
        exact ⟨by simp [shownLine, hchars], line_shown (h s hl)⟩
    simpa using (Repeats.of_shown line_nil hshown).many
  have hmark : accepts (Reader.text "\ufeff") (lines.flatMap shownLine)
      = some (false, lines.flatMap shownLine) := by
    refine accepts_of_none (text_of_head_ne "\ufeff" '\ufeff' rfl fun hhead => ?_)
    cases lines with
    | nil => simp at hhead
    | cons l lines =>
      cases l with
      | none => simp [shownLine] at hhead
      | some s =>
        obtain ⟨c, others, hchars, hc⟩ := Statement.head_shown (h s (by simp))
        obtain rfl : c = '\ufeff' := by simpa [shownLine, hchars] using hhead
        rcases hc with hc | hc <;> revert hc <;> decide
  simp [Reader.parse, Statement.readAll, hmark, hlines]

end Multipath.Toml
