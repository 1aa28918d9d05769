import Multipath.Text.Reader

/-!
# What readers take

* The readers applied to a text, in terms of the text.
* `Repeats`: a reader says how often it goes on, and `many` collects what it says.
-/

namespace Multipath.Reader

variable {α β : Type}

/-! ### Combining readers -/

@[simp] theorem pure_apply (a : α) (text : List Char) :
    (pure a : Reader α) text = some (a, text) :=
  rfl

@[simp] theorem failure_apply (text : List Char) : (failure : Reader α) text = none :=
  rfl

@[simp] theorem bind_apply (r : Reader α) (f : α → Reader β) (text : List Char) :
    (r >>= f) text = (r text).bind fun taken => f taken.1 taken.2 :=
  rfl

/-- Behind a reader that takes something, the next one reads on. -/
theorem bind_of_some {r : Reader α} {a : α} {text rest : List Char} (h : r text = some (a, rest))
    (f : α → Reader β) : (r >>= f) text = f a rest := by
  rw [bind_apply, h]
  rfl

theorem bind_of_none {r : Reader α} {text : List Char} (h : r text = none) (f : α → Reader β) :
    (r >>= f) text = none := by
  rw [bind_apply, h]
  rfl

@[simp] theorem map_apply (f : α → β) (r : Reader α) (text : List Char) :
    (f <$> r) text = (r text).map fun taken => (f taken.1, taken.2) := by
  change (r text).bind (fun taken => some (f taken.1, taken.2)) = _
  cases r text <;> rfl

@[simp] theorem orElse_apply (r other : Reader α) (text : List Char) :
    (r <|> other) text = (r text).or (other text) := by
  change Option.orElse (r text) (fun _ => other text) = _
  cases r text <;> rfl

theorem orElse_of_some {r : Reader α} {text rest : List Char} {a : α} (h : r text = some (a, rest))
    (other : Reader α) : (r <|> other) text = some (a, rest) := by
  rw [orElse_apply, h]
  rfl

/-- Where a reader fails, the other one is tried. -/
theorem orElse_of_none {r : Reader α} {text : List Char} (h : r text = none) (other : Reader α) :
    (r <|> other) text = other text := by
  rw [orElse_apply, h]
  rfl

@[simp] theorem get_apply (text : List Char) :
    (get : Reader (List Char)) text = some (text, text) :=
  rfl

@[simp] theorem set_apply (rest text : List Char) :
    (set rest : Reader PUnit) text = some (⟨⟩, rest) :=
  rfl

@[simp] theorem ite_apply {p : Prop} [Decidable p] (r other : Reader α) (text : List Char) :
    (if p then r else other) text = if p then r text else other text := by
  split <;> rfl

/-! ### Single readers -/

@[simp] theorem next_cons (c : Char) (text : List Char) : next (c :: text) = some (c, text) :=
  rfl

@[simp] theorem peek_apply (text : List Char) : peek text = some (text.head?, text) :=
  rfl

@[simp] theorem need_some (a : α) (text : List Char) : need (some a) text = some (a, text) :=
  rfl

theorem text_append (expected : String) (rest : List Char) :
    text expected (expected.toList ++ rest) = some ((), rest) := by
  simp [text, ← String.length_toList]

/-- A text that begins differently is not taken. -/
theorem text_of_head_ne (expected : String) (first : Char) {others rest : List Char}
    (h : expected.toList = first :: others) (hne : rest.head? ≠ some first) :
    text expected rest = none := by
  cases rest with
  | nil => simp [text, h]
  | cons c rest =>
    have : first ≠ c := fun h => hne (by simp [h])
    simp [text, h, this]

theorem accepts_append (expected : String) (rest : List Char) :
    accepts (text expected) (expected.toList ++ rest) = some (true, rest) := by
  simp [accepts, text_append]

theorem accepts_of_none {r : Reader Unit} {rest : List Char} (h : r rest = none) :
    accepts r rest = some (false, rest) := by
  simp [accepts, h]

/-- The longest run ends where the property does. -/
theorem span_append {p : Char → Bool} {word rest : List Char} (hword : ∀ c ∈ word, p c)
    (hrest : ∀ c ∈ rest.head?, p c = false) : span p (word ++ rest) = some (word, rest) := by
  have htake : rest.takeWhile p = [] ∧ rest.dropWhile p = rest := by
    cases rest with
    | nil => simp
    | cons c rest => simp [hrest c rfl]
  simp [span, List.takeWhile_append_of_pos hword, List.dropWhile_append_of_pos hword, htake]

theorem skip_append {p : Char → Bool} {run rest : List Char} (hrun : ∀ c ∈ run, p c)
    (hrest : ∀ c ∈ rest.head?, p c = false) : skip p (run ++ rest) = some ((), rest) := by
  have hspan := span_append hrun hrest
  simp only [span, Option.some.injEq, Prod.mk.injEq] at hspan
  simp [skip, hspan.2]

/-- Where a property does not hold, nothing with it is skipped. -/
theorem skip_of_head {p : Char → Bool} {rest : List Char}
    (hrest : ∀ c ∈ rest.head?, p c = false) : skip p rest = some ((), rest) :=
  skip_append (List.forall_mem_nil _) hrest

/-! ### Repeating -/

/-- From `text`, the reader says to go on with each of the items, and then that there is no more,
which leaves `rest`. -/
inductive Repeats (item : Reader (Option α)) : List α → List Char → List Char → Prop where
  | done {text rest : List Char} (h : item text = some (none, rest)) : Repeats item [] text rest
  | more {a : α} {items : List α} {text next rest : List Char}
      (h : item text = some (some a, next)) (hshorter : next.length < text.length)
      (hrest : Repeats item items next rest) : Repeats item (a :: items) text rest

theorem Repeats.repeatUpTo {item : Reader (Option α)} {items : List α} {text rest : List Char}
    (h : Repeats item items text rest) {n : Nat} (hn : text.length < n) :
    repeatUpTo item n text = some (items, rest) := by
  induction h generalizing n with
  | done h =>
    obtain ⟨n, rfl⟩ : ∃ m, n = m + 1 := ⟨n - 1, by omega⟩
    simp [Reader.repeatUpTo, h]
  | more h hshorter _ ih =>
    obtain ⟨n, rfl⟩ : ∃ m, n = m + 1 := ⟨n - 1, by omega⟩
    simp [Reader.repeatUpTo, h, ih (n := n) (by omega)]

theorem Repeats.many {item : Reader (Option α)} {items : List α} {text rest : List Char}
    (h : Repeats item items text rest) : many item text = some (items, rest) :=
  h.repeatUpTo (Nat.lt_succ_self _)

/-- A reader that takes the text of each item in front of certain texts, among them those of all
items, goes on with every item in turn. -/
theorem Repeats.of_shown_before {item : Reader (Option α)} {shown : α → List Char}
    (before : List Char → Prop) {items : List α} {close rest : List Char}
    (hclose : item close = some (none, rest)) (hbefore : before close)
    (hshown : ∀ a ∈ items, shown a ≠ [] ∧ (∀ later, before (shown a ++ later)) ∧
      ∀ later, before later → item (shown a ++ later) = some (some a, later)) :
    Repeats item items (items.flatMap shown ++ close) rest := by
  induction items with
  | nil => exact .done hclose
  | cons a items ih =>
    obtain ⟨hne, -, hread⟩ := hshown a (by simp)
    have hlength := List.length_pos_iff.mpr hne
    have hlater : before (items.flatMap shown ++ close) := by
      cases items with
      | nil => exact hbefore
      | cons b items =>
        rw [List.flatMap_cons, List.append_assoc]
        exact (hshown b (by simp)).2.1 _
    rw [List.flatMap_cons, List.append_assoc]
    exact .more (hread _ hlater) (by simp; omega) (ih fun a ha => hshown a (by simp [ha]))

/-- A reader that takes the text of each item, whatever follows, goes on with every item in turn. -/
theorem Repeats.of_shown {item : Reader (Option α)} {shown : α → List Char} {items : List α}
    {close rest : List Char} (hclose : item close = some (none, rest))
    (hshown : ∀ a ∈ items, shown a ≠ [] ∧ ∀ rest, item (shown a ++ rest) = some (some a, rest)) :
    Repeats item items (items.flatMap shown ++ close) rest :=
  .of_shown_before (fun _ => True) hclose trivial fun a ha =>
    ⟨(hshown a ha).1, fun _ => trivial, fun _ _ => (hshown a ha).2 _⟩

end Multipath.Reader
