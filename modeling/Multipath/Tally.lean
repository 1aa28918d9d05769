import Multipath.Identifier

/-!
# Tallies

A count for every path. A path that was never counted stands at zero.

Counting has no end here, while a word for a count has 64 bits: `word` is what such a word shows if
it begins again at zero where it overflows. Counts are compared as they are, and that is how their
words compare as long as all of them are below `2 ^ 64`.
-/

namespace Multipath

/-- A count for every path. -/
structure Tally where
  /-- The counts that were ever set; the first entry for a path holds. -/
  entries : List (PathId × Nat)
deriving Repr, Inhabited

/-- In a list of keys with values, what is found under a key does not hang on other keys. -/
theorem find?_filter_ne {κ ν : Type} [BEq κ] [LawfulBEq κ] {entries : List (κ × ν)} {key other : κ}
    (h : other ≠ key) :
    (entries.filter (·.1 != key)).find? (·.1 == other) = entries.find? (·.1 == other) := by
  induction entries with
  | nil => rfl
  | cons e rest ih =>
    by_cases he : e.1 = key
    · have : e.1 ≠ other := fun h' => h (h' ▸ he)
      simp [he, ih, Ne.symm h]
    · by_cases ho : e.1 = other <;> simp [he, ho, ih, h]

namespace Tally

def empty : Tally := ⟨[]⟩

/-- The count of a path. -/
def count (t : Tally) (id : PathId) : Nat :=
  match t.entries.find? (·.1 == id) with
  | some entry => entry.2
  | none => 0

/-- The count of a path in a word of 64 bits. -/
def word (t : Tally) (id : PathId) : UInt64 := UInt64.ofNat (t.count id)

/-- Sets the count of a path. -/
def set (t : Tally) (id : PathId) (n : Nat) : Tally :=
  ⟨(id, n) :: t.entries.filter (·.1 != id)⟩

/-- Counts once more for a path. -/
def bump (t : Tally) (id : PathId) : Tally := t.set id (t.count id + 1)

theorem count_empty (id : PathId) : empty.count id = 0 := rfl

/-- Setting one count leaves the others alone. -/
theorem count_set (t : Tally) (id other : PathId) (n : Nat) :
    (t.set id n).count other = if other = id then n else t.count other := by
  by_cases h : other = id
  · simp [count, set, h]
  · simp [count, set, h, Ne.symm h, find?_filter_ne h]

theorem count_bump (t : Tally) (id other : PathId) :
    (t.bump id).count other = if other = id then t.count id + 1 else t.count other :=
  count_set t id other _

end Tally

end Multipath
