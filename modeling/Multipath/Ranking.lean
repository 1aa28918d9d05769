/-!
# Rankings

Lists sorted by a key, the largest key first. Elements with equal keys keep their order.

* `Ranking.perm_rank`: nothing is lost and nothing is added.
* `Ranking.pairwise_rank`: no element stands behind one with a smaller key.
* `Ranking.exists_split_of_rank`: the first of several largest keys comes first.
-/

namespace Multipath.Ranking

variable {α : Type} (key : α → Int)

/-- Puts an element in front of the first one whose key is not larger. -/
def enter (a : α) : List α → List α
  | [] => [a]
  | b :: rest => if key b ≤ key a then a :: b :: rest else b :: enter a rest

/-- The elements of a list, the largest key first. -/
def rank : List α → List α
  | [] => []
  | a :: rest => enter key a (rank rest)

theorem perm_enter (a : α) (l : List α) : (enter key a l).Perm (a :: l) := by
  induction l with
  | nil => exact .refl _
  | cons b rest ih =>
    simp only [enter]
    split
    · exact .refl _
    · exact (ih.cons b).trans (.swap a b rest)

theorem perm_rank (l : List α) : (rank key l).Perm l := by
  induction l with
  | nil => exact .refl _
  | cons a rest ih => exact (perm_enter key a _).trans (ih.cons a)

theorem pairwise_enter (a : α) {l : List α} (h : l.Pairwise (key · ≥ key ·)) :
    (enter key a l).Pairwise (key · ≥ key ·) := by
  induction l with
  | nil => simp [enter]
  | cons b rest ih =>
    obtain ⟨hb, hrest⟩ := List.pairwise_cons.1 h
    simp only [enter]
    split
    · rename_i hle
      refine List.pairwise_cons.2 ⟨fun c hc => ?_, h⟩
      rcases List.mem_cons.1 hc with rfl | hc
      · exact hle
      · exact Int.le_trans (hb c hc) hle
    · rename_i hlt
      refine List.pairwise_cons.2 ⟨fun c hc => ?_, ih hrest⟩
      rcases List.mem_cons.1 ((perm_enter key a rest).mem_iff.1 hc) with rfl | hc
      · exact Int.le_of_lt (Int.not_le.1 hlt)
      · exact hb c hc

theorem pairwise_rank (l : List α) : (rank key l).Pairwise (key · ≥ key ·) := by
  induction l with
  | nil => exact .nil
  | cons a rest ih => exact pairwise_enter key a ih

/-- What comes first in a ranking has a larger key than whatever stood before it in the list. -/
theorem exists_split_of_rank {l rest : List α} {a : α} (h : rank key l = a :: rest) :
    ∃ before after, l = before ++ a :: after ∧ ∀ b ∈ before, key b < key a := by
  induction l generalizing a rest with
  | nil => cases h
  | cons c l ih =>
    rw [rank] at h
    cases hrank : rank key l with
    | nil =>
      rw [hrank] at h
      obtain ⟨rfl, -⟩ := List.cons.inj h
      exact ⟨[], l, rfl, fun b hb => nomatch hb⟩
    | cons d rest' =>
      rw [hrank, enter] at h
      split at h
      · obtain ⟨rfl, -⟩ := List.cons.inj h
        exact ⟨[], l, rfl, fun b hb => nomatch hb⟩
      · rename_i hlt
        obtain ⟨rfl, -⟩ := List.cons.inj h
        obtain ⟨before, after, rfl, hbefore⟩ := ih hrank
        refine ⟨c :: before, after, rfl, fun b hb => ?_⟩
        rcases List.mem_cons.1 hb with rfl | hb
        · exact Int.not_le.1 hlt
        · exact hbefore b hb

end Multipath.Ranking
