import Mathlib.Algebra.Order.BigOperators.Group.Finset
import Mathlib.Data.Finset.Sum
import Mathlib.LinearAlgebra.Dimension.Constructions
import Mathlib.LinearAlgebra.FiniteDimensional.Lemmas
import Mathlib.LinearAlgebra.Matrix.ToLin
import Multipath.Proofs.Batch.Pairs
import Multipath.Proofs.Linear.Vertices

/-!
# Vertices without a budget are whole

Without a budget every bound of the relaxation is a whole number, and every pair counts in the
bounds of one packet and one path only.  Packets and paths are then the two sides of a graph whose
edges are the pairs with a share between 0 and 1.  Where such a share counts in a bound that is
met exactly, a second one does too, so there are at most as many of these bounds as edges, and
shares can be moved along the edges without changing any of them.  No vertex allows that.

* `exists_balanced`: fewer equations than unknowns have a solution other than zero.
* `two_le_card_split`: shares that add up to a whole number are not split in one place only.
* `exists_circulation`: shares can be moved around on edges that meet at both ends.
* `whole_of_isVertex`: the shares of a vertex are 0 or 1.
-/

namespace Multipath.Relaxation

open Linear Finset

/-! ### Equations -/

/-- Fewer homogeneous equations than unknowns have a solution other than zero. -/
theorem exists_balanced {κ τ : Type} [DecidableEq κ] (F : Finset κ) (T : Finset τ)
    (a : τ → κ → Rat) (h : #T < #F) :
    ∃ d : κ → Rat, (∀ p ∉ F, d p = 0) ∧ (∃ p ∈ F, d p ≠ 0) ∧
      ∀ v ∈ T, ∑ p ∈ F, a v p * d p = 0 := by
  let f : (F → Rat) →ₗ[Rat] (T → Rat) := Matrix.mulVecLin (Matrix.of fun v p => a v p)
  have hker : LinearMap.ker f ≠ ⊥ := f.ker_ne_bot_of_finrank_lt (by simpa using h)
  obtain ⟨y, hy, hne⟩ := (Submodule.ne_bot_iff _).mp hker
  obtain ⟨p, hp⟩ := Function.ne_iff.mp hne
  refine ⟨fun p => if hp : p ∈ F then y ⟨p, hp⟩ else 0, fun p hp => dif_neg hp,
    ⟨p, p.2, by simpa using hp⟩, fun v hv => ?_⟩
  have hv' := congrFun (LinearMap.mem_ker.mp hy) ⟨v, hv⟩
  rw [← Finset.sum_coe_sort]
  simpa [f, Matrix.mulVec, dotProduct] using hv'

/-! ### Whole sums -/

/-- Shares that add up to a whole number are not split in one place only. -/
theorem two_le_card_split {κ : Type} [DecidableEq κ] {s : Finset κ} {x : κ → Rat} {n : Nat}
    (hbox : ∀ p ∈ s, 0 ≤ x p ∧ x p ≤ 1) (hsum : ∑ p ∈ s, x p = n) {p : κ} (hp : p ∈ s)
    (hsplit : 0 < x p ∧ x p < 1) : 2 ≤ #{q ∈ s | 0 < x q ∧ x q < 1} := by
  by_contra hlt
  have hone : #{q ∈ s | 0 < x q ∧ x q < 1} ≤ 1 := by omega
  have hrest : ∀ q ∈ s.erase p, x q = if x q = 1 then 1 else 0 := by
    intro q hq
    obtain ⟨hne, hq⟩ := mem_erase.mp hq
    split
    · assumption
    · next h =>
      by_contra h₀
      refine hne (card_le_one.mp hone q ?_ p ?_)
      · exact mem_filter.mpr ⟨hq, lt_of_le_of_ne (hbox q hq).1 (Ne.symm h₀),
          lt_of_le_of_ne (hbox q hq).2 h⟩
      · exact mem_filter.mpr ⟨hp, hsplit⟩
  have hcount : x p + (#{q ∈ s.erase p | x q = 1} : Rat) = n := by
    rw [← hsum, ← add_sum_erase s x hp, sum_congr rfl hrest, sum_boole]
  have hlow : #{q ∈ s.erase p | x q = 1} < n := by
    have : (#{q ∈ s.erase p | x q = 1} : Rat) < n := by linarith [hsplit.1]
    exact_mod_cast this
  have hhigh : n < #{q ∈ s.erase p | x q = 1} + 1 := by
    have : (n : Rat) < #{q ∈ s.erase p | x q = 1} + 1 := by linarith [hsplit.2]
    exact_mod_cast this
  omega

/-! ### Moving shares around -/

section Circulation

variable {F : Finset Pair} {P Q : Finset Nat}

/-- Ends at which two edges meet are at most half as many as their edges. -/
theorem two_mul_card_le (side : Pair → Nat) (h : ∀ i ∈ P, 2 ≤ #{p ∈ F | side p = i}) :
    2 * #P ≤ #{p ∈ F | side p ∈ P} :=
  mul_card_image_le_card_of_maps_to (fun p hp => (mem_filter.mp hp).2) 2 fun i hi => by
    rw [filter_filter]
    refine (h i hi).trans (card_le_card fun p hp => ?_)
    obtain ⟨hF, heq⟩ := mem_filter.mp hp
    exact mem_filter.mpr ⟨hF, heq ▸ hi, heq⟩

/-- Fewer ends than edges: something can be moved along the edges that no end notices. -/
theorem exists_direction (h : #P + #Q < #F) :
    ∃ d : Pair → Rat, (∀ p ∉ F, d p = 0) ∧ (∃ p ∈ F, d p ≠ 0) ∧
      (∀ i ∈ P, ∑ p ∈ F with p.1 = i, d p = 0) ∧ ∀ j ∈ Q, ∑ p ∈ F with p.2 = j, d p = 0 := by
  obtain ⟨d, hoff, hne, hbal⟩ := exists_balanced F (P.disjSum Q)
    (Sum.elim (fun i p => if p.1 = i then 1 else 0) fun j p => if p.2 = j then 1 else 0)
    (by rwa [card_disjSum])
  refine ⟨d, hoff, hne, fun i hi => ?_, fun j hj => ?_⟩
  · simpa [sum_filter] using hbal (.inl i) (inl_mem_disjSum.mpr hi)
  · simpa [sum_filter] using hbal (.inr j) (inr_mem_disjSum.mpr hj)

/-- If at least two edges meet in each of these packets and paths, something can be moved along
the edges that none of them notices. -/
theorem exists_circulation (hF : F.Nonempty) (hP : ∀ i ∈ P, 2 ≤ #{p ∈ F | p.1 = i})
    (hQ : ∀ j ∈ Q, 2 ≤ #{p ∈ F | p.2 = j}) :
    ∃ d : Pair → Rat, (∀ p ∉ F, d p = 0) ∧ (∃ p ∈ F, d p ≠ 0) ∧
      (∀ i ∈ P, ∑ p ∈ F with p.1 = i, d p = 0) ∧ ∀ j ∈ Q, ∑ p ∈ F with p.2 = j, d p = 0 := by
  have hPF := two_mul_card_le (·.1) hP
  have hQF := two_mul_card_le (·.2) hQ
  have hPle := card_filter_le F (·.1 ∈ P)
  have hQle := card_filter_le F (·.2 ∈ Q)
  by_cases hall : ∀ p ∈ F, p.1 ∈ P ∧ p.2 ∈ Q
  · -- There may be as many ends as edges, but then one packet's equation follows from the others.
    obtain ⟨p₀, hp₀⟩ := hF
    have herase := card_erase_of_mem (hall p₀ hp₀).1
    have hpos := card_pos.mpr ⟨_, (hall p₀ hp₀).1⟩
    obtain ⟨d, hoff, hne, hrows, hcolumns⟩ :=
      exists_direction (F := F) (P := P.erase p₀.1) (Q := Q) (by omega)
    refine ⟨d, hoff, hne, fun i hi => ?_, hcolumns⟩
    by_cases hi₀ : i = p₀.1
    · subst hi₀
      calc ∑ p ∈ F with p.1 = p₀.1, d p
          = ∑ i ∈ P, ∑ p ∈ F with p.1 = i, d p :=
            (sum_eq_single_of_mem _ hi fun i hi hne => hrows i (mem_erase.mpr ⟨hne, hi⟩)).symm
        _ = ∑ p ∈ F, d p := sum_fiberwise_of_maps_to (fun p hp => (hall p hp).1) d
        _ = ∑ j ∈ Q, ∑ p ∈ F with p.2 = j, d p :=
            (sum_fiberwise_of_maps_to (fun p hp => (hall p hp).2) d).symm
        _ = 0 := sum_eq_zero hcolumns
    · exact hrows i (mem_erase.mpr ⟨hi₀, hi⟩)
  · -- An edge with a free end is counted once at most.
    push Not at hall
    obtain ⟨p₀, hp₀, hfree⟩ := hall
    refine exists_direction ?_
    by_cases h₁ : p₀.1 ∈ P
    · have : #{p ∈ F | p.2 ∈ Q} < #F := card_lt_card (filter_ssubset.mpr ⟨p₀, hp₀, hfree h₁⟩)
      omega
    · have : #{p ∈ F | p.1 ∈ P} < #F := card_lt_card (filter_ssubset.mpr ⟨p₀, hp₀, h₁⟩)
      omega

end Circulation

/-! ### Vertices -/

namespace Input

variable {input : Input} {x : Pair → Rat}

/-- The pairs that have a part of the packet only. -/
def split (input : Input) (x : Pair → Rat) : Finset Pair := {p ∈ input.cells | 0 < x p ∧ x p < 1}

/-- A direction along split pairs only is seen in a sum only if a split pair is in it. -/
theorem sum_cells_eq {d : Pair → Rat} (hoff : ∀ p ∉ input.split x, d p = 0) (r : Pair → Prop)
    [DecidablePred r] : ∑ p ∈ input.cells with r p, d p = ∑ p ∈ input.split x with r p, d p := by
  refine (sum_subset (filter_subset_filter _ (filter_subset _ _)) fun p hp hp' => hoff p ?_).symm
  exact fun h => hp' (mem_filter.mpr ⟨h, (mem_filter.mp hp).2⟩)

theorem split_met_twice (h : input.Admits x) (r : Pair → Prop) [DecidablePred r] {n : Nat}
    (hsum : ∑ p ∈ input.cells with r p, x p = n) {p : Pair} (hp : p ∈ input.split x) (hr : r p) :
    2 ≤ #{p ∈ input.split x | r p} := by
  obtain ⟨hcell, hsplit⟩ := mem_filter.mp hp
  have := two_le_card_split (s := {p ∈ input.cells | r p}) (fun q hq => ?_) hsum
    (mem_filter.mpr ⟨hcell, hr⟩) hsplit
  · rwa [filter_comm] at this
  · have hq : q ∈ input.pairs := mem_cells.mp (mem_filter.mp hq).1
    exact ⟨h.nonneg q hq, h.le_one q hq⟩

/-- Without a budget the shares of a vertex are whole: a packet is sent on a path or it is not. -/
theorem whole_of_isVertex (hcost : input.cost = none) (h : input.program.IsVertex x) :
    ∀ p ∈ input.pairs, x p = 0 ∨ x p = 1 := by
  classical
  have hadmits := (feasible_iff_of_unlimited hcost).mp h.feasible
  by_contra hsplit
  push Not at hsplit
  obtain ⟨p₀, hp₀, h₀, h₁⟩ := hsplit
  have hF : p₀ ∈ input.split x := mem_filter.mpr ⟨mem_cells.mpr hp₀,
    lt_of_le_of_ne (hadmits.nonneg p₀ hp₀) h₀.symm, lt_of_le_of_ne (hadmits.le_one p₀ hp₀) h₁⟩
  -- The ends of split pairs where the shares add up to a whole number, as where a bound is met.
  obtain ⟨d, hoff, ⟨p, hp, hd⟩, hrows, hcolumns⟩ := exists_circulation (F := input.split x)
    (P := {i ∈ (input.split x).image (·.1) | ∃ n : Nat, ∑ p ∈ input.cells with p.1 = i, x p = n})
    (Q := {j ∈ (input.split x).image (·.2) | ∃ n : Nat, ∑ p ∈ input.cells with p.2 = j, x p = n})
    ⟨p₀, hF⟩ (fun i hi => by
      obtain ⟨hi, n, hsum⟩ := mem_filter.mp hi
      obtain ⟨p, hp, rfl⟩ := mem_image.mp hi
      exact split_met_twice hadmits _ hsum hp rfl) fun j hj => by
      obtain ⟨hj, n, hsum⟩ := mem_filter.mp hj
      obtain ⟨p, hp, rfl⟩ := mem_image.mp hj
      exact split_met_twice hadmits _ hsum hp rfl
  refine hd (h.eq_zero (d := d) (fun p _ hwhole => hoff p fun hp => ?_) (fun c hc htight => ?_) p
    (mem_cells.mp (mem_filter.mp hp).1))
  · obtain ⟨hpos, hlt⟩ := (mem_filter.mp hp).2
    rcases hwhole with h | h
    · exact hpos.ne' h
    · exact hlt.ne h
  · rcases mem_rows.mp (mem_rows_of_mem hc) with ⟨i, hi, rfl⟩ | ⟨j, hj, capacity, hcapacity, rfl⟩
      | ⟨cost, hcost', rfl⟩
    · rw [weight_packetRow] at htight ⊢
      rw [sum_cells_eq hoff]
      by_cases hmet : i ∈ (input.split x).image (·.1)
      · exact hrows i (mem_filter.mpr ⟨hmet, 1, htight.trans Nat.cast_one.symm⟩)
      · rw [filter_eq_empty_iff.mpr fun p hp heq => hmet (mem_image.mpr ⟨p, hp, heq⟩), sum_empty]
    · rw [weight_pathRow] at htight ⊢
      rw [sum_cells_eq hoff]
      by_cases hmet : j ∈ (input.split x).image (·.2)
      · exact hcolumns j (mem_filter.mpr ⟨hmet, capacity.toNat, htight⟩)
      · rw [filter_eq_empty_iff.mpr fun p hp heq => hmet (mem_image.mpr ⟨p, hp, heq⟩), sum_empty]
    · simp [hcost] at hcost'

end Input

end Multipath.Relaxation
