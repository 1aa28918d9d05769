import Mathlib.Algebra.Order.BigOperators.Group.Finset
import Mathlib.Algebra.Order.Ring.Rat
import Mathlib.Data.List.Sigma
import Mathlib.Data.Nat.Cast.Order.Ring
import Multipath.Batch.Relaxation

/-!
# The program of a batch, in sums over pairs

The linear program of an input is built from lists. Read exactly, it is about sums over the finite
set of its pairs.

* `mem_pairs`, `nodup_pairs`: the pairs are the packets with the paths on which they are in time,
  each once.
* `Admits`: the bounds of the program as sums over `cells`.
* `feasible_iff`, `value_program`: these are the program's feasible solutions, unless the budget is
  negative, and this is what they are worth.
* `matrix_eq`, `solve_of_optimal`: what stands where in the matrix that is the answer.
-/

namespace Multipath

/-- No two entries of a numbered list have the same number. -/
theorem pairwise_zipIdx {α : Type} (l : List α) : l.zipIdx.Pairwise (·.2 ≠ ·.2) :=
  List.pairwise_map.mp (List.nodup_zipIdx_map_snd l)

namespace Relaxation.Input

open Linear

variable {input : Input} {x : Pair → Rat} {i j : Nat}

/-! ### Pairs -/

theorem mem_pairs : (i, j) ∈ input.pairs ↔ ∃ deadline delay, input.deadlines[i]? = some deadline ∧
    input.delays[j]? = some delay ∧ satisfies deadline delay = true := by
  simp only [pairs, List.mem_flatMap, List.mem_filterMap, Prod.exists, List.mem_zipIdx_iff_getElem?,
    Option.ite_none_right_eq_some, Option.some.injEq, Prod.mk.injEq]
  constructor
  · rintro ⟨deadline, i', hi, delay, j', hj, hsat, rfl, rfl⟩
    exact ⟨deadline, delay, hi, hj, hsat⟩
  · rintro ⟨deadline, delay, hi, hj, hsat⟩
    exact ⟨deadline, i, hi, delay, j, hj, hsat, rfl, rfl⟩

theorem nodup_pairs : input.pairs.Nodup := by
  refine List.nodup_flatMap.mpr ⟨fun e _ => ?_, ?_⟩
  · refine (pairwise_zipIdx input.delays).filterMap _ fun e' e'' hne p hp p' hp' => ?_
    simp only [Option.ite_none_right_eq_some, Option.some.injEq] at hp hp'
    rw [← hp.2, ← hp'.2]
    exact fun h => hne (Prod.mk.inj h).2
  · refine (pairwise_zipIdx input.deadlines).imp fun {e e'} hne p hp hp' => ?_
    simp only [List.mem_filterMap, Option.ite_none_right_eq_some, Option.some.injEq] at hp hp'
    obtain ⟨_, _, _, rfl⟩ := hp
    obtain ⟨_, _, _, h⟩ := hp'
    exact hne (Prod.mk.inj h).1.symm

/-- The pairs as a finite set. -/
def cells (input : Input) : Finset Pair := input.pairs.toFinset

@[simp]
theorem mem_cells {p : Pair} : p ∈ input.cells ↔ p ∈ input.pairs := List.mem_toFinset

theorem lt_of_mem_pairs {p : Pair} (h : p ∈ input.pairs) :
    p.1 < input.deadlines.length ∧ p.2 < input.delays.length := by
  obtain ⟨deadline, delay, hi, hj, -⟩ := mem_pairs.mp h
  exact ⟨(List.getElem?_eq_some_iff.mp hi).1, (List.getElem?_eq_some_iff.mp hj).1⟩

/-- A sum over cells goes through packets and paths. -/
theorem sum_cells (r : Pair → Prop) [DecidablePred r] : ∑ p ∈ input.cells with r p, x p =
    ∑ i ∈ Finset.range input.deadlines.length, ∑ j ∈ Finset.range input.delays.length,
      if (i, j) ∈ input.pairs ∧ r (i, j) then x (i, j) else 0 := by
  rw [← Finset.sum_product' _ _ fun i j => if (i, j) ∈ input.pairs ∧ r (i, j) then x (i, j) else 0,
    ← Finset.sum_filter]
  refine Finset.sum_congr (Finset.ext fun p => ?_) fun _ _ => rfl
  simp only [Finset.mem_filter, mem_cells, Finset.mem_product, Finset.mem_range]
  exact ⟨fun h => ⟨lt_of_mem_pairs h.1, h⟩, fun h => h.2⟩

theorem sum_cells_packet (hi : i < input.deadlines.length) : ∑ p ∈ input.cells with p.1 = i, x p =
    ∑ j ∈ Finset.range input.delays.length, if (i, j) ∈ input.pairs then x (i, j) else 0 := by
  rw [sum_cells, Finset.sum_eq_single_of_mem i (Finset.mem_range.mpr hi)]
  · simp only [and_true]
  · intro i' _ hne
    simp [hne]

theorem sum_cells_path (hj : j < input.delays.length) : ∑ p ∈ input.cells with p.2 = j, x p =
    ∑ i ∈ Finset.range input.deadlines.length, if (i, j) ∈ input.pairs then x (i, j) else 0 := by
  rw [sum_cells]
  refine Finset.sum_congr rfl fun i _ => ?_
  rw [Finset.sum_eq_single_of_mem j (Finset.mem_range.mpr hj)]
  · simp only [and_true]
  · intro j' _ hne
    simp [hne]

theorem sum_cells_all : ∑ p ∈ input.cells, x p =
    ∑ i ∈ Finset.range input.deadlines.length, ∑ j ∈ Finset.range input.delays.length,
      if (i, j) ∈ input.pairs then x (i, j) else 0 := by
  rw [← Finset.filter_true input.cells, sum_cells]
  simp only [and_true]

/-! ### Weights -/

/-- A constraint on some of the pairs, each once, bounds a sum over them. -/
theorem weight_map (l : List Pair) (hl : l.Nodup) (f : Pair → Rat) (bound : Rat) :
    (⟨l.map fun p => (p, f p), bound⟩ : Constraint Pair Rat).weight x
      = ∑ p ∈ l.toFinset, f p * x p := by
  rw [List.sum_toFinset _ hl, Constraint.weight, List.foldr_map, List.sum_eq_foldr, List.foldr_map]

/-- What a packet costs on a path, read exactly; a path without an entry is free. -/
def price (cost : CostBudget) (j : Nat) : Rat := (cost.costs[j]?.map Number.ofFloat).getD 0

theorem ofFloat_getD (cost : CostBudget) (j : Nat) :
    (Number.ofFloat (cost.costs.getD j 0.0) : Rat) = price cost j := by
  have hfree : (Number.ofFloat 0.0 : Rat) = 0 := by decide +kernel
  rw [price, List.getD_eq_getElem?_getD]
  cases cost.costs[j]? with
  | none => exact hfree
  | some c => rfl

theorem weight_packetRow :
    (input.packetRow i : Constraint Pair Rat).weight x = ∑ p ∈ input.cells with p.1 = i, x p := by
  rw [packetRow, weight_map _ (nodup_pairs.filter _) fun _ => Number.one, List.toFinset_filter]
  simp [cells, Number.one]

theorem weight_pathRow {capacity : UInt64} :
    (input.pathRow j capacity : Constraint Pair Rat).weight x
      = ∑ p ∈ input.cells with p.2 = j, x p := by
  rw [pathRow, weight_map _ (nodup_pairs.filter _) fun _ => Number.one, List.toFinset_filter]
  simp [cells, Number.one]

theorem weight_costRow {cost : CostBudget} :
    (input.costRow cost : Constraint Pair Rat).weight x
      = ∑ p ∈ input.cells, price cost p.2 * x p := by
  simp only [costRow, ofFloat_getD]
  exact weight_map _ nodup_pairs (fun p => price cost p.2) _

/-! ### The program -/

/-- Shares of the pairs that obey all bounds of the relaxation. -/
structure Admits (input : Input) (x : Pair → Rat) : Prop where
  nonneg : ∀ p ∈ input.pairs, 0 ≤ x p
  le_one : ∀ p ∈ input.pairs, x p ≤ 1
  packets : ∀ i < input.deadlines.length, ∑ p ∈ input.cells with p.1 = i, x p ≤ 1
  paths : ∀ j < input.delays.length, ∀ capacity, input.capacities[j]? = some capacity →
    ∑ p ∈ input.cells with p.2 = j, x p ≤ (capacity.toNat : Rat)
  cost : ∀ cost, input.cost = some cost →
    ∑ p ∈ input.cells, price cost p.2 * x p ≤ Number.ofFloat cost.budget

theorem mem_rows {c : Constraint Pair Rat} : c ∈ input.rows ↔
    (∃ i < input.deadlines.length, c = input.packetRow i) ∨
    (∃ j < input.delays.length, ∃ capacity, input.capacities[j]? = some capacity ∧
      c = input.pathRow j capacity) ∨
    ∃ cost, input.cost = some cost ∧ c = input.costRow cost := by
  simp only [rows, List.mem_append, List.mem_map, List.mem_range, Option.mem_toList,
    Option.map_eq_some_iff, Prod.exists, List.mem_zipIdx_iff_getElem?, List.getElem?_take,
    Option.ite_none_right_eq_some, or_assoc]
  refine or_congr ?_ (or_congr ?_ ?_)
  · exact exists_congr fun i => and_congr_right fun _ => eq_comm
  · constructor
    · rintro ⟨capacity, j, ⟨hj, hcapacity⟩, rfl⟩
      exact ⟨j, hj, capacity, hcapacity, rfl⟩
    · rintro ⟨j, hj, capacity, hcapacity, rfl⟩
      exact ⟨capacity, j, ⟨hj, hcapacity⟩, rfl⟩
  · exact exists_congr fun cost => and_congr_right fun _ => eq_comm

theorem mem_rows_of_mem {c : Constraint Pair Rat} (h : c ∈ input.program.constraints) :
    c ∈ input.rows := (List.mem_filter.mp h).1

/-- A bound that is left out of the program holds anyway, unless it is negative. -/
theorem weight_le_of_mem_rows {ε : Rat}
    (h : ∀ c ∈ input.program.constraints, c.weight x ≤ c.bound + ε) {c : Constraint Pair Rat}
    (hc : c ∈ input.rows) (hbound : 0 ≤ c.bound + ε) : c.weight x ≤ c.bound + ε := by
  by_cases hterms : c.terms = []
  · rwa [Constraint.weight, hterms, List.foldr_nil]
  · exact h c (List.mem_filter.mpr ⟨hc, by simpa using hterms⟩)

theorem Admits.feasible (h : input.Admits x) : input.program.Feasible x := by
  refine ⟨h.nonneg, h.le_one, fun c hc => ?_⟩
  rcases mem_rows.mp (mem_rows_of_mem hc) with ⟨i, hi, rfl⟩ | ⟨j, hj, capacity, hcapacity, rfl⟩
    | ⟨cost, hcost, rfl⟩
  · rw [weight_packetRow]
    exact h.packets i hi
  · rw [weight_pathRow]
    exact h.paths j hj capacity hcapacity
  · rw [weight_costRow]
    exact h.cost cost hcost

theorem feasible_iff (hbudget : ∀ cost, input.cost = some cost →
      (0 : Rat) ≤ Number.ofFloat cost.budget) : input.program.Feasible x ↔ input.Admits x := by
  refine ⟨fun h => ?_, Admits.feasible⟩
  have hrow : ∀ c ∈ input.rows, 0 ≤ c.bound → c.weight x ≤ c.bound := fun c hc hbound => by
    simpa using weight_le_of_mem_rows (ε := 0) (by simpa using h.bounded) hc (by simpa using hbound)
  refine ⟨h.nonneg, h.le_one, fun i hi => ?_, fun j hj capacity hcapacity => ?_,
    fun cost hcost => ?_⟩
  · rw [← weight_packetRow]
    exact hrow _ (mem_rows.mpr (.inl ⟨i, hi, rfl⟩)) zero_le_one
  · rw [← weight_pathRow]
    exact hrow _ (mem_rows.mpr (.inr (.inl ⟨j, hj, capacity, hcapacity, rfl⟩)))
      (Nat.cast_nonneg capacity.toNat)
  · rw [← weight_costRow]
    exact hrow _ (mem_rows.mpr (.inr (.inr ⟨cost, hcost, rfl⟩))) (hbudget cost hcost)

theorem feasible_iff_of_unlimited (hcost : input.cost = none) :
    input.program.Feasible x ↔ input.Admits x :=
  feasible_iff fun _ hcost' => absurd (hcost.symm.trans hcost') nofun

theorem value_program : input.program.value x = ∑ p ∈ input.cells, x p := by
  rw [cells, List.sum_toFinset _ nodup_pairs, Program.value, List.sum_eq_foldr, List.foldr_map]
  rfl

theorem Admits.congr (h : input.Admits x) {y : Pair → Rat} (heq : ∀ p ∈ input.pairs, y p = x p) :
    input.Admits y := by
  have hsum : ∀ (r : Pair → Prop) [DecidablePred r],
      ∑ p ∈ input.cells with r p, y p = ∑ p ∈ input.cells with r p, x p := fun r _ =>
    Finset.sum_congr rfl fun p hp => heq p (mem_cells.mp (Finset.mem_filter.mp hp).1)
  refine ⟨fun p hp => ?_, fun p hp => ?_, fun i hi => ?_, fun j hj capacity hcapacity => ?_,
    fun cost hcost => ?_⟩
  · rw [heq p hp]
    exact h.nonneg p hp
  · rw [heq p hp]
    exact h.le_one p hp
  · rw [hsum]
    exact h.packets i hi
  · rw [hsum]
    exact h.paths j hj capacity hcapacity
  · rw [Finset.sum_congr rfl fun p hp => congrArg (price cost p.2 * ·) (heq p (mem_cells.mp hp))]
    exact h.cost cost hcost

/-- No packet is sent more than once. -/
theorem Admits.value_le (h : input.Admits x) :
    input.program.value x ≤ (input.deadlines.length : Rat) := by
  rw [value_program, ← Finset.sum_fiberwise_of_maps_to (t := Finset.range input.deadlines.length)
    (g := Prod.fst) fun p hp => Finset.mem_range.mpr (lt_of_mem_pairs (mem_cells.mp hp)).1]
  calc ∑ i ∈ Finset.range input.deadlines.length, ∑ p ∈ input.cells with p.1 = i, x p
      ≤ ∑ _i ∈ Finset.range input.deadlines.length, 1 :=
        Finset.sum_le_sum fun i hi => h.packets i (Finset.mem_range.mp hi)
    _ = input.deadlines.length := by simp

/-! ### The answer -/

/-- The matrix has the share of each pair in its place, and zero elsewhere. -/
theorem matrix_eq {α : Type} [Number α] (y : Pair → α) :
    input.matrix y = (List.range input.deadlines.length).map fun i =>
      (List.range input.delays.length).map fun j =>
        if (i, j) ∈ input.pairs then y (i, j) else Number.zero := by
  refine List.ext_getElem (by simp [matrix]) fun i hi _ => ?_
  have hi : i < input.deadlines.length := by simpa [matrix] using hi
  simp only [matrix, List.getElem_map, List.getElem_zipIdx, List.getElem_range, Nat.zero_add]
  refine List.ext_getElem (by simp) fun j hj _ => ?_
  have hj : j < input.delays.length := by simpa using hj
  have hpairs : (i, j) ∈ input.pairs ↔ satisfies input.deadlines[i] input.delays[j] = true := by
    rw [mem_pairs, List.getElem?_eq_getElem hi, List.getElem?_eq_getElem hj]
    simp
  simp [hpairs]

/-- An optimum goes into the matrix, also if there was nothing to solve. -/
theorem solve_of_optimal {α : Type} [Number α] {solver : Solver Pair α} {y : Pair → α}
    (h : solver input.program = .optimal y) :
    Relaxation.solve solver input = .ok (input.matrix y) := by
  by_cases hnone : input.pairs = []
  · simp [Relaxation.solve, matrix_eq, hnone]
  · simp [Relaxation.solve, hnone, h]

end Relaxation.Input

end Multipath
