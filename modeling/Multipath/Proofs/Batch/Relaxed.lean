import Mathlib.Algebra.BigOperators.Fin
import Multipath.Config.Basic
import Multipath.Proofs.Batch.Pairs
import Multipath.Proofs.Decimal.Order
import Multipath.Proofs.Linear.Vertices

/-!
# The best relaxed assignment

The program that is solved has unknowns for the pairs in time only.  The matrix that comes out is
the best among all matrices that obey the bounds, whether or not they put something on other pairs.

* `Bounded`: a matrix of shares obeys the bounds, and `served` is what counts of it.
* `Input.Admits.bounded`, `Bounded.admits`: solutions of the program and bounded matrices.
* `solve_best`: if the solver's verdict is right there is a solution, and no matrix serves more.
-/

namespace Multipath

namespace Relaxation

open Linear Finset

/-! ### Matrices -/

/-- The share of a packet on a path. -/
def share (m : Relaxation Rat) (i j : Nat) : Rat := (m.getD i []).getD j 0

/-- A matrix of shares for this input: a row for each packet, in it an entry for each path, and all
the bounds of the relaxation. -/
structure Bounded (input : Input) (m : Relaxation Rat) : Prop where
  packets : m.length = input.deadlines.length
  paths : ∀ row ∈ m, row.length = input.delays.length
  nonneg : ∀ row ∈ m, ∀ share ∈ row, 0 ≤ share
  le_one : ∀ row ∈ m, ∀ share ∈ row, share ≤ 1
  rows : ∀ row ∈ m, row.sum ≤ 1
  columns : ∀ j < input.delays.length, ∀ capacity, input.capacities[j]? = some capacity →
    (m.map fun row => row.getD j 0).sum ≤ (capacity.toNat : Rat)
  cost : ∀ cost, input.cost = some cost →
    (m.map fun row => (row.zipIdx.map fun (share, j) => Input.price cost j * share).sum).sum
      ≤ Number.ofFloat cost.budget

/-- The sum of the shares that are in time. -/
def served (input : Input) (m : Relaxation Rat) : Rat :=
  (input.pairs.map fun p => share m p.1 p.2).sum

/-! ### Sums over matrices -/

theorem sum_map_eq_range {α : Type} (l : List α) (f : α → Rat) (a : α) :
    (l.map f).sum = ∑ i ∈ range l.length, f (l.getD i a) := by
  rw [Finset.sum_range, ← Fin.sum_univ_fun_getElem]
  exact sum_congr rfl fun i _ => by simp

theorem sum_zipIdx_eq_range {α : Type} (l : List α) (f : α → Nat → Rat) (a : α) :
    (l.zipIdx.map fun (b, j) => f b j).sum = ∑ j ∈ range l.length, f (l.getD j a) j := by
  rw [sum_map_eq_range _ _ (a, 0), List.length_zipIdx]
  refine sum_congr rfl fun j hj => ?_
  have hj : j < l.length := mem_range.mp hj
  simp [hj]

section Sums

variable {input : Input} {m : Relaxation Rat} (hpackets : m.length = input.deadlines.length)
  (hpaths : ∀ row ∈ m, row.length = input.delays.length)

include hpaths in
theorem row_sum {i : Nat} (hi : i < m.length) :
    m[i].sum = ∑ j ∈ range input.delays.length, share m i j := by
  have hsum := sum_map_eq_range m[i] id 0
  rw [List.map_id, hpaths _ (List.getElem_mem hi)] at hsum
  rw [hsum]
  exact sum_congr rfl fun j _ => by simp [share, hi]

include hpackets in
theorem column_sum (j : Nat) : (m.map fun row => row.getD j 0).sum =
    ∑ i ∈ range input.deadlines.length, share m i j := by
  rw [sum_map_eq_range _ _ [], hpackets]
  rfl

include hpackets hpaths in
theorem cost_sum (price : Nat → Rat) :
    (m.map fun row => (row.zipIdx.map fun (share, j) => price j * share).sum).sum =
      ∑ i ∈ range input.deadlines.length, ∑ j ∈ range input.delays.length,
        price j * share m i j := by
  rw [sum_map_eq_range _ _ [], hpackets]
  refine sum_congr rfl fun i hi => ?_
  have hi : i < m.length := hpackets ▸ mem_range.mp hi
  rw [sum_zipIdx_eq_range _ (fun a j => price j * a) 0, hpaths _ (by simp [hi])]
  rfl

end Sums

theorem served_eq_value (input : Input) (m : Relaxation Rat) :
    served input m = input.program.value fun p => share m p.1 p.2 := by
  rw [Input.value_program, Input.cells, List.sum_toFinset _ Input.nodup_pairs]
  rfl

/-! ### Solutions and matrices -/

section Matrix

variable {input : Input} {x : Pair → Rat}

theorem share_matrix (i j : Nat) :
    share (input.matrix x) i j = if (i, j) ∈ input.pairs then x (i, j) else 0 := by
  rw [Input.matrix_eq, share]
  by_cases hp : (i, j) ∈ input.pairs
  · obtain ⟨hi, hj⟩ := Input.lt_of_mem_pairs hp
    simp [hi, hj, hp]
  · by_cases hi : i < input.deadlines.length
    · by_cases hj : j < input.delays.length
      · simp [hi, hj, hp]
        rfl
      · simp [hi, hj, hp]
    · simp [hi, hp]

theorem length_matrix : (input.matrix x).length = input.deadlines.length := by
  simp [Input.matrix_eq]

theorem length_of_mem_matrix : ∀ row ∈ input.matrix x, row.length = input.delays.length := by
  intro row hrow
  rw [Input.matrix_eq] at hrow
  obtain ⟨i, -, rfl⟩ := List.mem_map.mp hrow
  simp

theorem mem_row_matrix {row : List Rat} (hrow : row ∈ input.matrix x) {share : Rat}
    (hshare : share ∈ row) : share = 0 ∨ ∃ p ∈ input.pairs, share = x p := by
  rw [Input.matrix_eq] at hrow
  obtain ⟨i, -, rfl⟩ := List.mem_map.mp hrow
  obtain ⟨j, -, rfl⟩ := List.mem_map.mp hshare
  by_cases hp : (i, j) ∈ input.pairs
  · exact .inr ⟨(i, j), hp, by simp [hp]⟩
  · exact .inl (by simp [hp]; rfl)

/-- A solution of the program is a bounded matrix. -/
theorem Input.Admits.bounded (h : input.Admits x) : Bounded input (input.matrix x) where
  packets := length_matrix
  paths := length_of_mem_matrix
  nonneg := by
    intro row hrow share hshare
    rcases mem_row_matrix hrow hshare with rfl | ⟨p, hp, rfl⟩
    · exact le_refl 0
    · exact h.nonneg p hp
  le_one := by
    intro row hrow share hshare
    rcases mem_row_matrix hrow hshare with rfl | ⟨p, hp, rfl⟩
    · exact zero_le_one
    · exact h.le_one p hp
  rows := by
    intro row hrow
    obtain ⟨i, hi, rfl⟩ := List.getElem_of_mem hrow
    rw [row_sum length_of_mem_matrix hi]
    simp only [share_matrix]
    rw [← Input.sum_cells_packet (length_matrix ▸ hi)]
    exact h.packets i (length_matrix ▸ hi)
  columns := by
    intro j hj capacity hcapacity
    rw [column_sum length_matrix]
    simp only [share_matrix]
    rw [← Input.sum_cells_path hj]
    exact h.paths j hj capacity hcapacity
  cost := by
    intro cost hcost
    rw [cost_sum length_matrix length_of_mem_matrix]
    simp only [share_matrix, mul_ite, mul_zero]
    rw [← Input.sum_cells_all (x := fun p => Input.price cost p.2 * x p)]
    exact h.cost cost hcost

theorem served_matrix : served input (input.matrix x) = input.program.value x := by
  rw [served_eq_value, Input.value_program, Input.value_program]
  refine sum_congr rfl fun p hp => ?_
  rw [share_matrix, if_pos (Input.mem_cells.mp hp)]

end Matrix

namespace Bounded

variable {input : Input} {m : Relaxation Rat} (h : Bounded input m)
include h

theorem share_bounds (i j : Nat) : 0 ≤ share m i j ∧ share m i j ≤ 1 := by
  unfold share
  by_cases hi : i < m.length
  · by_cases hj : j < m[i].length
    · have hrow : m[i] ∈ m := List.getElem_mem hi
      have hshare : m[i][j] ∈ m[i] := List.getElem_mem hj
      simpa [hi, hj] using ⟨h.nonneg _ hrow _ hshare, h.le_one _ hrow _ hshare⟩
    · simp [hi, hj]
  · simp [hi]

/-- What a bounded matrix has on the pairs in time is a solution of the program, if no path costs
less than nothing. -/
theorem admits (hprice : ∀ cost, input.cost = some cost → ∀ j, 0 ≤ Input.price cost j) :
    input.Admits fun p => share m p.1 p.2 := by
  have hdrop : ∀ i j, (if (i, j) ∈ input.pairs then share m i j else 0) ≤ share m i j := by
    intro i j
    split
    · exact le_refl _
    · exact (h.share_bounds i j).1
  refine ⟨fun p _ => (h.share_bounds p.1 p.2).1, fun p _ => (h.share_bounds p.1 p.2).2,
    fun i hi => ?_, fun j hj capacity hcapacity => ?_, fun cost hcost => ?_⟩
  · have hi' : i < m.length := h.packets ▸ hi
    calc ∑ p ∈ input.cells with p.1 = i, share m p.1 p.2
        = ∑ j ∈ range input.delays.length, if (i, j) ∈ input.pairs then share m i j else 0 :=
          Input.sum_cells_packet hi
      _ ≤ ∑ j ∈ range input.delays.length, share m i j := sum_le_sum fun j _ => hdrop i j
      _ = m[i].sum := (row_sum h.paths hi').symm
      _ ≤ 1 := h.rows _ (List.getElem_mem hi')
  · calc ∑ p ∈ input.cells with p.2 = j, share m p.1 p.2
        = ∑ i ∈ range input.deadlines.length, if (i, j) ∈ input.pairs then share m i j else 0 :=
          Input.sum_cells_path hj
      _ ≤ ∑ i ∈ range input.deadlines.length, share m i j := sum_le_sum fun i _ => hdrop i j
      _ = (m.map fun row => row.getD j 0).sum := (column_sum h.packets j).symm
      _ ≤ capacity.toNat := h.columns j hj capacity hcapacity
  · calc ∑ p ∈ input.cells, Input.price cost p.2 * share m p.1 p.2
        = ∑ i ∈ range input.deadlines.length, ∑ j ∈ range input.delays.length,
            if (i, j) ∈ input.pairs then Input.price cost j * share m i j else 0 :=
          Input.sum_cells_all
      _ ≤ ∑ i ∈ range input.deadlines.length, ∑ j ∈ range input.delays.length,
            Input.price cost j * share m i j := by
          refine sum_le_sum fun i _ => sum_le_sum fun j _ => ?_
          rw [← mul_ite_zero]
          exact mul_le_mul_of_nonneg_left (hdrop i j) (hprice cost hcost j)
      _ = _ := (cost_sum h.packets h.paths _).symm
      _ ≤ Number.ofFloat cost.budget := h.cost cost hcost

end Bounded

/-! ### The best matrix -/

/-- An amount is not negative, read exactly. -/
theorem nonneg_of_isAmount {x : Float} (h : isAmount x = true) : 0 ≤ (Number.ofFloat x : Rat) := by
  simp only [isAmount, Bool.and_eq_true, Bool.not_eq_true', decide_eq_false_iff_not] at h
  obtain ⟨q, hq⟩ := Binary.isFinite_iff.mp h.1
  have hzero : Binary.toRat? 0.0 = some 0 := by decide +kernel
  rw [Binary.lt_iff hq hzero, not_lt] at h
  simpa [Number.ofFloat, hq] using h.2

theorem price_nonneg {cost : CostBudget} (h : ∀ c ∈ cost.costs, isAmount c = true) (j : Nat) :
    0 ≤ Input.price cost j := by
  unfold Input.price
  cases hj : cost.costs[j]? with
  | none => exact le_refl 0
  | some c => exact nonneg_of_isAmount (h c (List.mem_of_getElem? hj))

/-- Sending nothing obeys all bounds. -/
theorem admits_zero {input : Input}
    (hbudget : ∀ cost, input.cost = some cost → isAmount cost.budget = true) :
    input.Admits fun _ => 0 := by
  refine ⟨fun _ _ => le_refl 0, fun _ _ => zero_le_one, fun _ _ => ?_, fun _ _ capacity _ => ?_,
    fun cost hcost => ?_⟩
  · simp
  · simp
  · simpa using nonneg_of_isAmount (hbudget cost hcost)

/-- **The relaxed assignment is the best there is.**  If costs and budget are amounts and the
solver's verdict on the program is right, there is a matrix of shares.  It obeys all the bounds, it
has nothing on a pair that would be late, and no matrix that obeys the bounds serves more. -/
theorem solve_best (solver : Solver Pair Rat) (input : Input)
    (hcost : ∀ cost, input.cost = some cost →
      isAmount cost.budget = true ∧ ∀ c ∈ cost.costs, isAmount c = true)
    (hsolver : (solver input.program).IsRight input.program) :
    ∃ m, Relaxation.solve solver input = .ok m ∧ Bounded input m ∧
      (∀ i j deadline delay, input.deadlines[i]? = some deadline → input.delays[j]? = some delay →
        ¬ delay ≤ deadline → share m i j = 0) ∧
      ∀ other, Bounded input other → served input other ≤ served input m := by
  have hiff : ∀ {y}, input.program.Feasible y ↔ input.Admits y :=
    Input.feasible_iff fun cost hcost' => nonneg_of_isAmount (hcost cost hcost').1
  have hzero := (admits_zero fun cost hcost' => (hcost cost hcost').1).feasible
  obtain ⟨x, hx, hopt⟩ := hsolver.optimal hzero fun y hy => (hiff.mp hy).value_le
  refine ⟨input.matrix x, Input.solve_of_optimal hx, (hiff.mp hopt.feasible).bounded,
    fun i j deadline delay hi hj hlate => ?_, fun other hother => ?_⟩
  · rw [share_matrix, if_neg]
    rintro hp
    obtain ⟨deadline', delay', hi', hj', hsat⟩ := Input.mem_pairs.mp hp
    obtain rfl := Option.some.inj (hi.symm.trans hi')
    obtain rfl := Option.some.inj (hj.symm.trans hj')
    exact hlate (of_decide_eq_true hsat)
  · rw [served_matrix, served_eq_value]
    exact hopt.greatest _
      (hother.admits fun cost hcost' => price_nonneg (hcost cost hcost').2).feasible

/-- Two packets on a path where each costs 1.5, and a budget for one and a half of them. -/
def halfPaid : Input := ⟨[50.0, 50.0], [10.0], [], some ⟨[1.5], 2.25⟩⟩

/-- All of the first packet and half of the second one. -/
def halfSent (p : Pair) : Rat := if p.1 = 0 then 1 else 1 / 2

theorem cells_halfPaid : halfPaid.cells = {(0, 0), (1, 0)} := by decide +kernel

theorem value_halfPaid (x : Pair → Rat) :
    halfPaid.program.value x = x (0, 0) + x (1, 0) := by
  rw [Input.value_program, cells_halfPaid, sum_pair (by decide)]

/-- The budget of the example, read exactly. -/
theorem cost_halfPaid (x : Pair → Rat) : (∀ cost, halfPaid.cost = some cost →
    ∑ p ∈ halfPaid.cells, Input.price cost p.2 * x p ≤ Number.ofFloat cost.budget) ↔
      x (0, 0) + x (1, 0) ≤ 3 / 2 := by
  have hprice : Input.price ⟨[1.5], 2.25⟩ 0 = 3 / 2 := by decide +kernel
  have hbudget : (Number.ofFloat 2.25 : Rat) = 9 / 4 := by decide +kernel
  have hcost : halfPaid.cost = some ⟨[1.5], 2.25⟩ := rfl
  simp only [hcost, Option.some.injEq, forall_eq', cells_halfPaid]
  rw [sum_pair (by decide), hprice, hbudget]
  constructor <;> intro h <;> linarith

theorem isOptimal_halfSent : halfPaid.program.IsOptimal halfSent := by
  have hpairs : ∀ p ∈ halfPaid.pairs, p = (0, 0) ∨ p = (1, 0) := by decide +kernel
  refine ⟨Input.Admits.feasible ⟨?_, ?_, ?_, ?_, ?_⟩, fun y hy => ?_⟩
  · intro p hp
    rcases hpairs p hp with rfl | rfl <;> norm_num [halfSent]
  · intro p hp
    rcases hpairs p hp with rfl | rfl <;> norm_num [halfSent]
  · intro i hi
    rw [cells_halfPaid]
    match i, hi with
    | 0, _ => norm_num [halfSent, sum_filter]
    | 1, _ => norm_num [halfSent, sum_filter]
  · intro j _ capacity hcapacity
    simp [halfPaid] at hcapacity
  · rw [cost_halfPaid]
    norm_num [halfSent]
  · rw [value_halfPaid, value_halfPaid]
    have hbudget : ∀ cost, halfPaid.cost = some cost → (0 : Rat) ≤ Number.ofFloat cost.budget := by
      rintro cost ⟨⟩
      decide +kernel
    have hy := (cost_halfPaid y).mp ((Input.feasible_iff hbudget).mp hy).cost
    norm_num [halfSent]
    linarith

/-- A solver that knows this serves one and a half packets, and no matrix serves more. -/
theorem solve_best_halfPaid :
    (isAmount 2.25 = true ∧ isAmount 1.5 = true) ∧ halfPaid.program.IsOptimal halfSent ∧
      ∃ m, Relaxation.solve (fun _ => .optimal halfSent) halfPaid = .ok m ∧ Bounded halfPaid m ∧
        (∀ i j deadline delay, halfPaid.deadlines[i]? = some deadline →
          halfPaid.delays[j]? = some delay → ¬ delay ≤ deadline → share m i j = 0) ∧
        ∀ other, Bounded halfPaid other → served halfPaid other ≤ served halfPaid m := by
  have hamounts : isAmount 2.25 = true ∧ isAmount 1.5 = true := by decide +kernel
  refine ⟨hamounts, isOptimal_halfSent, solve_best _ _ ?_ isOptimal_halfSent⟩
  rintro cost ⟨⟩
  exact ⟨hamounts.1, by simpa using hamounts.2⟩

end Relaxation

end Multipath
