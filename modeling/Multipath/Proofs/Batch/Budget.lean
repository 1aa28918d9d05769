import Multipath.Batch.Assignment
import Multipath.Proofs.Batch.Average
import Multipath.Proofs.Batch.Relaxed

/-!
# Batches with a budget

The program keeps the shares within the budget and the windows.  Rounding sends whole packets, so
an outcome in which a coin is won may go beyond both, by what the share lacked of a packet.  On
average over the draws this evens out, but for the tolerance within which a share counts as full.

* `Policy.excess`: what the packets sent lack of a whole share.
* `Grants`: shares that are a solution up to some `ε`, as a numerical solver may find them.
* `Grants.cost_le`, `Grants.path_le`: the shares keep to the budget and to the capacities.
* `Grants.worth_le`: an outcome is worth what the shares are, and its excess.
* `Grants.mean_worth_le`: on average there is no excess, but for a factor of `1 + 2 / 10 ^ 9`.
-/

namespace Multipath.Policy

open Linear Relaxation

/-- What the packets sent lack of a whole share, if a packet on path `j` is worth `f j`. -/
def excess (x : Pair → Float) (f : Nat → Rat) (policy : Policy) : Rat :=
  (policy.zipIdx.map fun (c, i) => c.elim 0 fun j => (1 - (Number.ofFloat (x (i, j)) : Rat)) * f j).sum

end Multipath.Policy

namespace Multipath.Relaxation

open Linear Rounding Finset

variable {input : Input} {x : Pair → Float}

/-! ### Rows -/

/-- The rows that are rounded. -/
theorem toFloats_matrix (x : Pair → Float) : (input.matrix x).toFloats =
    (List.range input.deadlines.length).map fun i =>
      (List.range input.delays.length).map fun j => if (i, j) ∈ input.pairs then x (i, j) else 0.0 := by
  rw [Input.matrix_eq, toFloats]
  simp only [List.map_map, Function.comp_def]
  rfl

theorem length_toFloats_matrix (x : Pair → Float) :
    (input.matrix x).toFloats.length = input.deadlines.length := by
  simp [toFloats_matrix]

theorem getElem?_row {i j : Nat} (hi : i < input.deadlines.length) {share : Float}
    (h : ((input.matrix x).toFloats.getD i [])[j]? = some share) :
    ((i, j) ∈ input.pairs ∧ share = x (i, j)) ∨ share = 0.0 := by
  rw [toFloats_matrix] at h
  simp only [List.getD_eq_getElem?_getD, List.getElem?_map, List.getElem?_range hi,
    Option.map_some, Option.getD_some, Option.map_eq_some_iff] at h
  obtain ⟨j', hj', rfl⟩ := h
  obtain ⟨hj, rfl⟩ := List.getElem?_eq_some_iff.mp hj'
  simp only [List.getElem_range]
  split
  · next hp => exact .inl ⟨hp, rfl⟩
  · exact .inr rfl

theorem sure_row {i j : Nat} (hi : i < input.deadlines.length)
    (h : choice ((input.matrix x).toFloats.getD i []) = .sure j) :
    (i, j) ∈ input.pairs ∧ isFull (x (i, j)) = true := by
  obtain ⟨share, hshare, hfull⟩ := choice_sure h
  rcases getElem?_row hi hshare with ⟨hp, rfl⟩ | rfl
  · exact ⟨hp, hfull⟩
  · exact absurd hfull (by decide +kernel)

theorem tossed_row {i j : Nat} {share : Float} (hi : i < input.deadlines.length)
    (h : choice ((input.matrix x).toFloats.getD i []) = .tossed share j) :
    (i, j) ∈ input.pairs ∧ share = x (i, j) ∧ isFull share = false ∧ counts share = true := by
  obtain ⟨hshare, hfull, hcounts⟩ := choice_tossed h
  rcases getElem?_row hi hshare with ⟨hp, rfl⟩ | rfl
  · exact ⟨hp, rfl, hfull, hcounts⟩
  · exact absurd hcounts (by decide +kernel)

/-! ### Shares -/

/-- Shares as a solver may grant them: finite, and, read exactly, a solution of the program up to
`ε`. -/
structure Grants (input : Input) (ε : Rat) (x : Pair → Float) : Prop where
  finite : ∀ p ∈ input.pairs, (x p).isFinite = true
  feasible : input.program.FeasibleWithin ε fun p => Number.ofFloat (x p)

instance (input : Input) (ε : Rat) (x : Pair → Float) : Decidable (Grants input ε x) :=
  decidable_of_iff ((∀ p ∈ input.pairs, (x p).isFinite = true) ∧
      input.program.FeasibleWithin ε fun p => Number.ofFloat (x p))
    ⟨fun h => ⟨h.1, h.2⟩, fun h => ⟨h.finite, h.feasible⟩⟩

theorem toRat?_of_isFinite {y : Float} (h : y.isFinite = true) :
    Binary.toRat? y = some (Number.ofFloat y) := by
  obtain ⟨q, hq⟩ := Binary.isFinite_iff.mp h
  simp [Number.ofFloat, hq]

/-- A share, read exactly; one below zero is none. -/
def amount (x : Pair → Float) (p : Pair) : Rat := max 0 (Number.ofFloat (x p))

theorem amount_nonneg (x : Pair → Float) (p : Pair) : 0 ≤ amount x p := le_max_left _ _

theorem ofFloat_le_amount (x : Pair → Float) (p : Pair) : Number.ofFloat (x p) ≤ amount x p :=
  le_max_right _ _

/-- What the shares are worth, if a packet on path `j` is worth `f j`. -/
def sharesWorth (input : Input) (x : Pair → Float) (f : Nat → Rat) : Rat :=
  ∑ p ∈ input.cells, amount x p * f p.2

/-- What the shares of packet `i` are worth. -/
def rowWorth (input : Input) (x : Pair → Float) (f : Nat → Rat) (i : Nat) : Rat :=
  ∑ j ∈ range input.delays.length, if (i, j) ∈ input.pairs then amount x (i, j) * f j else 0

theorem sharesWorth_eq (x : Pair → Float) (f : Nat → Rat) : sharesWorth input x f
    = ∑ i ∈ range input.deadlines.length, rowWorth input x f i :=
  Input.sum_cells_all (x := fun p => amount x p * f p.2)

section Worth

variable (x : Pair → Float) {f : Nat → Rat} (hf : ∀ j, 0 ≤ f j)
include hf

theorem term_nonneg (i j : Nat) :
    0 ≤ if (i, j) ∈ input.pairs then amount x (i, j) * f j else 0 := by
  split
  · exact mul_nonneg (amount_nonneg x _) (hf j)
  · exact le_refl 0

theorem rowWorth_nonneg (i : Nat) : 0 ≤ rowWorth input x f i :=
  sum_nonneg fun j _ => term_nonneg x hf i j

theorem le_rowWorth {i j : Nat} (hp : (i, j) ∈ input.pairs) :
    (Number.ofFloat (x (i, j)) : Rat) * f j ≤ rowWorth input x f i :=
  calc (Number.ofFloat (x (i, j)) : Rat) * f j
      ≤ amount x (i, j) * f j := mul_le_mul_of_nonneg_right (ofFloat_le_amount x _) (hf j)
    _ = if (i, j) ∈ input.pairs then amount x (i, j) * f j else 0 := (if_pos hp).symm
    _ ≤ rowWorth input x f i :=
        single_le_sum (f := fun j => if (i, j) ∈ input.pairs then amount x (i, j) * f j else 0)
          (fun j _ => term_nonneg x hf i j) (mem_range.mpr (Input.lt_of_mem_pairs hp).2)

end Worth

namespace Grants

variable {ε : Rat} (h : Grants input ε x) {f : Nat → Rat} (hf : ∀ j, 0 ≤ f j)
include h hf

/-- On average a rounded row is worth at most what its shares are, but for the tolerance. -/
theorem mean_row_le {i : Nat} (hi : i < input.deadlines.length) :
    (choice ((input.matrix x).toFloats.getD i [])).mean f
      ≤ (1 + 2 / 10 ^ 9) * rowWorth input x f i := by
  have hrow : 0 ≤ rowWorth input x f i := rowWorth_nonneg x hf i
  cases hchoice : choice ((input.matrix x).toFloats.getD i []) with
  | dropped =>
    change 0 ≤ _
    positivity
  | sure j =>
    obtain ⟨hp, hfull⟩ := sure_row hi hchoice
    rw [isFull_iff (toRat?_of_isFinite (h.finite _ hp))] at hfull
    calc f j ≤ (1 + 2 / 10 ^ 9) * ((9007199245733793 / 9007199254740992) * f j) := by
          have := hf j
          linarith
      _ ≤ (1 + 2 / 10 ^ 9) * ((Number.ofFloat (x (i, j)) : Rat) * f j) := by
          gcongr
          exact hf j
      _ ≤ (1 + 2 / 10 ^ 9) * rowWorth input x f i := by
          gcongr
          exact le_rowWorth x hf hp
  | tossed share j =>
    obtain ⟨hp, rfl, hfull, hcounts⟩ := tossed_row hi hchoice
    have hchance := chance_le (toRat?_of_isFinite (h.finite _ hp)) hfull hcounts
    calc ((x (i, j) * Draws.scale).toUInt64.toNat : Rat) / 2 ^ 64 * f j
        ≤ (Number.ofFloat (x (i, j)) : Rat) * f j := by
          gcongr
          exact hf j
      _ ≤ rowWorth input x f i := le_rowWorth x hf hp
      _ ≤ (1 + 2 / 10 ^ 9) * rowWorth input x f i := by linarith

/-- On average a rounded solution is worth at most what its shares are, but for the tolerance. -/
theorem mean_worth_le :
    Draws.mean input.deadlines.length (fun d => Policy.worth f (greedy (input.matrix x).toFloats d).1)
      ≤ (1 + 2 / 10 ^ 9) * sharesWorth input x f := by
  rw [mean_greedy f _ (length_toFloats_matrix x).le, length_toFloats_matrix, sharesWorth_eq,
    mul_sum]
  exact sum_le_sum fun i hi => h.mean_row_le hf (mem_range.mp hi)

end Grants

/-! ### The limits of the shares -/

/-- By how much a solution up to `ε` may go beyond a limit, if a packet on path `j` is worth `f j`:
the limit itself may be broken, and every pair may have a share below zero. -/
def Input.slack (input : Input) (ε : Rat) (f : Nat → Rat) : Rat :=
  ε * (1 + ∑ p ∈ input.cells, f p.2)

theorem Input.slack_nonneg {ε : Rat} (hε : 0 ≤ ε) {f : Nat → Rat} (hf : ∀ j, 0 ≤ f j) :
    0 ≤ input.slack ε f :=
  mul_nonneg hε (add_nonneg zero_le_one (sum_nonneg fun p _ => hf p.2))

namespace Grants

variable {ε : Rat} (h : Grants input ε x) (hε : 0 ≤ ε)
include h hε

/-- A limit on the shares is a limit on what they are worth. -/
theorem sharesWorth_le {f : Nat → Rat} (hf : ∀ j, 0 ≤ f j) {bound : Rat}
    (hbound : ∑ p ∈ input.cells, f p.2 * (Number.ofFloat (x p) : Rat) ≤ bound + ε) :
    sharesWorth input x f ≤ bound + input.slack ε f := by
  have hamount : ∀ p ∈ input.cells,
      amount x p * f p.2 ≤ f p.2 * (Number.ofFloat (x p) : Rat) + ε * f p.2 := by
    intro p hp
    have hnonneg := h.feasible.nonneg p (Input.mem_cells.mp hp)
    have hle : amount x p ≤ Number.ofFloat (x p) + ε := max_le (by linarith) (by linarith)
    calc amount x p * f p.2 ≤ (Number.ofFloat (x p) + ε) * f p.2 :=
          mul_le_mul_of_nonneg_right hle (hf p.2)
      _ = f p.2 * (Number.ofFloat (x p) : Rat) + ε * f p.2 := by ring
  calc sharesWorth input x f
      ≤ ∑ p ∈ input.cells, (f p.2 * (Number.ofFloat (x p) : Rat) + ε * f p.2) :=
        sum_le_sum hamount
    _ = (∑ p ∈ input.cells, f p.2 * (Number.ofFloat (x p) : Rat))
          + ε * ∑ p ∈ input.cells, f p.2 := by rw [sum_add_distrib, mul_sum]
    _ ≤ bound + input.slack ε f := by
        rw [Input.slack, mul_add, mul_one]
        linarith

/-- The shares cost no more than the budget. -/
theorem cost_le {cost : CostBudget} (hcost : input.cost = some cost)
    (hbudget : (0 : Rat) ≤ Number.ofFloat cost.budget) (hprice : ∀ j, 0 ≤ Input.price cost j) :
    sharesWorth input x (Input.price cost)
      ≤ Number.ofFloat cost.budget + input.slack ε (Input.price cost) := by
  refine h.sharesWorth_le hε hprice ?_
  rw [← Input.weight_costRow]
  exact Input.weight_le_of_mem_rows h.feasible.bounded
    (Input.mem_rows.mpr (.inr (.inr ⟨cost, hcost, rfl⟩))) (add_nonneg hbudget hε)

/-- The shares on a path are no more than its capacity. -/
theorem path_le {j : Nat} (hj : j < input.delays.length) {capacity : UInt64}
    (hcapacity : input.capacities[j]? = some capacity) :
    sharesWorth input x (fun k => if k = j then 1 else 0)
      ≤ capacity.toNat + input.slack ε fun k => if k = j then 1 else 0 := by
  refine h.sharesWorth_le hε (fun k => by split <;> norm_num) ?_
  have hrow := Input.weight_le_of_mem_rows h.feasible.bounded
    (Input.mem_rows.mpr (.inr (.inl ⟨j, hj, capacity, hcapacity, rfl⟩)))
    (add_nonneg (Nat.cast_nonneg capacity.toNat) hε)
  rw [Input.weight_pathRow, sum_filter] at hrow
  simp only [ite_mul, one_mul, zero_mul]
  exact hrow

end Grants

/-! ### Single outcomes -/

theorem length_greedy (d : Draws) :
    (greedy (input.matrix x).toFloats d).1.length = input.deadlines.length := by
  simp [greedy_eq, length_toFloats_matrix]

/-- A packet is sent only on a path that has a share of it that is full or counts. -/
theorem sent_greedy {d : Draws} {i j : Nat}
    (hsent : (greedy (input.matrix x).toFloats d).1[i]? = some (some j)) :
    (i, j) ∈ input.pairs ∧ (isFull (x (i, j)) = true ∨ counts (x (i, j)) = true) := by
  have hi : i < input.deadlines.length := by
    rw [← length_greedy d]
    exact (List.getElem?_eq_some_iff.mp hsent).1
  rw [greedy_eq, List.getElem?_map, length_toFloats_matrix, List.getElem?_range hi] at hsent
  simp only [Option.map_some, Option.some.injEq] at hsent
  cases hchoice : choice ((input.matrix x).toFloats.getD i []) with
  | dropped =>
    rw [hchoice] at hsent
    cases hsent
  | sure j' =>
    rw [hchoice] at hsent
    cases hsent
    obtain ⟨hp, hfull⟩ := sure_row hi hchoice
    exact ⟨hp, .inl hfull⟩
  | tossed share j' =>
    obtain ⟨hp, rfl, -, hcounts⟩ := tossed_row hi hchoice
    rw [hchoice, Choice.outcome] at hsent
    split at hsent
    · cases hsent
      exact ⟨hp, .inr hcounts⟩
    · cases hsent

/-- A packet is sent only on a path of which it was granted a share. -/
theorem Grants.getElem?_greedy {ε : Rat} (h : Grants input ε x) {d : Draws} {i j : Nat}
    (hsent : (greedy (input.matrix x).toFloats d).1[i]? = some (some j)) :
    (i, j) ∈ input.pairs ∧ 1 / 10 ^ 9 < (Number.ofFloat (x (i, j)) : Rat) := by
  obtain ⟨hp, hshare⟩ := sent_greedy hsent
  have hread := toRat?_of_isFinite (h.finite _ hp)
  rw [isFull_iff hread, counts_iff hread] at hshare
  refine ⟨hp, ?_⟩
  rcases hshare with hfull | hcounts
  · exact lt_of_lt_of_le (by norm_num) hfull
  · exact lt_trans (by norm_num) hcounts

/-- A rounded solution is worth at most what its shares are and what the packets sent lack of a
whole share. -/
theorem Grants.worth_le {ε : Rat} (h : Grants input ε x) {f : Nat → Rat} (hf : ∀ j, 0 ≤ f j)
    (d : Draws) :
    Policy.worth f (greedy (input.matrix x).toFloats d).1
      ≤ sharesWorth input x f + Policy.excess x f (greedy (input.matrix x).toFloats d).1 := by
  set policy := (greedy (input.matrix x).toFloats d).1 with hpolicy
  have hlength : policy.length = input.deadlines.length := length_greedy d
  rw [Policy.worth, Policy.excess, sum_map_eq_range _ _ none, sum_zipIdx_eq_range _
    (fun c i => Option.elim c 0 fun j => (1 - (Number.ofFloat (x (i, j)) : Rat)) * f j) none,
    hlength, sharesWorth_eq, ← sum_add_distrib]
  refine sum_le_sum fun i hi => ?_
  have hi : i < policy.length := hlength ▸ mem_range.mp hi
  rw [List.getD_eq_getElem?_getD, List.getElem?_eq_getElem hi, Option.getD_some]
  cases hchoice : policy[i] with
  | none => exact add_nonneg (rowWorth_nonneg x hf i) (le_refl 0)
  | some j =>
    have hp := (h.getElem?_greedy (hpolicy ▸ List.getElem?_eq_some_iff.mpr ⟨hi, hchoice⟩)).1
    have hrow := le_rowWorth x hf hp
    simp only [Option.elim_some]
    linarith

/-- Nothing is sent of shares that are all zero. -/
theorem greedy_zero (d : Draws) : (greedy (input.matrix fun _ => 0.0).toFloats d).1
    = input.deadlines.map fun _ => none := by
  refine List.ext_getElem (by simp [length_greedy]) fun i hi _ => ?_
  rw [length_greedy] at hi
  simp only [greedy_eq, List.getElem_map, List.getElem_range]
  cases hchoice : choice ((input.matrix fun _ => (0.0 : Float)).toFloats.getD i []) with
  | dropped => rfl
  | sure j => exact absurd (sure_row hi hchoice).2 (by decide +kernel)
  | tossed share j =>
    obtain ⟨-, rfl, -, hcounts⟩ := tossed_row hi hchoice
    exact absurd hcounts (by decide +kernel)

end Multipath.Relaxation
