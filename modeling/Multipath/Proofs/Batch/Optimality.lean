import Multipath.Batch.Rounding
import Multipath.Proofs.Batch.Integrality

/-!
# The best assignment without a budget

Without a budget, rounding has nothing to decide: the shares of a vertex are whole, and each packet
goes where its share is.

* `Policy.placements`, `Policy.shares`: a policy as a list of pairs, and as shares of 0 and 1.
* `Policy.Obeys`, `Policy.sent`: what a policy has to respect, and how many packets it sends.
* `Policy.Obeys.admits`: such a policy is a solution of the linear program, worth what it sends.
* `shares_direct`: rounding whole shares directly changes nothing.
* `Policy.solve_optimal`: if the solver finds an optimal vertex, no policy sends more packets.
-/

namespace Multipath

open Linear Relaxation Finset

namespace Policy

variable {policy : Policy} {input : Input} {i j : Nat}

/-! ### Policies as pairs -/

/-- How many packets a policy sends. -/
def sent (policy : Policy) : Nat := policy.countP Option.isSome

/-- The packets that are sent, with their paths. -/
def placements (policy : Policy) : List Pair :=
  policy.zipIdx.filterMap fun (choice, i) => choice.map (i, ·)

theorem mem_placements : (i, j) ∈ policy.placements ↔ policy[i]? = some (some j) := by
  simp only [placements, List.mem_filterMap, Prod.exists, List.mem_zipIdx_iff_getElem?,
    Option.map_eq_some_iff, Prod.mk.injEq]
  constructor
  · rintro ⟨choice, i', hi, j', rfl, rfl, rfl⟩
    exact hi
  · intro hi
    exact ⟨some j, i, hi, j, rfl, rfl, rfl⟩

theorem nodup_placements (policy : Policy) : policy.placements.Nodup := by
  refine (pairwise_zipIdx policy).filterMap _ fun e e' hne p hp p' hp' heq => ?_
  obtain ⟨j, -, rfl⟩ := Option.map_eq_some_iff.mp hp
  obtain ⟨j', -, rfl⟩ := Option.map_eq_some_iff.mp hp'
  exact hne (Prod.mk.inj heq).1

theorem length_placements (policy : Policy) : policy.placements.length = policy.sent := by
  have hmap : (policy.zipIdx.map (·.1)).countP Option.isSome = policy.sent := by
    rw [List.zipIdx_map_fst, sent]
  rw [placements, List.length_filterMap_eq_countP, ← hmap, List.countP_map]
  exact List.countP_congr fun e _ => by simp

theorem countP_placements (policy : Policy) (j : Nat) :
    policy.placements.countP (·.2 == j) = policy.count (some j) := by
  have hmap : (policy.zipIdx.map (·.1)).countP (· == some j) = policy.count (some j) := by
    rw [List.zipIdx_map_fst, List.count]
  rw [placements, List.countP_filterMap, ← hmap, List.countP_map]
  refine List.countP_congr fun e _ => ?_
  rcases e with ⟨_ | choice, i⟩ <;> simp

/-- A policy as shares: all of a packet on its path. -/
def shares (policy : Policy) (p : Pair) : Rat := if policy[p.1]? = some (some p.2) then 1 else 0

theorem sum_shares (h : ∀ p ∈ policy.placements, p ∈ input.pairs) (r : Pair → Bool) :
    ∑ p ∈ input.cells with r p = true, policy.shares p = (policy.placements.countP r : Rat) := by
  have hplaced : {p ∈ {p ∈ input.cells | r p = true} | policy[p.1]? = some (some p.2)}
      = (policy.placements.filter r).toFinset := by
    ext ⟨i, j⟩
    simp only [mem_filter, Input.mem_cells, List.mem_toFinset, List.mem_filter, mem_placements]
    constructor
    · rintro ⟨⟨_, hr⟩, hplaced⟩
      exact ⟨hplaced, hr⟩
    · rintro ⟨hplaced, hr⟩
      exact ⟨⟨h _ (mem_placements.mpr hplaced), hr⟩, hplaced⟩
  rw [show policy.shares = fun p => if policy[p.1]? = some (some p.2) then 1 else 0 from rfl,
    sum_boole, hplaced, List.toFinset_card_of_nodup (policy.nodup_placements.filter r),
    List.countP_eq_length_filter]

/-! ### What a policy respects -/

/-- A policy decides about every packet, sends none that would be late, and sends no more packets
on a path than its capacity. -/
structure Obeys (input : Input) (policy : Policy) : Prop where
  complete : policy.length = input.deadlines.length
  inTime : ∀ i j : Nat, policy[i]? = some (some j) → ∃ deadline delay,
    input.deadlines[i]? = some deadline ∧ input.delays[j]? = some delay ∧ delay ≤ deadline
  room : ∀ j capacity, input.capacities[j]? = some capacity →
    policy.count (some j) ≤ capacity.toNat

namespace Obeys

variable (h : policy.Obeys input)
include h

theorem mem_pairs : ∀ p ∈ policy.placements, p ∈ input.pairs := by
  intro p hp
  obtain ⟨deadline, delay, hi, hj, hle⟩ := h.inTime p.1 p.2 (mem_placements.mp hp)
  exact Input.mem_pairs.mpr ⟨deadline, delay, hi, hj, decide_eq_true hle⟩

/-- What a policy is worth as shares is the number of packets it sends. -/
theorem value_shares : input.program.value policy.shares = policy.sent := by
  have hsum := sum_shares h.mem_pairs fun _ => true
  simpa [Input.value_program, length_placements] using hsum

/-- As shares, a policy obeys the bounds of the relaxation, if there is no budget. -/
theorem admits (hcost : input.cost = none) : input.Admits policy.shares := by
  refine ⟨fun p _ => ?_, fun p _ => ?_, fun i _ => ?_, fun j _ capacity hcapacity => ?_,
    fun cost hcost' => ?_⟩
  · unfold shares
    split <;> norm_num
  · unfold shares
    split <;> norm_num
  · have hsum := sum_shares h.mem_pairs (·.1 == i)
    simp only [beq_iff_eq] at hsum
    rw [hsum, ← Nat.cast_one, Nat.cast_le, List.countP_eq_length_filter,
      ← List.toFinset_card_of_nodup (policy.nodup_placements.filter _), card_le_one]
    -- Two placements of one packet are on the path that the policy chooses for it.
    rintro ⟨i₁, j₁⟩ h₁ ⟨i₂, j₂⟩ h₂
    simp only [List.mem_toFinset, List.mem_filter, beq_iff_eq, mem_placements] at h₁ h₂
    obtain ⟨h₁, rfl⟩ := h₁
    obtain ⟨h₂, rfl⟩ := h₂
    rw [h₁] at h₂
    simpa using h₂
  · have hsum := sum_shares h.mem_pairs (·.2 == j)
    simp only [beq_iff_eq] at hsum
    rw [hsum, Nat.cast_le, countP_placements]
    exact h.room j capacity hcapacity
  · simp [hcost] at hcost'

end Obeys

end Policy

/-! ### Rounding whole shares -/

namespace Relaxation

variable {input : Input} {x : Pair → Rat} {i j : Nat}

theorem counts_zero : Rounding.counts (Number.toFloat (0 : Rat)) = false := by decide +kernel

theorem counts_one : Rounding.counts (Number.toFloat (1 : Rat)) = true := by decide +kernel

theorem direct_matrix : Rounding.direct (input.matrix x).toFloats =
    (List.range input.deadlines.length).map fun i =>
      (List.range input.delays.length).findIdx? fun j =>
        Rounding.counts (Number.toFloat (if (i, j) ∈ input.pairs then x (i, j) else 0)) := by
  simp only [Rounding.direct, Rounding.directRow, toFloats, Input.matrix_eq, List.map_map,
    List.findIdx?_map, Function.comp_def]
  rfl

/-- Rounded directly, whole shares are the policy they already were. -/
theorem getElem?_direct (hadmits : input.Admits x)
    (hwhole : ∀ p ∈ input.pairs, x p = 0 ∨ x p = 1) :
    (Rounding.direct (input.matrix x).toFloats)[i]? = some (some j) ↔
      (i, j) ∈ input.pairs ∧ x (i, j) = 1 := by
  have hcounts : ∀ i j : Nat,
      Rounding.counts (Number.toFloat (if (i, j) ∈ input.pairs then x (i, j) else 0)) = true ↔
        (i, j) ∈ input.pairs ∧ x (i, j) = 1 := by
    intro i j
    by_cases hp : (i, j) ∈ input.pairs
    · rcases hwhole _ hp with h | h <;> simp [hp, h, counts_zero, counts_one]
    · simp [hp, counts_zero]
  simp only [direct_matrix, List.getElem?_map, Option.map_eq_some_iff, List.getElem?_eq_some_iff,
    List.findIdx?_eq_some_iff_getElem, List.length_range, List.getElem_range, hcounts]
  constructor
  · rintro ⟨_, ⟨_, rfl⟩, _, h, _⟩
    exact h
  · intro h
    obtain ⟨hi, hj⟩ := Input.lt_of_mem_pairs h.1
    refine ⟨i, ⟨hi, rfl⟩, hj, h, fun j' hlt h' => ?_⟩
    -- A second path would have a second whole share of the packet.
    have hsum := hadmits.packets i hi
    have hne : (i, j') ≠ (i, j) := by simp [hlt.ne]
    have htwo : ∑ p ∈ {(i, j'), (i, j)}, x p ≤ ∑ p ∈ input.cells with p.1 = i, x p := by
      refine sum_le_sum_of_subset_of_nonneg (fun p hp => ?_) fun p hp _ => ?_
      · rcases mem_insert.mp hp with rfl | hp
        · simpa using h'.1
        · rw [mem_singleton.mp hp]
          simpa using h.1
      · exact hadmits.nonneg p (by simpa using (mem_filter.mp hp).1)
    rw [sum_pair hne, h.2, h'.2] at htwo
    linarith

end Relaxation

namespace Policy

variable {input : Input} {x : Pair → Rat}

/-- A policy respects what its shares do. -/
theorem obeys_of_admits {policy : Policy} (hlength : policy.length = input.deadlines.length)
    (hplaced : ∀ p ∈ policy.placements, p ∈ input.pairs) (hadmits : input.Admits policy.shares) :
    policy.Obeys input := by
  refine ⟨hlength, fun i j hij => ?_, fun j capacity hcapacity => ?_⟩
  · obtain ⟨deadline, delay, hi, hj, hsat⟩ :=
      Input.mem_pairs.mp (hplaced (i, j) (mem_placements.mpr hij))
    exact ⟨deadline, delay, hi, hj, of_decide_eq_true hsat⟩
  · by_cases hj : j < input.delays.length
    · have hsum := sum_shares hplaced (·.2 == j)
      simp only [beq_iff_eq, countP_placements] at hsum
      have hroom := hadmits.paths j hj capacity hcapacity
      rw [hsum] at hroom
      exact_mod_cast hroom
    · have hnone : policy.count (some j) = 0 := by
        rw [← countP_placements, List.countP_eq_zero]
        intro p hp heq
        have := (Input.lt_of_mem_pairs (hplaced p hp)).2
        rw [beq_iff_eq.mp heq] at this
        exact hj this
      simp [hnone]

/-- **Without a budget the assignment is the best there is.**  If the solver finds an optimal
vertex of the program it is given, every packet is left out or goes on a path on which it is in
time, no path gets more packets than its capacity, and no assignment that respects the same sends
more packets. -/
theorem solve_optimal (solver : Solver Pair Rat) (deadlines delays : List Float)
    (capacities : List UInt64) (draws : Draws)
    (hsolver : solver.FindsVertex (Input.program ⟨deadlines, delays, capacities, none⟩)) :
    ∃ policy, Policy.solve solver ⟨deadlines, delays, capacities, none⟩ draws = (.ok policy, draws) ∧
      policy.Obeys ⟨deadlines, delays, capacities, none⟩ ∧
      ∀ other : Policy, other.Obeys ⟨deadlines, delays, capacities, none⟩ →
        other.sent ≤ policy.sent := by
  set input : Input := ⟨deadlines, delays, capacities, none⟩
  obtain ⟨x, hx, hopt, hvertex⟩ := hsolver
  have hadmits := (Input.feasible_iff_of_unlimited rfl).mp hvertex.feasible
  have hwhole := Input.whole_of_isVertex rfl hvertex
  set policy : Policy := Rounding.direct (input.matrix x).toFloats with hpolicy
  have hplaced : ∀ p ∈ policy.placements, p ∈ input.pairs := fun p hp =>
    ((getElem?_direct hadmits hwhole).mp (mem_placements.mp hp)).1
  have hshares : ∀ p ∈ input.pairs, policy.shares p = x p := by
    intro p hp
    have hiff := getElem?_direct hadmits hwhole (i := p.1) (j := p.2)
    rcases hwhole p hp with h | h <;> simp [shares, hpolicy, hiff, hp, h]
  have hlength : policy.length = input.deadlines.length := by simp [hpolicy, direct_matrix]
  have hobeys := obeys_of_admits hlength hplaced (hadmits.congr hshares)
  refine ⟨policy, ?_, hobeys, fun other hother => ?_⟩
  · rw [Policy.solve, Input.solve_of_optimal hx]
    rfl
  · have hvalue : input.program.value policy.shares = input.program.value x := by
      rw [Input.value_program, Input.value_program]
      exact sum_congr rfl fun p hp => hshares p (Input.mem_cells.mp hp)
    have hle := hopt.greatest _ (hother.admits rfl).feasible
    rw [hother.value_shares, ← hvalue, hobeys.value_shares] at hle
    exact_mod_cast hle

/-- Two packets that are in time on both of two paths, with room for one packet on each. -/
def spread : Input := ⟨[50.0, 50.0], [10.0, 20.0], [1, 1], none⟩

/-- Each of the two packets on a path of its own. -/
def apart : Policy := [some 0, some 1]

theorem obeys_apart : apart.Obeys spread := by
  refine ⟨rfl, fun i j hij => ?_, fun j capacity hcapacity => ?_⟩
  · match i, hij with
    | 0, rfl => exact ⟨50.0, 10.0, rfl, rfl, by decide +kernel⟩
    | 1, rfl => exact ⟨50.0, 20.0, rfl, rfl, by decide +kernel⟩
  · match j, hcapacity with
    | 0, rfl => decide
    | 1, rfl => decide

/-- A solver that finds this assignment gives it to both packets, and no assignment beats it. -/
theorem solve_optimal_spread :
    Solver.FindsVertex (fun _ => .optimal apart.shares) spread.program ∧
      ∃ policy, Policy.solve (fun _ => .optimal apart.shares) spread default
          = (.ok policy, default) ∧ policy.Obeys spread ∧
        ∀ other : Policy, other.Obeys spread → other.sent ≤ policy.sent := by
  have hfeasible := (obeys_apart.admits rfl).feasible
  have hfinds : Solver.FindsVertex (fun _ => .optimal apart.shares) spread.program := by
    refine ⟨apart.shares, rfl, ⟨hfeasible, fun y hy => ?_⟩, hfeasible.isVertex fun p _ => ?_⟩
    · rw [obeys_apart.value_shares]
      exact ((Input.feasible_iff_of_unlimited rfl).mp hy).value_le
    · unfold shares
      split <;> simp
  exact ⟨hfinds, solve_optimal _ _ _ _ default hfinds⟩

end Policy

end Multipath
