import Multipath.Proofs.Batch.Optimality
import Multipath.Proofs.Batch.Room
import Multipath.Proofs.Batch.Timely

/-!
# Readiness and assignment agree

Whether a batch fits is asked of the windows alone, before anything is known about deadlines, and
the assignment then comes from a linear program.  Its solutions never send more than the capacities
add up to, so what is sent fits.  The other way round, a batch that fits can be split evenly: each
packet in parts that are proportional to the capacities.  If every packet is in time everywhere that
is a solution that sends all of the batch.  An optimal vertex sends no less, and in whole packets.

* `Input.total`, `Admits.value_le_total`: the capacities added up bound every solution.
* `Input.evenShare`, `admits_evenShare`: the even split of a batch that fits.
* `Input.SolvedBy`: an optimal vertex in doubles, up to the tolerance of the rounding.
* `exists_policy`: it becomes a policy that is worth as much.
* `Scheduler.assign_agrees_hasRoom`: the packets that fit, and those that are sent.
-/

namespace Multipath

open Linear Relaxation Finset

namespace Relaxation

variable {input : Input} {x : Pair → Rat}

/-! ### Capacities -/

namespace Input

/-- The capacities of all paths. -/
def total (input : Input) : Nat := (input.capacities.map UInt64.toNat).sum

/-- The capacity of path `j`, as a number. -/
def capacity (input : Input) (j : Nat) : Rat := (input.capacities.getD j 0).toNat

theorem capacity_nonneg (j : Nat) : 0 ≤ input.capacity j := Nat.cast_nonneg _

section Lengths

variable (hlength : input.capacities.length = input.delays.length)
include hlength

theorem sum_capacity : ∑ j ∈ range input.delays.length, input.capacity j = input.total := by
  have hcast : ((input.capacities.map UInt64.toNat).sum : Rat)
      = (input.capacities.map fun c => (c.toNat : Rat)).sum := by
    rw [Nat.cast_list_sum, List.map_map]
    rfl
  rw [total, hcast, sum_map_eq_range _ _ 0, hlength]
  rfl

/-- What is sent fits into the capacities. -/
theorem Admits.value_le_total (h : input.Admits x) : input.program.value x ≤ input.total := by
  have hfits : ∀ j ∈ range input.delays.length,
      ∑ p ∈ input.cells with p.2 = j, x p ≤ input.capacity j := fun j hj => by
    have hj : j < input.delays.length := mem_range.mp hj
    have hcapacity := List.getElem?_eq_getElem (hlength ▸ hj)
    rw [capacity, List.getD_eq_getElem?_getD, hcapacity]
    exact h.paths j hj _ hcapacity
  rw [value_program, ← sum_fiberwise_of_maps_to (t := range input.delays.length) (g := Prod.snd)
    fun p hp => mem_range.mpr (lt_of_mem_pairs (mem_cells.mp hp)).2]
  exact (sum_le_sum hfits).trans_eq (sum_capacity hlength)

end Lengths

/-! ### The even split -/

/-- The part of a packet on a path that its capacity makes of all capacities. -/
def evenShare (input : Input) (p : Pair) : Rat := input.capacity p.2 / input.total

theorem evenShare_nonneg (p : Pair) : 0 ≤ input.evenShare p :=
  div_nonneg (capacity_nonneg _) (Nat.cast_nonneg _)

section Split

variable (hlength : input.capacities.length = input.delays.length) (hpos : 0 < input.total)
include hlength hpos

theorem sum_evenShare (i : Nat) :
    ∑ j ∈ range input.delays.length, input.evenShare (i, j) = 1 := by
  have hne : (input.total : Rat) ≠ 0 := Nat.cast_ne_zero.mpr hpos.ne'
  simp only [evenShare]
  rw [← sum_div, sum_capacity hlength, div_self hne]

/-- A batch that fits can be split evenly. -/
theorem admits_evenShare (hcost : input.cost = none)
    (hroom : input.deadlines.length ≤ input.total) : input.Admits input.evenShare := by
  have hdrop : ∀ i j, (if (i, j) ∈ input.pairs then input.evenShare (i, j) else 0)
      ≤ input.evenShare (i, j) := fun i j => by
    split
    · exact le_refl _
    · exact evenShare_nonneg _
  have hpackets : ∀ i < input.deadlines.length,
      ∑ p ∈ input.cells with p.1 = i, input.evenShare p ≤ 1 := fun i hi => by
    rw [sum_cells_packet hi, ← sum_evenShare hlength hpos i]
    exact sum_le_sum fun j _ => hdrop i j
  refine ⟨fun p _ => evenShare_nonneg p, fun p hp => ?_, hpackets, fun j hj capacity hj' => ?_,
    fun cost hcost' => ?_⟩
  · refine le_trans ?_ (hpackets p.1 (lt_of_mem_pairs hp).1)
    exact single_le_sum (fun q _ => evenShare_nonneg q) (mem_filter.mpr ⟨mem_cells.mpr hp, rfl⟩)
  · have hcapacity : input.capacity j = capacity.toNat := by
      rw [Input.capacity, List.getD_eq_getElem?_getD, hj', Option.getD_some]
    have htotal : (0 : Rat) < input.total := Nat.cast_pos.mpr hpos
    calc ∑ p ∈ input.cells with p.2 = j, input.evenShare p
        = ∑ i ∈ range input.deadlines.length,
            if (i, j) ∈ input.pairs then input.evenShare (i, j) else 0 := sum_cells_path hj
      _ ≤ ∑ _i ∈ range input.deadlines.length, input.capacity j / input.total :=
          sum_le_sum fun i _ => hdrop i j
      _ = input.deadlines.length * (input.capacity j / input.total) := by simp
      _ ≤ input.total * (input.capacity j / input.total) := by
          gcongr
          exact div_nonneg (capacity_nonneg j) htotal.le
      _ = capacity.toNat := by rw [mul_div_cancel₀ _ htotal.ne', hcapacity]
  · simp [hcost] at hcost'

/-- Split evenly, packets that are in time everywhere are sent as a whole. -/
theorem value_evenShare (hinTime : ∀ i < input.deadlines.length, ∀ j < input.delays.length,
    (i, j) ∈ input.pairs) :
    input.program.value input.evenShare = input.deadlines.length := by
  have hrow : ∀ i ∈ range input.deadlines.length, ∑ j ∈ range input.delays.length,
      (if (i, j) ∈ input.pairs then input.evenShare (i, j) else 0) = 1 := fun i hi => by
    rw [← sum_evenShare hlength hpos i]
    exact sum_congr rfl fun j hj =>
      if_pos (hinTime i (mem_range.mp hi) j (mem_range.mp hj))
  rw [value_program, sum_cells_all, sum_congr rfl hrow]
  simp

end Split

/-! ### Vertices in doubles -/

/-- The solver answers the program of an input with an optimal vertex of the program read exactly.
The answer is in doubles, and may differ from the vertex within the tolerance of the rounding. -/
def SolvedBy (input : Input) (solver : Solver Pair Float) : Prop :=
  ∃ y x, solver input.program = .optimal y ∧ input.program.IsOptimal x ∧
    input.program.IsVertex x ∧
    ∀ p ∈ input.pairs, (y p).isFinite = true ∧ |Number.ofFloat (y p) - x p| ≤ 1 / 10 ^ 9

end Input

/-- A double next to a whole share counts if the share is 1. -/
theorem counts_near {y : Float} {q : Rat} (hfinite : y.isFinite = true)
    (hnear : |Number.ofFloat y - q| ≤ 1 / 10 ^ 9) (hwhole : q = 0 ∨ q = 1) :
    Rounding.counts y = true ↔ q = 1 := by
  rw [Rounding.counts_iff (toRat?_of_isFinite hfinite)]
  obtain ⟨hlow, hhigh⟩ := abs_le.mp hnear
  rcases hwhole with rfl | rfl
  · refine iff_of_false (not_lt.mpr ?_) zero_ne_one
    exact le_trans (by linarith) (by norm_num : (1 : Rat) / 10 ^ 9 ≤ _)
  · refine iff_of_true (lt_of_lt_of_le ?_ (by linarith : (1 : Rat) - 1 / 10 ^ 9 ≤ _)) rfl
    norm_num

/-- Doubles next to whole shares are rounded as the shares are. -/
theorem direct_near {y : Pair → Float}
    (hnear : ∀ p ∈ input.pairs, (y p).isFinite = true ∧ |Number.ofFloat (y p) - x p| ≤ 1 / 10 ^ 9)
    (hwhole : ∀ p ∈ input.pairs, x p = 0 ∨ x p = 1) :
    Rounding.direct (input.matrix y).toFloats = Rounding.direct (input.matrix x).toFloats := by
  rw [direct_matrix]
  simp only [Rounding.direct, Rounding.directRow, toFloats_matrix, List.map_map,
    List.findIdx?_map, Function.comp_def]
  refine List.map_congr_left fun i _ => congrArg (List.findIdx? · _) (funext fun j => ?_)
  rw [Bool.eq_iff_iff]
  by_cases hp : (i, j) ∈ input.pairs
  · obtain ⟨hfinite, hclose⟩ := hnear _ hp
    rw [if_pos hp, if_pos hp, counts_near hfinite hclose (hwhole _ hp)]
    rcases hwhole _ hp with h | h <;> simp [h, counts_zero, counts_one]
  · rw [if_neg hp, if_neg hp, counts_zero]
    decide +kernel

end Relaxation

namespace Policy

variable {input : Input} {x : Pair → Rat}

/-- Whole shares are a policy that is worth as much. -/
theorem obeys_direct (hadmits : input.Admits x) (hwhole : ∀ p ∈ input.pairs, x p = 0 ∨ x p = 1) :
    Obeys input (Rounding.direct (input.matrix x).toFloats) ∧
      (sent (Rounding.direct (input.matrix x).toFloats) : Rat) = input.program.value x := by
  have hplaced : ∀ p ∈ placements (Rounding.direct (input.matrix x).toFloats), p ∈ input.pairs :=
    fun p hp => ((getElem?_direct hadmits hwhole).mp (mem_placements.mp hp)).1
  have hshares : ∀ p ∈ input.pairs,
      shares (Rounding.direct (input.matrix x).toFloats) p = x p := fun p hp => by
    have hiff := getElem?_direct hadmits hwhole (i := p.1) (j := p.2)
    rcases hwhole p hp with h | h <;> simp [shares, hiff, hp, h]
  have hobeys := obeys_of_admits (by simp [direct_matrix]) hplaced (hadmits.congr hshares)
  refine ⟨hobeys, ?_⟩
  rw [← hobeys.value_shares, Input.value_program, Input.value_program]
  exact sum_congr rfl fun p hp => hshares p (Input.mem_cells.mp hp)

/-- An optimal vertex becomes a policy that is worth as much. -/
theorem exists_policy {solver : Solver Pair Float} (hcost : input.cost = none)
    (hsolver : input.SolvedBy solver) (draws : Draws) :
    ∃ policy x, (Policy.solve solver input draws).1 = .ok policy ∧ policy.Obeys input ∧
      input.program.IsOptimal x ∧ (policy.sent : Rat) = input.program.value x := by
  obtain ⟨y, x, hy, hopt, hvertex, hnear⟩ := hsolver
  have hwhole := Input.whole_of_isVertex hcost hvertex
  obtain ⟨hobeys, hsent⟩ := obeys_direct
    ((Input.feasible_iff_of_unlimited hcost).mp hvertex.feasible) hwhole
  refine ⟨_, x, ?_, hobeys, hopt, hsent⟩
  simp only [Policy.solve, Input.solve_of_optimal hy, hcost, Option.isSome_none, Bool.false_eq_true,
    if_false]
  rw [direct_near hnear hwhole]

/-- The number of packets sent does not depend on how the paths are named. -/
theorem countP_named {usable : List Path} {policy : Policy}
    (h : ∀ i j : Nat, policy[i]? = some (some j) → j < usable.length) :
    (named usable policy).countP Option.isSome = policy.sent := by
  rw [named, List.countP_map, sent]
  refine List.countP_congr fun c hc => ?_
  rcases c with _ | j
  · rfl
  · obtain ⟨i, hi⟩ := List.getElem?_of_mem hc
    simp [h i j hi]

end Policy

/-! ### Batches that fit -/

namespace Scheduler

variable {s : Scheduler} {solver : Solver Pair Float} {paths : PathSet} {deadlines : List Float}

theorem total_relaxationInput :
    (s.relaxationInput paths.usable deadlines).total = paths.room := by
  rw [Input.total, relaxationInput, List.map_map]
  rfl

theorem length_relaxationInput : (s.relaxationInput paths.usable deadlines).capacities.length
    = (s.relaxationInput paths.usable deadlines).delays.length := by
  simp [relaxationInput]

/-- Packets whose deadlines leave the time for every path are in time on all of them. -/
theorem mem_pairs_of_inTime
    (hinTime : ∀ d ∈ deadlines, ∀ p ∈ paths.usable, s.expectedDelay p ≤ d) :
    ∀ i < (s.relaxationInput paths.usable deadlines).deadlines.length,
      ∀ j < (s.relaxationInput paths.usable deadlines).delays.length,
        (i, j) ∈ (s.relaxationInput paths.usable deadlines).pairs := by
  intro i hi j hj
  have hj' : j < paths.usable.length := by simpa [relaxationInput] using hj
  refine Input.mem_pairs.mpr ⟨_, _, List.getElem?_eq_getElem hi, List.getElem?_eq_getElem hj, ?_⟩
  refine decide_eq_true ?_
  simp only [relaxationInput, List.getElem_map]
  exact hinTime _ (List.getElem_mem _) _ (List.getElem_mem hj')

/-- **Readiness and assignment agree.**  With several paths, let linear programming without a budget
assign a batch that is not empty, and let the solver find an optimal vertex.  The packets that are
sent are no more than there is room for.  And if there is room for the batch, and each packet is in
time on each path that may be used, all of it is sent. -/
theorem assign_agrees_hasRoom (solver : Solver Pair Float) (s : Scheduler) (paths : PathSet)
    (deadlines : List Float) (demand : Demand) (hpaths : 2 ≤ paths.size) (hbatch : deadlines ≠ [])
    (hstrategy : s.batch.strategy = .linOpt) (hfree : s.batch.limitsCost = false)
    (hsolver : (s.relaxationInput paths.usable deadlines).SolvedBy solver) :
    (∀ a, (s.assign solver paths deadlines demand).1 = some a →
      paths.hasRoom (a.countP Option.isSome) = true) ∧
    (paths.hasRoom deadlines.length = true →
      (∀ d ∈ deadlines, ∀ p ∈ paths.usable, s.expectedDelay p ≤ d) →
        ∃ a, (s.assign solver paths deadlines demand).1 = some a ∧
          a.length = deadlines.length ∧ ∀ c ∈ a, c.isSome = true) := by
  have hassign : s.assign solver paths deadlines demand = s.assignLinear solver paths deadlines := by
    rw [assign, if_neg (by omega)]
    simp only [hstrategy]
  rw [hassign]
  simp only [PathSet.hasRoom_iff]
  by_cases husable : paths.usable = []
  · -- Without a path that may be used nothing is assigned, and there is no room.
    have hnone : (s.assignLinear solver paths deadlines).1 = none := by
      simp only [assignLinear, husable]
    have hroom : paths.room = 0 := by simp [PathSet.room, husable]
    have hpos := List.length_pos_iff.mpr hbatch
    refine ⟨fun a ha => ?_, fun hfits => ?_⟩
    · rw [hnone] at ha
      cases ha
    · omega
  · have hcost : (s.relaxationInput paths.usable deadlines).cost = none := by
      simp [relaxationInput, hfree]
    obtain ⟨policy, x, hpolicy, hobeys, hopt, hsent⟩ :=
      Policy.exists_policy hcost hsolver s.draws
    have hsome : (s.assignLinear solver paths deadlines).1
        = some (Policy.named paths.usable policy) := by
      rw [assignLinear_eq husable, hpolicy]
    have hcount : (Policy.named paths.usable policy).countP Option.isSome = policy.sent :=
      Policy.countP_named fun i j hij => by
        obtain ⟨_, _, -, hj, -⟩ := hobeys.inTime i j hij
        simpa [relaxationInput] using (List.getElem?_eq_some_iff.mp hj).1
    have hcomplete : (Policy.named paths.usable policy).length = deadlines.length := by
      rw [Policy.named, List.length_map, hobeys.complete]
      rfl
    simp only [hsome, Option.some.injEq, forall_eq', exists_eq_left', hcount]
    refine ⟨?_, fun hfits hinTime => ⟨hcomplete, List.countP_eq_length.mp ?_⟩⟩
    · have hadmits := (Input.feasible_iff_of_unlimited hcost).mp hopt.feasible
      have hle := hadmits.value_le_total length_relaxationInput
      rw [← hsent, total_relaxationInput] at hle
      exact_mod_cast hle
    · -- The even split is worth the whole batch, so the optimum is worth no less.
      have hpos : 0 < (s.relaxationInput paths.usable deadlines).total := by
        rw [total_relaxationInput]
        exact lt_of_lt_of_le (List.length_pos_iff.mpr hbatch) hfits
      have hsplit := Input.admits_evenShare length_relaxationInput hpos hcost
        (total_relaxationInput ▸ hfits)
      have hle := hopt.greatest _ hsplit.feasible
      rw [Input.value_evenShare length_relaxationInput hpos (mem_pairs_of_inTime hinTime),
        ← hsent] at hle
      have hall : deadlines.length ≤ policy.sent := by exact_mod_cast hle
      refine le_antisymm List.countP_le_length ?_
      rwa [hcount, hcomplete]

/-! ### A batch for two windows -/

/-- A scheduler without a budget. -/
def unlimited : Scheduler :=
  .new {} { strategy := .linOpt } ⟨1⟩ ⟨0⟩ none default (.ofList [])

/-- Two packets of 12 milliseconds for it, on paths on which a packet takes 10. -/
def twoPackets : Input := unlimited.relaxationInput narrowPaths.usable [12.0, 12.0]

theorem obeys_twoPackets : Policy.apart.Obeys twoPackets := by
  refine ⟨rfl, fun i j hij => ?_, fun j capacity hcapacity => ?_⟩
  · match i, hij with
    | 0, rfl => exact ⟨_, _, rfl, rfl, by decide +kernel⟩
    | 1, rfl => exact ⟨_, _, rfl, rfl, by decide +kernel⟩
  · match j, hcapacity with
    | 0, rfl => decide +kernel
    | 1, rfl => decide +kernel

/-- The dual simplex method finds an optimal vertex: each packet on a path of its own. -/
theorem solvedBy_twoPackets : twoPackets.SolvedBy DualSimplex.solve := by
  have hfeasible := (obeys_twoPackets.admits rfl).feasible
  have hoptimal : twoPackets.program.IsOptimal Policy.apart.shares :=
    ⟨hfeasible, fun y hy => by
      rw [obeys_twoPackets.value_shares]
      exact ((Input.feasible_iff_of_unlimited rfl).mp hy).value_le⟩
  have hvertex := hfeasible.isVertex fun p _ => by
    unfold Policy.shares
    split <;> simp
  have hanswer : (DualSimplex.solve twoPackets.program).solution?.any fun y =>
      decide (∀ p ∈ twoPackets.pairs, (y p).isFinite = true ∧
        |Number.ofFloat (y p) - Policy.apart.shares p| ≤ 1 / 10 ^ 9) := by
    decide +kernel
  obtain ⟨y, hy, hnear⟩ := (Option.any_eq_true _ _).mp hanswer
  exact ⟨y, _, Verdict.eq_optimal hy, hoptimal, hvertex, of_decide_eq_true hnear⟩

/-- There is room for both packets, and both are sent. -/
theorem assign_agrees_hasRoom_twoPackets :
    2 ≤ narrowPaths.size ∧ unlimited.batch.strategy = .linOpt ∧
    unlimited.batch.limitsCost = false ∧ twoPackets.SolvedBy DualSimplex.solve ∧
    narrowPaths.hasRoom 2 = true ∧
    (∀ d ∈ [12.0, 12.0], ∀ p ∈ narrowPaths.usable, unlimited.expectedDelay p ≤ d) ∧
    (∀ a, (unlimited.assign DualSimplex.solve narrowPaths [12.0, 12.0] {}).1 = some a →
      narrowPaths.hasRoom (a.countP Option.isSome) = true) ∧
    ∃ a, (unlimited.assign DualSimplex.solve narrowPaths [12.0, 12.0] {}).1 = some a ∧
      a.length = 2 ∧ ∀ c ∈ a, c.isSome = true := by
  have hroom : narrowPaths.hasRoom 2 = true := by decide +kernel
  have hinTime : ∀ d ∈ [12.0, 12.0], ∀ p ∈ narrowPaths.usable, unlimited.expectedDelay p ≤ d := by
    decide +kernel
  obtain ⟨hfits, hall⟩ := assign_agrees_hasRoom DualSimplex.solve unlimited narrowPaths
    [12.0, 12.0] {} (le_refl 2) (by simp) rfl rfl solvedBy_twoPackets
  exact ⟨le_refl 2, rfl, rfl, solvedBy_twoPackets, hroom, hinTime, hfits, hall hroom hinTime⟩

end Scheduler

end Multipath
