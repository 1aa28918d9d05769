import Multipath.Linear.DualSimplex
import Multipath.Proofs.Batch.Budget
import Multipath.Proofs.Config.Bounds
import Multipath.Proofs.Decimal.Adding
import Multipath.Proofs.Path.Queues

/-!
# The limits of a batch

An assignment with a budget keeps to the budget and to the windows only as far as coins allow: the
program limits the shares of the packets, and a packet that wins its coin is sent as a whole.

* `Assignment.worth`, `Assignment.excess`: weighted sums over the packets sent, and over what they
  lack of a whole share.
* `Scheduler.granted`: the share of a packet that the solver grants on a path.
* `Scheduler.costOf_le`: costs added up in doubles and exactly.
* `Scheduler.exists_grants`: an assignment is a rounded solution.
* `Scheduler.assign_near_limits`: what an outcome may go beyond the limits, and the means.
-/

namespace Multipath

open Linear Relaxation Finset

/-! ### Weighted assignments -/

namespace Assignment

/-- What an assignment is worth, if a packet on a path is worth `w`. -/
def worth (w : PathId → Rat) (a : Assignment) : Rat := (a.map fun c => c.elim 0 w).sum

/-- What the packets sent lack of a whole share, weighted alike. -/
def excess (share : Nat → PathId → Rat) (w : PathId → Rat) (a : Assignment) : Rat :=
  (a.zipIdx.map fun (c, i) => c.elim 0 fun id => (1 - share i id) * w id).sum

/-- The weight that counts the packets on one path. -/
def only (id : PathId) (id' : PathId) : Rat := if id' = id then 1 else 0

theorem only_nonneg (id id' : PathId) : 0 ≤ only id id' := by
  unfold only
  split <;> norm_num

theorem worth_eq_sum (w : PathId → Rat) (a : Assignment) :
    a.worth w = ((a.filterMap id).map w).sum := by
  induction a with
  | nil => rfl
  | cons c a ih =>
    rw [worth, List.map_cons, List.sum_cons, ← worth, ih]
    cases c <;> simp

theorem worth_nonneg {w : PathId → Rat} (hw : ∀ id, 0 ≤ w id) (a : Assignment) : 0 ≤ a.worth w := by
  rw [worth_eq_sum]
  refine List.sum_nonneg fun q hq => ?_
  obtain ⟨id, -, rfl⟩ := List.mem_map.mp hq
  exact hw id

theorem worth_only (id : PathId) (a : Assignment) : worth (only id) a = (a.count (some id) : Rat) := by
  induction a with
  | nil => rfl
  | cons c a ih =>
    rw [worth, List.map_cons, List.sum_cons, ← worth, ih, List.count_cons]
    rcases c with _ | id'
    · simp
    · by_cases h : id' = id <;> simp [only, h, add_comm]

end Assignment

namespace Policy

/-- A policy with the numbers of the paths in place of their places. -/
def named (usable : List Path) (policy : Policy) : Assignment :=
  policy.map fun choice => choice.bind fun j => usable[j]?.map (·.id)

/-- The weights of paths by their places. -/
def byPlace (usable : List Path) (w : PathId → Rat) (j : Nat) : Rat :=
  usable[j]?.elim 0 fun p => w p.id

/-- A packet is sent on a path if the policy sends it to the path's place. -/
theorem getElem?_named {usable : List Path} {policy : Policy} {i : Nat} {id : PathId} :
    (named usable policy)[i]? = some (some id) ↔
      ∃ j p, policy[i]? = some (some j) ∧ usable[j]? = some p ∧ p.id = id := by
  simp only [named, List.getElem?_map, Option.map_eq_some_iff, Option.bind_eq_some_iff]
  constructor
  · rintro ⟨choice, hchoice, j, rfl, p, hp, rfl⟩
    exact ⟨j, p, hchoice, hp, rfl⟩
  · rintro ⟨j, p, hchoice, hp, rfl⟩
    exact ⟨some j, hchoice, j, rfl, p, hp, rfl⟩

theorem worth_named (usable : List Path) (w : PathId → Rat) (policy : Policy) :
    (named usable policy).worth w = policy.worth (byPlace usable w) := by
  rw [Assignment.worth, named, List.map_map, Policy.worth]
  congr 1
  refine List.map_congr_left fun c _ => ?_
  rcases c with _ | j
  · rfl
  · rcases h : usable[j]? with _ | p <;> simp [byPlace, h]

theorem byPlace_nonneg (usable : List Path) {w : PathId → Rat} (hw : ∀ id, 0 ≤ w id) (j : Nat) :
    0 ≤ byPlace usable w j := by
  unfold byPlace
  cases usable[j]? with
  | none => exact le_refl 0
  | some p => exact hw p.id

theorem excess_named {usable : List Path} {share : Nat → PathId → Rat} {x : Pair → Float}
    (hshare : ∀ i j p, usable[j]? = some p → share i p.id = Number.ofFloat (x (i, j)))
    (w : PathId → Rat) (policy : Policy) :
    (named usable policy).excess share w = policy.excess x (byPlace usable w) := by
  rw [Assignment.excess, named, List.zipIdx_map, List.map_map, Policy.excess]
  congr 1
  refine List.map_congr_left fun e _ => ?_
  rcases e with ⟨_ | j, i⟩
  · rfl
  · rcases h : usable[j]? with _ | p
    · simp [byPlace, h]
    · simp [byPlace, h, hshare i j p h]

end Policy

namespace PathSet

theorem pairwise_usable (paths : PathSet) : paths.usable.Pairwise (·.id ≠ ·.id) := by
  refine ((paths.ascending.filter _).filter _).imp fun {p q} hlt heq => ?_
  rw [heq] at hlt
  exact UInt8.lt_irrefl _ hlt

theorem mem_of_mem_usable {paths : PathSet} {p : Path} (h : p ∈ paths.usable) : p ∈ paths :=
  List.mem_of_mem_filter (List.mem_of_mem_filter h)

/-- A path is found in its own place by its number. -/
theorem findIdx?_usable {paths : PathSet} {j : Nat} {p : Path} (h : paths.usable[j]? = some p) :
    paths.usable.findIdx? (·.id == p.id) = some j := by
  obtain ⟨hj, rfl⟩ := List.getElem?_eq_some_iff.mp h
  rw [List.findIdx?_eq_some_iff_getElem]
  refine ⟨hj, beq_self_eq_true _, fun k hk => ?_⟩
  have hne := List.pairwise_iff_getElem.mp paths.pairwise_usable k j (hk.trans hj) hj hk
  simpa using hne

end PathSet

namespace Scheduler

variable (s : Scheduler) (solver : Solver Pair Float) (paths : PathSet) (deadlines : List Float)

/-- The share of packet `i` that the solver grants on a path. -/
def granted (i : Nat) (id : PathId) : Rat :=
  match solver (s.relaxationInput paths.usable deadlines).program,
    paths.usable.findIdx? (·.id == id) with
  | .optimal x, some j => Number.ofFloat (x (i, j))
  | _, _ => 0

/-- What a packet costs on a path, read exactly. -/
def price (id : PathId) : Rat := Number.ofFloat (s.batch.costOf id)

variable {s solver paths deadlines}

theorem isAmount_costOf (h : ∀ entry ∈ s.batch.costs, isAmount entry.cost = true) (id : PathId) :
    isAmount (s.batch.costOf id) = true := by
  unfold BatchConfig.costOf
  split
  · next entry hfound => exact h entry (List.mem_of_find?_eq_some hfound)
  · decide +kernel

theorem price_nonneg (h : ∀ entry ∈ s.batch.costs, isAmount entry.cost = true) (id : PathId) :
    0 ≤ s.price id :=
  nonneg_of_isAmount (isAmount_costOf h id)

/-- The cost that is logged adds no more than a part in `2 ^ 52` for each packet. -/
theorem costOf_le (h : ∀ entry ∈ s.batch.costs, isAmount entry.cost = true) (a : Assignment)
    {cost : Rat} (hcost : Binary.toRat? (s.costOf a) = some cost) :
    cost ≤ (1 + 1 / 2 ^ 52) ^ a.length * a.worth s.price := by
  have hprice : ∀ id, Binary.toRat? (s.batch.costOf id) = some (s.price id) := fun id =>
    toRat?_of_isFinite (Bool.and_eq_true_iff.mp (isAmount_costOf h id)).1
  obtain ⟨p, hp, hle⟩ := Binary.toRat?_foldl_add_le s.batch.costOf s.price (a.filterMap id)
    (fun id _ => ⟨hprice id, price_nonneg h id⟩) hcost
  obtain rfl : p = 0 := Option.some.inj (hp.symm.trans (by decide +kernel))
  calc cost ≤ (1 + 1 / 2 ^ 52) ^ (a.filterMap id).length * (0 + ((a.filterMap id).map s.price).sum) :=
        hle (le_refl 0)
    _ ≤ (1 + 1 / 2 ^ 52) ^ a.length * a.worth s.price := by
        rw [zero_add, ← Assignment.worth_eq_sum]
        gcongr
        · exact Assignment.worth_nonneg (price_nonneg h) a
        · norm_num
        · exact List.length_filterMap_le _ _

theorem assignLinear_eq (husable : paths.usable ≠ []) :
    (s.assignLinear solver paths deadlines).1 = some (Policy.named paths.usable
      (match (Policy.solve solver (s.relaxationInput paths.usable deadlines) s.draws).1 with
        | .ok policy => policy
        | .error _ => deadlines.map fun _ => none)) := by
  unfold assignLinear
  split
  · next hnone => exact absurd hnone husable
  · rfl

theorem solve_greedy {input : Input} (hcost : input.cost.isSome = true) {m : Relaxation Float}
    (h : Relaxation.solve solver input = .ok m) (draws : Draws) :
    (Policy.solve solver input draws).1 = .ok (Rounding.greedy m.toFloats draws).1 := by
  simp [Policy.solve, h, hcost]

theorem solve_of_not_optimal {input : Input}
    (h : ¬ ∃ x, solver input.program = .optimal x) :
    Relaxation.solve solver input = .ok (input.matrix fun _ => 0.0) ∨
      ∃ e, Relaxation.solve solver input = .error e := by
  unfold Relaxation.solve
  split
  · exact .inl rfl
  · split
    · next x hx => exact absurd ⟨x, hx⟩ h
    all_goals exact .inr ⟨_, rfl⟩

/-- An assignment with a budget is a rounded solution.  Where there is none, the shares are zero. -/
theorem exists_grants {ε : Rat} (hε : 0 ≤ ε) (hlimits : s.batch.limitsCost = true)
    (hbudget : isAmount s.batch.budget = true) (husable : paths.usable ≠ [])
    (hsolver : ∀ x, solver (s.relaxationInput paths.usable deadlines).program = .optimal x →
      Grants (s.relaxationInput paths.usable deadlines) ε x) :
    ∃ x, Grants (s.relaxationInput paths.usable deadlines) ε x ∧
      (∀ draws, ({ s with draws }.assignLinear solver paths deadlines).1
        = some (Policy.named paths.usable (Rounding.greedy
          ((s.relaxationInput paths.usable deadlines).matrix x).toFloats draws).1)) ∧
      ∀ i j p, paths.usable[j]? = some p →
        s.granted solver paths deadlines i p.id = Number.ofFloat (x (i, j)) := by
  have hinput : ∀ draws, { s with draws }.relaxationInput paths.usable deadlines
      = s.relaxationInput paths.usable deadlines := fun _ => rfl
  have hcost : (s.relaxationInput paths.usable deadlines).cost.isSome = true := by
    simp [relaxationInput, hlimits]
  by_cases hoptimal : ∃ x, solver (s.relaxationInput paths.usable deadlines).program = .optimal x
  · obtain ⟨x, hx⟩ := hoptimal
    refine ⟨x, hsolver x hx, fun draws => ?_, fun i j p hp => ?_⟩
    · rw [assignLinear_eq husable, hinput, solve_greedy hcost (Input.solve_of_optimal hx)]
    · simp [granted, hx, PathSet.findIdx?_usable hp]
  · -- No shares are granted, and nothing is sent.
    have hzero : (Number.ofFloat 0.0 : Rat) = 0 := by decide +kernel
    have hadmits : (s.relaxationInput paths.usable deadlines).Admits fun _ => 0 :=
      admits_zero fun cost hcost => by
        simp only [relaxationInput, hlimits, if_true, Option.some.injEq] at hcost
        exact hcost ▸ hbudget
    have hfeasible := hadmits.feasible.within hε
    have hgrants : Grants (s.relaxationInput paths.usable deadlines) ε fun _ => 0.0 :=
      ⟨fun _ _ => by decide +kernel, by simpa only [hzero] using hfeasible⟩
    refine ⟨fun _ => 0.0, hgrants, fun draws => ?_, fun i j p _ => ?_⟩
    · rw [assignLinear_eq husable, hinput, greedy_zero]
      rcases solve_of_not_optimal hoptimal with hok | ⟨e, herror⟩
      · rw [solve_greedy hcost hok, greedy_zero]
      · rw [show (Policy.solve solver _ draws).1 = .error e by simp [Policy.solve, herror]]
        rfl
    · rw [hzero, granted]
      split
      · next x j' hx _ => exact absurd ⟨x, hx⟩ hoptimal
      · rfl

/-! ### Outcomes and means -/

theorem byPlace_price (usable : List Path) : Policy.byPlace usable s.price
    = Input.price ⟨usable.map (s.batch.costOf ·.id), s.batch.budget⟩ := by
  funext j
  rw [Policy.byPlace, Input.price, List.getElem?_map]
  cases usable[j]? with
  | none => rfl
  | some p => rfl

theorem byPlace_only {j k : Nat} {p : Path} (hp : paths.usable[j]? = some p)
    (hk : k < paths.usable.length) :
    Policy.byPlace paths.usable (Assignment.only p.id) k = if k = j then 1 else 0 := by
  obtain ⟨hj, rfl⟩ := List.getElem?_eq_some_iff.mp hp
  rw [Policy.byPlace, List.getElem?_eq_getElem hk, Option.elim_some, Assignment.only]
  refine if_congr ⟨fun heq => ?_, fun heq => by subst heq; rfl⟩ rfl rfl
  have hpairwise := List.pairwise_iff_getElem.mp paths.pairwise_usable
  rcases lt_trichotomy k j with hlt | heq' | hlt
  · exact absurd heq (hpairwise k j hk hj hlt)
  · exact heq'
  · exact absurd heq.symm (hpairwise j k hj hk hlt)

variable (s paths deadlines) in
/-- By how much shares that are a solution up to `ε` may go beyond a limit, if a packet on a path is
worth `w`. -/
def slack (ε : Rat) (w : PathId → Rat) : Rat :=
  (s.relaxationInput paths.usable deadlines).slack ε (Policy.byPlace paths.usable w)

theorem slack_nonneg {ε : Rat} (hε : 0 ≤ ε) {w : PathId → Rat} (hw : ∀ id, 0 ≤ w id) :
    0 ≤ s.slack paths deadlines ε w :=
  Input.slack_nonneg hε (Policy.byPlace_nonneg paths.usable hw)

section Shares

variable {ε : Rat} {x : Pair → Float} (h : Grants (s.relaxationInput paths.usable deadlines) ε x)
  (hε : 0 ≤ ε)
include h hε

/-- The shares cost no more than the budget. -/
theorem sharesWorth_price (hlimits : s.batch.limitsCost = true)
    (hbudget : isAmount s.batch.budget = true) (hprice : ∀ id, 0 ≤ s.price id) :
    sharesWorth (s.relaxationInput paths.usable deadlines) x (Policy.byPlace paths.usable s.price)
      ≤ Number.ofFloat s.batch.budget + s.slack paths deadlines ε s.price := by
  have hcost : (s.relaxationInput paths.usable deadlines).cost
      = some ⟨paths.usable.map (s.batch.costOf ·.id), s.batch.budget⟩ :=
    if_pos hlimits
  have hnonneg := Policy.byPlace_nonneg paths.usable hprice
  rw [slack, byPlace_price]
  rw [byPlace_price] at hnonneg
  exact h.cost_le hε hcost (nonneg_of_isAmount hbudget) hnonneg

/-- The shares on a path are no more than still fit into its window. -/
theorem sharesWorth_only {p : Path} (hp : p ∈ paths) :
    sharesWorth (s.relaxationInput paths.usable deadlines) x
        (Policy.byPlace paths.usable (Assignment.only p.id))
      ≤ p.telemetry.remainingPackets.toNat + s.slack paths deadlines ε (Assignment.only p.id) := by
  have hlt : ∀ e ∈ (s.relaxationInput paths.usable deadlines).cells, e.2 < paths.usable.length := by
    intro e he
    simpa [relaxationInput] using (Input.lt_of_mem_pairs (Input.mem_cells.mp he)).2
  by_cases huse : p ∈ paths.usable
  · obtain ⟨j, hj⟩ := List.getElem?_of_mem huse
    have hcapacity : (s.relaxationInput paths.usable deadlines).capacities[j]?
        = some p.telemetry.remainingPackets := by simp [relaxationInput, hj]
    have hroom := h.path_le hε
      (by simpa [relaxationInput] using (List.getElem?_eq_some_iff.mp hj).1) hcapacity
    have hworth : ∀ e ∈ (s.relaxationInput paths.usable deadlines).cells,
        Policy.byPlace paths.usable (Assignment.only p.id) e.2 = if e.2 = j then 1 else 0 :=
      fun e he => byPlace_only hj (hlt e he)
    rw [slack, sharesWorth, Input.slack, sum_congr rfl hworth,
      sum_congr rfl fun e he => congrArg (amount x e * ·) (hworth e he)]
    exact hroom
  · -- Nothing is on a path that may not be used.
    have hworth : ∀ e ∈ (s.relaxationInput paths.usable deadlines).cells,
        Policy.byPlace paths.usable (Assignment.only p.id) e.2 = 0 := by
      intro e he
      rw [Policy.byPlace, List.getElem?_eq_getElem (hlt e he), Option.elim_some, Assignment.only,
        if_neg fun heq => huse ?_]
      rw [← PathSet.eq_of_id_eq (PathSet.mem_of_mem_usable (List.getElem_mem _)) hp heq]
      exact List.getElem_mem _
    rw [sharesWorth, sum_congr rfl fun e he => congrArg (amount x e * ·) (hworth e he)]
    have : 0 ≤ s.slack paths deadlines ε (Assignment.only p.id) :=
      slack_nonneg hε (Assignment.only_nonneg p.id)
    simp only [mul_zero, sum_const_zero]
    positivity

end Shares

section Rounded

variable {input : Input} {ε : Rat} {x : Pair → Float} {w : PathId → Rat}

/-- A packet is sent only on a path of which it was granted a share. -/
theorem granted_of_sent (h : Grants input ε x)
    (hgranted : ∀ i j p, paths.usable[j]? = some p →
      s.granted solver paths deadlines i p.id = Number.ofFloat (x (i, j)))
    {draws : Draws} {i : Nat} {id : PathId}
    (hsent : (Policy.named paths.usable (Rounding.greedy (input.matrix x).toFloats draws).1)[i]?
      = some (some id)) : 1 / 10 ^ 9 < s.granted solver paths deadlines i id := by
  obtain ⟨j, p, hchoice, hp, rfl⟩ := Policy.getElem?_named.mp hsent
  rw [hgranted i j p hp]
  exact (h.getElem?_greedy hchoice).2

theorem worth_rounded_le (h : Grants input ε x)
    (hgranted : ∀ i j p, paths.usable[j]? = some p →
      s.granted solver paths deadlines i p.id = Number.ofFloat (x (i, j)))
    (hw : ∀ id, 0 ≤ w id) (draws : Draws) :
    (Policy.named paths.usable (Rounding.greedy (input.matrix x).toFloats draws).1).worth w
      ≤ sharesWorth input x (Policy.byPlace paths.usable w)
        + (Policy.named paths.usable (Rounding.greedy (input.matrix x).toFloats draws).1).excess
          (s.granted solver paths deadlines) w := by
  rw [Policy.worth_named, Policy.excess_named hgranted]
  exact h.worth_le (Policy.byPlace_nonneg _ hw) draws

variable (paths) in
theorem mean_rounded_le (h : Grants input ε x) (hw : ∀ id, 0 ≤ w id) :
    Draws.mean input.deadlines.length (fun draws =>
        (Policy.named paths.usable (Rounding.greedy (input.matrix x).toFloats draws).1).worth w)
      ≤ (1 + 2 / 10 ^ 9) * sharesWorth input x (Policy.byPlace paths.usable w) := by
  simp only [Policy.worth_named]
  exact h.mean_worth_le (Policy.byPlace_nonneg _ hw)

end Rounded

variable (s solver paths deadlines) in
/-- An outcome that goes beyond its limits by no more than what the packets sent lack of a whole
share, if the shares are a solution up to `ε`. -/
structure NearLimits (ε : Rat) (a : Assignment) : Prop where
  /-- A packet is sent only on a path of which it was granted a share. -/
  granted : ∀ i id, a[i]? = some (some id) → 1 / 10 ^ 9 < s.granted solver paths deadlines i id
  /-- The cost, added up exactly, is near the budget. -/
  cost : a.worth s.price ≤ Number.ofFloat s.batch.budget + s.slack paths deadlines ε s.price
    + a.excess (s.granted solver paths deadlines) s.price
  /-- The cost, added up in doubles, is near the cost added up exactly. -/
  total : ∀ cost, Binary.toRat? (s.costOf a) = some cost →
    cost ≤ (1 + 1 / 2 ^ 52) ^ deadlines.length * a.worth s.price
  /-- The packets on a path are near what still fits into its window. -/
  windows : ∀ p ∈ paths, (a.count (some p.id) : Rat)
    ≤ p.telemetry.remainingPackets.toNat + s.slack paths deadlines ε (Assignment.only p.id)
      + a.excess (s.granted solver paths deadlines) (Assignment.only p.id)

/-- **A batch with a budget keeps near its limits.**  Let the settings be valid, and let the shares
that the solver grants be a solution of its program up to `ε`.  Whatever the draws, a packet is sent
only on a path of which it was granted a share, and the cost of the batch and the packets on a path
go beyond the budget and the window at most by what the packets sent lack of a whole share, and by
what `ε` amounts to.  On average over the draws they are at most `1 + 2 / 10 ^ 9` times the limit
with what `ε` amounts to, a factor for shares that count as full but are a little less. -/
theorem assign_near_limits (solver : Solver Pair Float) (c : Config) (s : Scheduler)
    (paths : PathSet) (deadlines : List Float) (demand : Demand) {ε : Rat} (hε : 0 ≤ ε)
    (hvalid : c.validate = .ok ()) (hbatch : s.batch = c.batch)
    (hstrategy : c.batch.strategy = .linOpt) (hlimits : c.batch.limitsCost = true)
    (hpaths : 2 ≤ paths.size)
    (hsolver : ∀ x, solver (s.relaxationInput paths.usable deadlines).program = .optimal x →
      Grants (s.relaxationInput paths.usable deadlines) ε x) :
    (∀ draws a, ({ s with draws }.assign solver paths deadlines demand).1 = some a →
      s.NearLimits solver paths deadlines ε a) ∧
    Draws.mean deadlines.length (fun draws =>
        ({ s with draws }.assign solver paths deadlines demand).1.elim 0 (·.worth s.price))
      ≤ (1 + 2 / 10 ^ 9)
        * (Number.ofFloat s.batch.budget + s.slack paths deadlines ε s.price) ∧
    ∀ p ∈ paths, Draws.mean deadlines.length (fun draws =>
        ({ s with draws }.assign solver paths deadlines demand).1.elim 0
          fun a => (a.count (some p.id) : Rat))
      ≤ (1 + 2 / 10 ^ 9)
        * (p.telemetry.remainingPackets.toNat + s.slack paths deadlines ε (Assignment.only p.id)) := by
  rw [← hbatch] at hstrategy hlimits
  obtain ⟨hbudget, hcosts⟩ := Config.amounts_of_validate hvalid
  rw [← hbatch] at hbudget hcosts
  have hprices := price_nonneg hcosts
  have hassign : ∀ draws, { s with draws }.assign solver paths deadlines demand
      = { s with draws }.assignLinear solver paths deadlines := by
    intro draws
    rw [assign, if_neg (by omega)]
    simp only [hstrategy]
  simp only [hassign]
  by_cases husable : paths.usable = []
  · have hnone : ∀ draws, ({ s with draws }.assignLinear solver paths deadlines).1 = none := by
      intro draws
      simp only [assignLinear, husable]
    have hmean : Draws.mean deadlines.length (fun _ => 0) = 0 := by simp [Draws.mean]
    simp only [hnone, Option.elim_none, hmean]
    have := nonneg_of_isAmount hbudget
    have : 0 ≤ s.slack paths deadlines ε s.price := slack_nonneg hε hprices
    refine ⟨fun _ _ h => absurd h (by simp), by positivity, fun p _ => ?_⟩
    have : 0 ≤ s.slack paths deadlines ε (Assignment.only p.id) :=
      slack_nonneg hε (Assignment.only_nonneg p.id)
    positivity
  · obtain ⟨x, hgrants, hsome, hgranted⟩ := exists_grants hε hlimits hbudget husable hsolver
    have hcost := sharesWorth_price hgrants hε hlimits hbudget hprices
    simp only [hsome, Option.elim_some, Option.some.injEq, ← Assignment.worth_only]
    refine ⟨?_, ?_, fun p hp => ?_⟩
    · rintro draws a rfl
      refine ⟨fun i id => granted_of_sent hgrants hgranted, ?_, fun cost hcost => ?_,
        fun p hp => ?_⟩
      · have hworth := worth_rounded_le hgrants hgranted hprices draws
        linarith
      · have hlength : (Policy.named paths.usable (Rounding.greedy
            ((s.relaxationInput paths.usable deadlines).matrix x).toFloats draws).1).length
              = deadlines.length := by
          rw [Policy.named, List.length_map, length_greedy]
          rfl
        exact hlength ▸ costOf_le hcosts _ hcost
      · have hworth := worth_rounded_le hgrants hgranted (Assignment.only_nonneg p.id) draws
        have hroom := sharesWorth_only hgrants hε hp
        rw [← Assignment.worth_only]
        linarith
    · have hmean := mean_rounded_le paths hgrants hprices
      refine le_trans hmean ?_
      gcongr
    · have hmean := mean_rounded_le paths hgrants (Assignment.only_nonneg p.id)
      have hroom := sharesWorth_only hgrants hε hp
      refine le_trans hmean ?_
      gcongr

/-! ### A tight budget -/

/-- Settings with a budget for three quarters of a packet on the first path. -/
def tightBudget : Config where
  batch :=
    { strategy := .linOpt
      limitsCost := true
      budget := 0.75
      costs := [⟨⟨1⟩, 1.0⟩, ⟨⟨2⟩, 0.5⟩] }

/-- A path on which a packet takes 10 milliseconds, with room for one packet. -/
def narrowPath (id : PathId) : Path := .new id { rtt := .ofMillis 20, window := 1350 } default

/-- Two of them. -/
def narrowPaths : PathSet where
  toList := [narrowPath ⟨1⟩, narrowPath ⟨2⟩]
  ascending := List.pairwise_pair.mpr (show (1 : UInt8) < 2 by decide)

/-- A scheduler with this budget that wins every coin. -/
def lucky : Scheduler := .new {} tightBudget.batch ⟨1⟩ ⟨0⟩ none default (.ofList [])

theorem validate_tightBudget : tightBudget.validate = .ok () :=
  Config.validate_eq_ok.mpr (Option.isNone_iff_eq_none.mp (by decide +kernel))

/-- What the solver grants for two packets is an exact solution. -/
theorem grants_lucky : ∃ x,
    DualSimplex.solve (lucky.relaxationInput narrowPaths.usable [12.0, 12.0]).program = .optimal x ∧
      Grants (lucky.relaxationInput narrowPaths.usable [12.0, 12.0]) 0 x := by
  have hgrants : (DualSimplex.solve (lucky.relaxationInput narrowPaths.usable
      [12.0, 12.0]).program).solution?.any fun x =>
        decide (Grants (lucky.relaxationInput narrowPaths.usable [12.0, 12.0]) 0 x) := by
    decide +kernel
  obtain ⟨x, hx, hx'⟩ := (Option.any_eq_true _ _).mp hgrants
  exact ⟨x, Verdict.eq_optimal hx, of_decide_eq_true hx'⟩

/-- With two packets this scheduler keeps near its limits, whatever it draws. -/
theorem assign_near_limits_lucky :
    (∃ x, DualSimplex.solve (lucky.relaxationInput narrowPaths.usable [12.0, 12.0]).program
        = .optimal x ∧ Grants (lucky.relaxationInput narrowPaths.usable [12.0, 12.0]) 0 x) ∧
    (∀ draws a,
      ({ lucky with draws }.assign DualSimplex.solve narrowPaths [12.0, 12.0] {}).1 = some a →
        lucky.NearLimits DualSimplex.solve narrowPaths [12.0, 12.0] 0 a) ∧
    Draws.mean 2 (fun draws =>
        ({ lucky with draws }.assign DualSimplex.solve narrowPaths [12.0, 12.0] {}).1.elim 0
          (·.worth lucky.price))
      ≤ (1 + 2 / 10 ^ 9)
        * (Number.ofFloat lucky.batch.budget + lucky.slack narrowPaths [12.0, 12.0] 0 lucky.price) ∧
    ∀ p ∈ narrowPaths, Draws.mean 2 (fun draws =>
        ({ lucky with draws }.assign DualSimplex.solve narrowPaths [12.0, 12.0] {}).1.elim 0
          fun a => (a.count (some p.id) : Rat))
      ≤ (1 + 2 / 10 ^ 9) * (p.telemetry.remainingPackets.toNat
        + lucky.slack narrowPaths [12.0, 12.0] 0 (Assignment.only p.id)) := by
  refine ⟨grants_lucky, assign_near_limits DualSimplex.solve tightBudget lucky narrowPaths
    [12.0, 12.0] {} (le_refl 0) validate_tightBudget rfl rfl rfl (le_refl 2) fun x hx => ?_⟩
  obtain ⟨y, hy, hgrants⟩ := grants_lucky
  obtain rfl := Verdict.optimal.inj (hx.symm.trans hy)
  exact hgrants

/-- It sends both packets on the second path, which has room for one, at a cost beyond the
budget. -/
theorem assign_over_limits :
    tightBudget.validate = .ok () ∧ lucky.batch = tightBudget.batch ∧
    tightBudget.batch.strategy = .linOpt ∧ tightBudget.batch.limitsCost = true ∧
    2 ≤ narrowPaths.size ∧
    ∃ a, (lucky.assign DualSimplex.solve narrowPaths [12.0, 12.0] {}).1 = some a ∧
      tightBudget.batch.budget < lucky.costOf a ∧
      ∃ p ∈ narrowPaths, p.telemetry.remainingPackets.toNat < a.count (some p.id) := by
  refine ⟨validate_tightBudget, rfl, rfl, rfl, le_refl 2, [some ⟨2⟩, some ⟨2⟩], by decide +kernel,
    by decide +kernel, narrowPath ⟨2⟩, ?_, by decide +kernel⟩
  exact List.mem_cons_of_mem _ List.mem_cons_self

end Scheduler

end Multipath
