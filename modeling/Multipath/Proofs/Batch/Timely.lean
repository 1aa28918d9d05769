import Multipath.Proofs.Batch.Limits
import Multipath.Proofs.Scheduler.Fresh

/-!
# Nothing is sent late on purpose

An assignment by linear programming goes back from places to packets and paths: shares stand in a
matrix, rounding turns a row into a place, and the place is looked up among the paths that may be
used.  Only pairs in time have an unknown, and the zeros everywhere else neither count nor are full,
so whatever a solver answers, no way of rounding picks a pair that is late.

* `Policy.IsTimely`: a place for every packet, and only places on which it is in time.
* `isTimely_direct`, `isTimely_greedy`: both ways of rounding give such a policy.
* `Policy.isTimely_of_solve`: so does every answer of a solver that leads to a policy.
* `Scheduler.assign_timely`: what becomes of this in an assignment.
-/

namespace Multipath

open Linear Relaxation

/-! ### Policies -/

/-- A policy decides about every packet, and sends none that would be late. -/
structure Policy.IsTimely (input : Input) (policy : Policy) : Prop where
  complete : policy.length = input.deadlines.length
  inTime : ∀ i j : Nat, policy[i]? = some (some j) → (i, j) ∈ input.pairs

namespace Relaxation

variable {input : Input}

theorem isTimely_none : Policy.IsTimely input (input.deadlines.map fun _ => none) where
  complete := List.length_map _
  inTime i j h := by
    obtain ⟨_, -, hnone⟩ := Option.map_eq_some_iff.mp (List.getElem?_map ▸ h)
    cases hnone

/-- The first share that counts is one of a pair in time. -/
theorem isTimely_direct (x : Pair → Float) :
    Policy.IsTimely input (Rounding.direct (input.matrix x).toFloats) where
  complete := by rw [Rounding.direct, List.length_map, length_toFloats_matrix]
  inTime i j h := by
    rw [Rounding.direct, List.getElem?_map] at h
    obtain ⟨row, hrow, hplace⟩ := Option.map_eq_some_iff.mp h
    obtain ⟨hi, rfl⟩ := List.getElem?_eq_some_iff.mp hrow
    obtain ⟨hj, hcounts, -⟩ := List.findIdx?_eq_some_iff_getElem.mp hplace
    rw [length_toFloats_matrix] at hi
    have hshare : ((input.matrix x).toFloats.getD i [])[j]?
        = some (input.matrix x).toFloats[i][j] := by
      rw [List.getD_eq_getElem?_getD, hrow, Option.getD_some, List.getElem?_eq_getElem hj]
    rcases getElem?_row hi hshare with ⟨hp, -⟩ | hzero
    · exact hp
    · -- where there is no pair stands a zero, which does not count
      rw [hzero] at hcounts
      exact absurd hcounts (by decide +kernel)

/-- So is the largest share, whether it is full or left to a coin. -/
theorem isTimely_greedy (x : Pair → Float) (draws : Draws) :
    Policy.IsTimely input (Rounding.greedy (input.matrix x).toFloats draws).1 where
  complete := length_greedy draws
  inTime _ _ h := (sent_greedy h).1

theorem exists_matrix {solver : Solver Pair Float} {m : Relaxation Float}
    (h : Relaxation.solve solver input = .ok m) : ∃ x, m = input.matrix x := by
  unfold Relaxation.solve at h
  split at h
  · exact ⟨_, (Except.ok.inj h).symm⟩
  · split at h
    · exact ⟨_, (Except.ok.inj h).symm⟩
    all_goals cases h

end Relaxation

theorem Policy.isTimely_of_solve {solver : Solver Pair Float} {input : Input} {draws : Draws}
    {policy : Policy} (h : (Policy.solve solver input draws).1 = .ok policy) :
    policy.IsTimely input := by
  unfold Policy.solve at h
  split at h
  · cases h
  · next m hm =>
    obtain ⟨x, rfl⟩ := exists_matrix hm
    split at h
    · obtain rfl := Except.ok.inj h
      exact isTimely_greedy x draws
    · obtain rfl := Except.ok.inj h
      exact isTimely_direct x

/-! ### Assignments -/

namespace PathSet

theorem mem_usable {paths : PathSet} {p : Path} : p ∈ paths.usable ↔
    p ∈ paths.additional ∧ p.telemetry.inFlight ≤ p.telemetry.window := by
  rw [usable, List.mem_filter, Path.isCommitted, decide_eq_true_iff]

end PathSet

namespace Scheduler

variable {s : Scheduler} {solver : Solver Pair Float} {paths : PathSet} {deadlines : List Float}
  {demand : Demand} {a : Assignment}

/-- An assignment by linear programming is a policy with the numbers of the paths, and the policy
sends no packet late. -/
theorem exists_timely (h : (s.assignLinear solver paths deadlines).1 = some a) :
    ∃ policy : Policy, policy.IsTimely (s.relaxationInput paths.usable deadlines) ∧
      a = Policy.named paths.usable policy := by
  by_cases husable : paths.usable = []
  · simp [assignLinear, husable] at h
  · rw [assignLinear_eq husable] at h
    refine ⟨_, ?_, (Option.some.inj h).symm⟩
    split
    · next policy hpolicy => exact Policy.isTimely_of_solve hpolicy
    · exact isTimely_none

theorem linear_timely (h : (s.assignLinear solver paths deadlines).1 = some a) :
    a.length = deadlines.length ∧ ∀ (i : Nat) (id : PathId), a[i]? = some (some id) →
      ∃ p ∈ paths.usable, p.id = id ∧
        ∃ deadline, deadlines[i]? = some deadline ∧ s.expectedDelay p ≤ deadline := by
  obtain ⟨policy, htimely, rfl⟩ := exists_timely h
  refine ⟨by rw [Policy.named, List.length_map, htimely.complete]; rfl, fun i id hsent => ?_⟩
  obtain ⟨j, p, hchoice, hp, hid⟩ := Policy.getElem?_named.mp hsent
  obtain ⟨deadline, delay, hdeadline, hdelay, hsat⟩ :=
    Input.mem_pairs.mp (htimely.inTime i j hchoice)
  rw [relaxationInput, List.getElem?_map, hp] at hdelay
  obtain rfl := Option.some.inj hdelay
  exact ⟨p, List.mem_of_getElem? hp, hid, deadline, hdeadline, of_decide_eq_true hsat⟩

theorem mem_additional_of_byDeadline {i : Nat} {id : PathId}
    (h : (s.assignByDeadline paths deadlines demand)[i]? = some (some id)) :
    ∃ p ∈ paths.additional, p.id = id := by
  simp only [assignByDeadline, List.getElem?_map, Option.map_eq_some_iff,
    Option.bind_eq_some_iff] at h
  obtain ⟨_, -, ⟨_, choice⟩, hfound, hchoice⟩ := h
  obtain ⟨_, -, heq⟩ := List.mem_map.mp (List.mem_of_find?_eq_some hfound)
  exact mem_additional_of_lowestRtt ((Prod.mk.inj heq).2.trans hchoice)

/-- **No batch is knowingly sent late.**  With several paths, whatever the solver answers and
whatever is drawn, an assignment has an entry for each deadline and uses no paths but those of the
set other than the initial one.  If it comes from linear programming, each packet that is sent goes
on a path whose window is not overcommitted, and on which the delay to be expected is no more than
the packet's deadline. -/
theorem assign_timely (solver : Solver Pair Float) (s : Scheduler) (paths : PathSet)
    (deadlines : List Float) (demand : Demand) (hpaths : 2 ≤ paths.size) (a : Assignment)
    (h : (s.assign solver paths deadlines demand).1 = some a) :
    a.length = deadlines.length ∧
    ∀ (i : Nat) (id : PathId), a[i]? = some (some id) → ∃ p ∈ paths, p.id = id ∧ id ≠ .initial ∧
      (s.batch.strategy = .linOpt →
        p.telemetry.inFlight ≤ p.telemetry.window ∧
        ∃ deadline, deadlines[i]? = some deadline ∧
          (if s.batch.scalesDelays then p.telemetry.rtt.millis / 2.0 * p.telemetry.alpha
            else p.telemetry.rtt.millis / 2.0) ≤ deadline) := by
  rw [assign, if_neg (by omega)] at h
  cases hstrategy : s.batch.strategy with
  | linOpt =>
    simp only [hstrategy] at h
    obtain ⟨hlength, hsent⟩ := linear_timely h
    refine ⟨hlength, fun i id hi => ?_⟩
    obtain ⟨p, hp, rfl, hdeadline⟩ := hsent i id hi
    obtain ⟨hadditional, hroom⟩ := PathSet.mem_usable.mp hp
    exact ⟨p, (PathSet.mem_additional.mp hadditional).1, rfl,
      PathSet.id_of_mem_additional hadditional, fun _ => ⟨hroom, hdeadline⟩⟩
  | earliestDeadlineFirst =>
    simp only [hstrategy, Option.some.injEq] at h
    subst h
    refine ⟨by simp [assignByDeadline], fun i id hi => ?_⟩
    obtain ⟨p, hp, rfl⟩ := mem_additional_of_byDeadline hi
    exact ⟨p, (PathSet.mem_additional.mp hp).1, rfl, PathSet.id_of_mem_additional hp,
      fun hother => by cases hother⟩
  | firstPath =>
    simp only [hstrategy, Option.map_eq_some_iff] at h
    obtain ⟨first, hfirst, rfl⟩ := h
    obtain ⟨hprimary, hmem⟩ := PathSet.primary_of_firstAvailable hfirst
    refine ⟨List.length_map _, fun i id hi => ?_⟩
    obtain ⟨_, -, heq⟩ := Option.map_eq_some_iff.mp (List.getElem?_map ▸ hi)
    obtain rfl := Option.some.inj heq
    obtain ⟨p, hp, hid⟩ := PathSet.mem_ids.mp hmem
    exact ⟨p, hp, hid, by rw [hprimary]; decide, fun hother => by cases hother⟩

/-- Two packets of 12 milliseconds each go on paths on which a packet takes 10. -/
theorem assign_timely_lucky :
    2 ≤ narrowPaths.size ∧
    ∃ a, (lucky.assign DualSimplex.solve narrowPaths [12.0, 12.0] {}).1 = some a ∧
      a[0]? = some (some ⟨2⟩) ∧
      a.length = [12.0, 12.0].length ∧
      ∀ (i : Nat) (id : PathId), a[i]? = some (some id) →
        ∃ p ∈ narrowPaths, p.id = id ∧ id ≠ .initial ∧ (lucky.batch.strategy = .linOpt →
          p.telemetry.inFlight ≤ p.telemetry.window ∧
          ∃ deadline, [12.0, 12.0][i]? = some deadline ∧
            (if lucky.batch.scalesDelays then p.telemetry.rtt.millis / 2.0 * p.telemetry.alpha
              else p.telemetry.rtt.millis / 2.0) ≤ deadline) := by
  have hsome : (lucky.assign DualSimplex.solve narrowPaths [12.0, 12.0] {}).1
      = some [some ⟨2⟩, some ⟨2⟩] := by decide +kernel
  exact ⟨le_refl 2, _, hsome, rfl, assign_timely DualSimplex.solve lucky narrowPaths [12.0, 12.0] {}
    (le_refl 2) _ hsome⟩

end Scheduler

end Multipath
