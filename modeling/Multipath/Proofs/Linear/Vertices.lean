import Mathlib.Algebra.Module.Pi
import Mathlib.Algebra.Order.Field.Basic
import Mathlib.Algebra.Order.Ring.Rat
import Mathlib.Tactic.Linarith
import Mathlib.Tactic.Positivity
import Mathlib.Tactic.Ring
import Multipath.Linear.Program

/-!
# Vertices of linear programs

A vertex cannot be moved in any direction and back. Whatever room its constraints leave, a small
enough step stays within it, so only the bounds that a vertex meets exactly hold it in its place.

* `Constraint.weight_add`, `Constraint.weight_smul`: weighted sums are linear.
* `Program.Feasible.exists_step`: the room for a step.
* `Program.IsVertex.eq_zero`: a direction that no exactly met bound forbids is none at all.
* `Verdict.IsRight`, `Solver.FindsVertex`: what an exact solver may be relied on for.
* `Verdict.solution?`: the solution, if the verdict has one.
* `Program.FeasibleWithin`: what a numerical one may be.
-/

namespace Multipath.Linear

variable {ι : Type}

namespace Constraint

theorem weight_add (c : Constraint ι Rat) (x y : ι → Rat) :
    c.weight (x + y) = c.weight x + c.weight y := by
  unfold weight
  induction c.terms with
  | nil => simp
  | cons t terms ih =>
    rw [List.foldr_cons, ih, Pi.add_apply, List.foldr_cons, List.foldr_cons]
    ring

theorem weight_smul (c : Constraint ι Rat) (t : Rat) (x : ι → Rat) :
    c.weight (t • x) = t * c.weight x := by
  unfold weight
  induction c.terms with
  | nil => simp
  | cons s terms ih =>
    rw [List.foldr_cons, ih, Pi.smul_apply, smul_eq_mul, List.foldr_cons]
    ring

end Constraint

/-- Finitely many positive bounds leave room for a common step. -/
theorem exists_step {κ : Type} (l : List κ) (a b : κ → Rat) (h : ∀ k ∈ l, 0 < b k) :
    ∃ ε > 0, ∀ k ∈ l, ε * |a k| ≤ b k := by
  induction l with
  | nil => exact ⟨1, one_pos, by simp⟩
  | cons k l ih =>
    obtain ⟨ε, hε, hl⟩ := ih fun k' hk' => h k' (List.mem_cons_of_mem k hk')
    have hk : 0 < b k := h k List.mem_cons_self
    have hpos : 0 < b k / (|a k| + 1) := by positivity
    refine ⟨min ε (b k / (|a k| + 1)), lt_min hε hpos, fun k' hk' => ?_⟩
    rcases List.mem_cons.mp hk' with rfl | hk'
    · calc min ε (b k' / (|a k'| + 1)) * |a k'|
          ≤ b k' / (|a k'| + 1) * |a k'| := by gcongr; exact min_le_right _ _
        _ ≤ b k' / (|a k'| + 1) * (|a k'| + 1) := by gcongr; linarith
        _ = b k' := div_mul_cancel₀ _ (by positivity)
    · calc min ε (b k / (|a k| + 1)) * |a k'| ≤ ε * |a k'| := by gcongr; exact min_le_left _ _
        _ ≤ b k' := hl k' hk'

namespace Program

variable {p : Program ι Rat} {x d : ι → Rat}

/-- From a feasible solution a step can be taken both ways in any direction that keeps to the
bounds met exactly. -/
theorem Feasible.exists_step (h : p.Feasible x)
    (hbox : ∀ v ∈ p.unknowns, x v = 0 ∨ x v = 1 → d v = 0)
    (htight : ∀ c ∈ p.constraints, c.weight x = c.bound → c.weight d = 0) :
    ∃ ε > 0, ∀ t : Rat, |t| ≤ ε → p.Feasible (x + t • d) := by
  obtain ⟨ε₁, hε₁, hbox'⟩ := Linear.exists_step (p.unknowns.filter fun v => 0 < x v ∧ x v < 1) d
    (fun v => min (x v) (1 - x v)) fun v hv => by
      simp only [List.mem_filter, decide_eq_true_eq] at hv
      exact lt_min hv.2.1 (by linarith [hv.2.2])
  obtain ⟨ε₂, hε₂, htight'⟩ := Linear.exists_step
    (p.constraints.filter fun c => c.weight x < c.bound) (fun c => c.weight d)
    (fun c => c.bound - c.weight x) fun c hc => by
      simp only [List.mem_filter, decide_eq_true_eq] at hc
      linarith [hc.2]
  refine ⟨min ε₁ ε₂, lt_min hε₁ hε₂, fun t ht => ?_⟩
  -- An unknown strictly between its bounds has room, and any other one stays where it is.
  have box : ∀ v ∈ p.unknowns, |t * d v| ≤ min (x v) (1 - x v) := by
    intro v hv
    have h₀ := h.nonneg v hv
    have h₁ := h.le_one v hv
    by_cases hfrac : 0 < x v ∧ x v < 1
    · calc |t * d v| = |t| * |d v| := abs_mul t (d v)
        _ ≤ ε₁ * |d v| := by gcongr; exact ht.trans (min_le_left _ _)
        _ ≤ min (x v) (1 - x v) := hbox' v (List.mem_filter.mpr ⟨hv, by simpa using hfrac⟩)
    · have hd : d v = 0 := by
        refine hbox v hv ?_
        rcases lt_or_eq_of_le h₀ with hlt | heq
        · exact .inr (le_antisymm h₁ (not_lt.mp fun hlt' => hfrac ⟨hlt, hlt'⟩))
        · exact .inl heq.symm
      simp [hd, h₀, h₁]
  refine ⟨fun v hv => ?_, fun v hv => ?_, fun c hc => ?_⟩
  · have := (abs_le.mp (box v hv)).1
    have := min_le_left (x v) (1 - x v)
    simp only [Pi.add_apply, Pi.smul_apply, smul_eq_mul]
    linarith
  · have := (abs_le.mp (box v hv)).2
    have := min_le_right (x v) (1 - x v)
    simp only [Pi.add_apply, Pi.smul_apply, smul_eq_mul]
    linarith
  · rw [Constraint.weight_add, Constraint.weight_smul]
    rcases lt_or_eq_of_le (h.bounded c hc) with hlt | heq
    · have hroom : t * c.weight d ≤ c.bound - c.weight x :=
        calc t * c.weight d ≤ |t * c.weight d| := le_abs_self _
          _ = |t| * |c.weight d| := abs_mul t (c.weight d)
          _ ≤ ε₂ * |c.weight d| := by gcongr; exact ht.trans (min_le_right _ _)
          _ ≤ c.bound - c.weight x := htight' c (List.mem_filter.mpr ⟨hc, by simpa using hlt⟩)
      linarith
    · rw [htight c hc heq, heq]
      linarith

/-- A vertex cannot be moved in a direction that leaves every unknown at a bound of the box and
every exactly met constraint as they are. -/
theorem IsVertex.eq_zero (h : p.IsVertex x)
    (hbox : ∀ v ∈ p.unknowns, x v = 0 ∨ x v = 1 → d v = 0)
    (htight : ∀ c ∈ p.constraints, c.weight x = c.bound → c.weight d = 0) :
    ∀ v ∈ p.unknowns, d v = 0 := by
  obtain ⟨ε, hε, hstep⟩ := h.feasible.exists_step hbox htight
  intro v hv
  have hmid : ∀ v ∈ p.unknowns, 2 * x v = (x + ε • d) v + (x + (-ε) • d) v := by
    intro v _
    simp only [Pi.add_apply, Pi.smul_apply, smul_eq_mul]
    ring
  have hsame := h.extreme _ _ (hstep ε (abs_of_pos hε).le)
    (hstep (-ε) (by rw [abs_neg]; exact (abs_of_pos hε).le)) hmid v hv
  simpa [hε.ne'] using hsame

/-- A feasible solution in which every unknown is at a bound of the box is a vertex. -/
theorem Feasible.isVertex (h : p.Feasible x) (hwhole : ∀ v ∈ p.unknowns, x v = 0 ∨ x v = 1) :
    p.IsVertex x := by
  refine ⟨h, fun y z hy hz hmid v hv => ?_⟩
  have := hmid v hv
  rcases hwhole v hv with h₀ | h₁
  · linarith [hy.nonneg v hv, hz.nonneg v hv]
  · linarith [hy.le_one v hv, hz.le_one v hv]

end Program

/-! ### What a solver says -/

/-- What the verdict says is an optimum. -/
def Verdict.solution? {α : Type} : Verdict ι α → Option (ι → α)
  | .optimal x => some x
  | _ => none

theorem Verdict.eq_optimal {α : Type} {v : Verdict ι α} {x : ι → α} (h : v.solution? = some x) :
    v = .optimal x := by
  cases v with
  | optimal y => rw [Option.some.inj h]
  | infeasible | unbounded | unfinished => cases h

/-- The verdict on a program is right: the solution is an optimum, nothing is feasible, or there is
no greatest value.  Giving up is never right. -/
def Verdict.IsRight (p : Program ι Rat) : Verdict ι Rat → Prop
  | .optimal x => p.IsOptimal x
  | .infeasible => ∀ x, ¬ p.Feasible x
  | .unbounded => ∀ bound, ∃ x, p.Feasible x ∧ bound < p.value x
  | .unfinished => False

/-- If something is feasible and nothing is worth more than some bound, a right verdict is an
optimum. -/
theorem Verdict.IsRight.optimal {p : Program ι Rat} {v : Verdict ι Rat} (h : v.IsRight p)
    {x : ι → Rat} (hx : p.Feasible x) {bound : Rat} (hbound : ∀ y, p.Feasible y → p.value y ≤ bound) :
    ∃ y, v = .optimal y ∧ p.IsOptimal y := by
  cases v with
  | optimal y => exact ⟨y, rfl, h⟩
  | infeasible => exact absurd hx (h x)
  | unbounded =>
    obtain ⟨y, hy, hlt⟩ := h bound
    exact absurd (hbound y hy) (not_le.mpr hlt)
  | unfinished => exact h.elim

/-- A solution up to `ε`, such as a numerical solver may find: no bound is broken by more. -/
structure Program.FeasibleWithin (p : Program ι Rat) (ε : Rat) (x : ι → Rat) : Prop where
  nonneg : ∀ v ∈ p.unknowns, -ε ≤ x v
  le_one : ∀ v ∈ p.unknowns, x v ≤ 1 + ε
  bounded : ∀ c ∈ p.constraints, c.weight x ≤ c.bound + ε

instance (p : Program ι Rat) (ε : Rat) (x : ι → Rat) : Decidable (p.FeasibleWithin ε x) :=
  decidable_of_iff
    ((∀ v ∈ p.unknowns, -ε ≤ x v) ∧ (∀ v ∈ p.unknowns, x v ≤ 1 + ε) ∧
      ∀ c ∈ p.constraints, c.weight x ≤ c.bound + ε)
    ⟨fun h => ⟨h.1, h.2.1, h.2.2⟩, fun h => ⟨h.nonneg, h.le_one, h.bounded⟩⟩

theorem Program.Feasible.within {p : Program ι Rat} {x : ι → Rat} (h : p.Feasible x) {ε : Rat}
    (hε : 0 ≤ ε) : p.FeasibleWithin ε x where
  nonneg v hv := by linarith [h.nonneg v hv]
  le_one v hv := by linarith [h.le_one v hv]
  bounded c hc := by linarith [h.bounded c hc]

/-- The solver finds an optimal vertex of the program. -/
def Solver.FindsVertex (solver : Solver ι Rat) (p : Program ι Rat) : Prop :=
  ∃ x, solver p = .optimal x ∧ p.IsOptimal x ∧ p.IsVertex x

end Multipath.Linear
