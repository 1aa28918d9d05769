import Multipath.Config.Basic

/-!
# Settings within bounds

What the checks of a configuration leave for those who use it.

* `Config.validate_eq_ok`: a configuration is accepted if it has no fault.
* `Config.amounts_of_validate`: then its budget and its costs are amounts.
* `Config.deadlines_of_validate`: and its deadlines are in order.
-/

namespace Multipath.Config

variable {c : Config}

theorem validate_eq_ok : c.validate = .ok () ↔ c.check = none := by
  unfold validate
  cases c.check <;> simp

/-- None of the faults is found. -/
theorem faults_of_validate (h : c.validate = .ok ()) : ∀ fault ∈ c.faults, fault = none := by
  simpa [check, List.findSome?_eq_none_iff] using validate_eq_ok.mp h

theorem amounts_of_validate (h : c.validate = .ok ()) :
    isAmount c.batch.budget = true ∧ ∀ entry ∈ c.batch.costs, isAmount entry.cost = true := by
  have hnone := faults_of_validate h
  simp only [faults, List.mem_cons, List.not_mem_nil, or_false, forall_eq_or_imp,
    forall_eq] at hnone
  obtain ⟨-, -, hbudget, hcosts, -, -⟩ := hnone
  exact ⟨by simpa using hbudget, by simpa using hcosts⟩

theorem deadlines_of_validate (h : c.validate = .ok ()) :
    c.batch.minDeadline.nanos ≤ c.batch.maxDeadline.nanos := by
  have hnone := faults_of_validate h
  simp only [faults, List.mem_cons, List.not_mem_nil, or_false, forall_eq_or_imp,
    forall_eq] at hnone
  obtain ⟨-, -, -, -, hdeadlines, -⟩ := hnone
  exact Nat.not_lt.mp (show ¬ c.batch.maxDeadline < c.batch.minDeadline by simpa using hdeadlines)

end Multipath.Config
