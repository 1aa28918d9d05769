import Multipath.Proofs.Batch.Drawn

/-!
# Packets put off

A packet that is put off joins one batch and no other: the next one that is asked for, whether its
fresh deadlines are given or drawn.  So over any run of calls the packets put off fall into as many
stretches as there are batches, and what follows the last batch still waits.

* `BatchCall`, `Scheduler.performAll`: a run of calls, and what it answers.
* `Handout`: a batch as it was put together.
* `Scheduler.perform_batch`: one batch takes all that waits.
* `Scheduler.deferred_once`: the batches of a run, and what each of them takes.
-/

namespace Multipath

/-! ### Calls -/

/-- What a scheduler is asked about batches. -/
inductive BatchCall where
  /-- To put a packet off. -/
  | defer (deadline : Instant)
  /-- For a batch with these fresh deadlines. -/
  | take (fresh : List Float) (now : Instant)
  /-- For a batch of this size. -/
  | draw (size : Nat) (now : Instant)

namespace BatchCall

/-- Whether the call asks for a batch. -/
def isBatch : BatchCall → Bool
  | .defer _ => false
  | .take .. | .draw .. => true

/-- The deadline of the packet that the call puts off. -/
def deferred? : BatchCall → Option Instant
  | .defer deadline => some deadline
  | .take .. | .draw .. => none

end BatchCall

/-- A batch before it is written down: the fresh deadlines, those put off, and the time. -/
structure Handout where
  fresh : List Float
  deferred : List Instant
  now : Instant

/-- The fresh deadlines, and what is left until those put off. -/
def Handout.deadlines (h : Handout) : List Float :=
  h.fresh ++ h.deferred.map (Scheduler.millisLeft · h.now)

/-- What a batch owes to the call for it, apart from what was put off. -/
def BatchCall.Gets (settings : BatchConfig) : BatchCall → Handout → Prop
  | .defer _, _ => False
  | .take fresh now, h => h.now = now ∧ h.fresh = fresh
  | .draw size now, h => h.now = now ∧ h.fresh.length = size - h.deferred.length ∧
      h.deadlines.length = max size h.deferred.length ∧
      ∀ x ∈ h.fresh, ∃ n, settings.CanDraw n ∧ n.toFloat = x

namespace Scheduler

/-- One call. -/
def perform (s : Scheduler) : BatchCall → Option (List Float) × Scheduler
  | .defer deadline => (none, s.defer deadline)
  | .take fresh now => (some (s.takeDeadlines fresh now).1, (s.takeDeadlines fresh now).2)
  | .draw size now => (some (s.drawDeadlines size now).1, (s.drawDeadlines size now).2)

/-- A run of calls: the batches that are answered, and what becomes of the scheduler. -/
def performAll (s : Scheduler) : List BatchCall → List (List Float) × Scheduler
  | [] => ([], s)
  | call :: calls =>
    let rest := (s.perform call).2.performAll calls
    ((s.perform call).1.toList ++ rest.1, rest.2)

/-! ### One call -/

/-- A batch takes all that waits. -/
theorem perform_batch (s : Scheduler) {call : BatchCall} (hbatch : call.isBatch = true) :
    ∃ h : Handout, (s.perform call).1 = some h.deadlines ∧ h.deferred = s.waiting ∧
      call.Gets s.batch h ∧ (s.perform call).2.waiting = [] ∧
      (s.perform call).2.batch = s.batch := by
  cases call with
  | defer deadline => cases hbatch
  | take fresh now => exact ⟨⟨fresh, s.waiting, now⟩, rfl, rfl, ⟨rfl, rfl⟩, rfl, rfl⟩
  | draw size now =>
    have hlength := Draws.length_times (f := drawDeadline s.batch) (size - s.waiting.length) s.draws
    refine ⟨⟨_, s.waiting, now⟩, rfl, rfl, ⟨rfl, hlength, ?_, fun x hx => ?_⟩, rfl, rfl⟩
    · rw [Handout.deadlines, List.length_append, List.length_map, hlength]
      exact Nat.sub_add_eq_max size s.waiting.length
    · exact BatchConfig.exists_drawDeadline_iff.mp (Draws.exists_of_mem_times hx)

/-! ### Runs -/

theorem performAll_append (s : Scheduler) (calls calls' : List BatchCall) :
    (s.performAll (calls ++ calls')).2 = ((s.performAll calls).2.performAll calls').2 := by
  induction calls generalizing s with
  | nil => rfl
  | cons call calls ih => exact ih _

/-- The batches of a run take what was put off, stretch by stretch. -/
theorem exists_handouts (s : Scheduler) (calls : List BatchCall) :
    ∃ handouts : List Handout, (s.performAll calls).1 = handouts.map Handout.deadlines ∧
      List.Forall₂ (BatchCall.Gets s.batch) (calls.filter BatchCall.isBatch) handouts ∧
      handouts.map Handout.deferred ++ [(s.performAll calls).2.waiting] =
        ((calls.splitOnP BatchCall.isBatch).map (List.filterMap BatchCall.deferred?)).modifyHead
          (s.waiting ++ ·) := by
  induction calls generalizing s with
  | nil => exact ⟨[], rfl, .nil, by simp [performAll]⟩
  | cons call calls ih =>
    obtain ⟨handouts, hanswers, hgets, hstretches⟩ := ih (s.perform call).2
    by_cases hbatch : call.isBatch = true
    · -- a batch ends a stretch
      obtain ⟨h, hanswer, hdeferred, hget, hempty, hsame⟩ := s.perform_batch hbatch
      refine ⟨h :: handouts, ?_, ?_, ?_⟩
      · rw [performAll, hanswer, hanswers]
        rfl
      · rw [List.filter_cons_of_pos hbatch]
        exact .cons hget (hsame ▸ hgets)
      · rw [hempty] at hstretches
        rw [List.splitOnP_cons_eq_if_modifyHead, if_pos hbatch, List.map_cons, List.cons_append, hdeferred]
        change _ :: (handouts.map Handout.deferred ++ [((s.perform call).2.performAll calls).2.waiting])
          = _
        rw [hstretches]
        cases calls.splitOnP BatchCall.isBatch <;> simp
    · cases call with
      | defer deadline =>
        refine ⟨handouts, hanswers, hgets, hstretches.trans ?_⟩
        rw [List.splitOnP_cons_eq_if_modifyHead, if_neg hbatch]
        cases calls.splitOnP BatchCall.isBatch <;>
          simp [perform, defer, BatchCall.deferred?]
      | take fresh now => exact absurd rfl hbatch
      | draw size now => exact absurd rfl hbatch

/-- **Packets put off are neither lost nor repeated.**  In any run of calls, each batch is its fresh
deadlines, followed by what is left until the deadlines put off since the batch before it, in their
order; what was put off after the last batch waits, which is nothing right after a batch. -/
theorem deferred_once (s : Scheduler) (calls : List BatchCall) :
    (∃ handouts : List Handout, (s.performAll calls).1 = handouts.map Handout.deadlines ∧
      List.Forall₂ (BatchCall.Gets s.batch) (calls.filter BatchCall.isBatch) handouts ∧
      handouts.map Handout.deferred ++ [(s.performAll calls).2.waiting] =
        ((calls.splitOnP BatchCall.isBatch).map (List.filterMap BatchCall.deferred?)).modifyHead
          (s.waiting ++ ·) ∧
      ∀ h ∈ handouts, ∀ deadline ∈ h.deferred,
        Remains deadline h.now (millisLeft deadline h.now)) ∧
    ∀ call, call.isBatch = true → (s.performAll (calls ++ [call])).2.waiting = [] := by
  obtain ⟨handouts, hanswers, hgets, hstretches⟩ := s.exists_handouts calls
  refine ⟨⟨handouts, hanswers, hgets, hstretches,
    fun h _ deadline _ => remains_millisLeft deadline h.now⟩, fun call hbatch => ?_⟩
  obtain ⟨-, -, -, -, hempty, -⟩ := (s.performAll calls).2.perform_batch hbatch
  rw [performAll_append]
  exact hempty

end Scheduler

end Multipath
