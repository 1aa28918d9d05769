import Mathlib.Algebra.BigOperators.Group.List.Lemmas
import Mathlib.Algebra.Order.BigOperators.Group.List
import Mathlib.Algebra.Order.Ring.Nat
import Mathlib.Data.List.Nodup
import Multipath.Proofs.Scheduler.Levels

/-!
# Quotas below a bound

Every selection raises the quota of its path by one.  If a copy of a packet moves on, the quotas
are levelled: they rise towards a common bound and not beyond it, so there are only so many copies
before a packet goes out that is not copied.

* `Below`: the quotas keep to a bound, with room for another copy.
* `slack`: how much room is left.
* `below_copy`: a selection after which a copy is made keeps to the bound and takes some room.
* `below_other`: any other selection keeps to the next bound.
-/

namespace Multipath

variable {quota : PathId → Nat} {faces : List Face} {bound : Nat} {f : Face}

/-- No path has carried more than `bound` packets and no measured target as many; if there are
targets, one of them has carried fewer. -/
structure Below (quota : PathId → Nat) (faces : List Face) (bound : Nat) : Prop where
  all : ∀ f ∈ faces, quota f.id ≤ bound
  measured : ∀ f ∈ faces, f.isTarget = true → f.isMeasured = true → quota f.id < bound
  room : ∀ f ∈ faces, f.isTarget = true → ∃ g ∈ faces, g.isTarget = true ∧ quota g.id < bound

/-- How many packets the paths may still carry, all together. -/
def slack (quota : PathId → Nat) (faces : List Face) (bound : Nat) : Nat :=
  (faces.map fun f => bound - quota f.id).sum

/-- The quotas after another packet on path `id`. -/
def bumped (quota : PathId → Nat) (id : PathId) : PathId → Nat :=
  fun j => if j = id then quota id + 1 else quota j

theorem Scheduler.quota_bumpQuota (s : Scheduler) (id : PathId) :
    (s.bumpQuota id).quota = bumped s.quota id :=
  funext fun j => Tally.count_bump s.quotas id j

@[simp] theorem bumped_self (quota : PathId → Nat) (id : PathId) :
    bumped quota id id = quota id + 1 := if_pos rfl

theorem bumped_ne {id j : PathId} (h : j ≠ id) : bumped quota id j = quota j := if_neg h

theorem bumped_le (id j : PathId) : bumped quota id j ≤ quota j + 1 := by
  unfold bumped
  split
  · exact Nat.succ_le_succ (Nat.le_of_eq (congrArg quota (Eq.symm ‹_›)))
  · exact Nat.le_succ _

theorem le_bumped (id j : PathId) : quota j ≤ bumped quota id j := by
  unfold bumped
  split
  · exact Nat.le_succ_of_le (Nat.le_of_eq (congrArg quota ‹_›))
  · exact Nat.le_refl _

/-- Another packet takes room if its path keeps to the bound. -/
theorem slack_bumped_lt (hf : f ∈ faces) (hlt : quota f.id < bound) :
    slack (bumped quota f.id) faces bound < slack quota faces bound := by
  refine List.sum_lt_sum _ _ (fun p _ => Nat.sub_le_sub_left (le_bumped f.id p.id) bound)
    ⟨f, hf, ?_⟩
  rw [bumped_self]
  exact Nat.sub_succ_lt_self bound (quota f.id) hlt

theorem exists_below (quota : PathId → Nat) (faces : List Face) :
    ∃ bound, Below quota faces bound := by
  have hlt : ∀ f ∈ faces, quota f.id < (faces.map fun f => quota f.id).sum + 1 := fun f hf =>
    Nat.lt_succ_of_le (List.le_sum_of_mem (List.mem_map.mpr ⟨f, hf, rfl⟩))
  exact ⟨_, fun f hf => Nat.le_of_lt (hlt f hf), fun f hf _ _ => hlt f hf,
    fun f hf htarget => ⟨f, hf, htarget, hlt f hf⟩⟩

/-- Where a copy of a packet would be made, a selection that levels the quotas finds room. -/
theorem Levels.lt_bound (hlevels : Levels quota faces f) (h : Below quota faces bound)
    (hmeasured : f.isMeasured = false) {g : Face} (hg : g ∈ faces) (htarget : g.isTarget = true)
    (hne : g.id ≠ f.id) : quota f.id < bound := by
  cases hlevels with
  | settled hsettled =>
      rcases hsettled with hsettled | honly
      · simp [hmeasured] at hsettled
      · exact absurd (honly g hg htarget) hne
  | behind hmem hlt => exact Nat.lt_of_lt_of_le hlt (h.all _ hmem)
  | lowest hlowest =>
      obtain ⟨t, ht, htarget', hlt⟩ := h.room g hg htarget
      exact Nat.lt_of_le_of_lt (hlowest t ht htarget') hlt
  | measured hmem htarget' hmeasured' hle =>
      exact Nat.lt_of_le_of_lt hle (h.measured _ hmem htarget' hmeasured')

/-- **A copy takes room below the bound.** -/
theorem below_copy (hids : (faces.map (·.id)).Nodup) (h : Below quota faces bound)
    (hf : f ∈ faces) (hmeasured : f.isMeasured = false) (hlevels : Levels quota faces f)
    {g : Face} (hg : g ∈ faces) (htarget : g.isTarget = true) (hne : g.id ≠ f.id)
    (hle : quota g.id ≤ quota f.id) :
    Below (bumped quota f.id) faces bound ∧
      slack (bumped quota f.id) faces bound < slack quota faces bound := by
  have hlt := hlevels.lt_bound h hmeasured hg htarget hne
  refine ⟨⟨fun p hp => ?_, fun p hp hptarget hpmeasured => ?_, fun _ _ _ => ⟨g, hg, htarget, ?_⟩⟩, ?_⟩
  · by_cases hid : p.id = f.id
    · rw [hid, bumped_self]
      exact hlt
    · rw [bumped_ne hid]
      exact h.all p hp
  · by_cases hid : p.id = f.id
    · rw [List.inj_on_of_nodup_map hids hp hf hid, hmeasured] at hpmeasured
      cases hpmeasured
    · rw [bumped_ne hid]
      exact h.measured p hp hptarget hpmeasured
  · rw [bumped_ne hne]
    exact Nat.lt_of_le_of_lt hle hlt
  · exact slack_bumped_lt hf hlt

/-- Without a copy, the quotas keep to the next bound. -/
theorem below_other (h : Below quota faces bound) (id : PathId) :
    Below (bumped quota id) faces (bound + 1) ∧
      slack (bumped quota id) faces (bound + 1) ≤ slack quota faces bound + faces.length := by
  refine ⟨⟨fun p hp => ?_, fun p hp htarget hmeasured => ?_, fun p hp htarget => ?_⟩, ?_⟩
  · exact Nat.le_trans (bumped_le id p.id) (Nat.succ_le_succ (h.all p hp))
  · exact Nat.lt_of_le_of_lt (bumped_le id p.id) (Nat.succ_lt_succ (h.measured p hp htarget hmeasured))
  · obtain ⟨g, hg, hgtarget, hlt⟩ := h.room p hp htarget
    exact ⟨g, hg, hgtarget, Nat.lt_of_le_of_lt (bumped_le id g.id) (Nat.succ_lt_succ hlt)⟩
  · calc slack (bumped quota id) faces (bound + 1)
        ≤ (faces.map fun f => bound - quota f.id + 1).sum := by
          refine List.sum_le_sum fun p _ => ?_
          have hle : quota p.id ≤ bumped quota id p.id := le_bumped id p.id
          omega
      _ = slack quota faces bound + faces.length := by
          rw [List.sum_map_add, slack]
          simp

end Multipath
