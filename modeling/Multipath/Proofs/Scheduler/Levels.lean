import Multipath.Proofs.Scheduler.Choices

/-!
# Selections that level the quotas

A copy of a packet leaves the unmeasured path it is queued on if the selections that follow prefer
paths that have carried fewer packets, or measured ones.

* `CopiesMove`: a strategy and the paths on which it does so.
* `Levels`: what such a selection is like.
* `levels_of_select`: on such paths the selections are like that.
-/

namespace Multipath

/-- The path is measured, or no other path is a target for its copies. -/
def Face.IsSettled (faces : List Face) (f : Face) : Prop :=
  f.isMeasured = true ∨ ∀ g ∈ faces, g.isTarget = true → g.id = f.id

/-- No target for a copy is suspected to have failed, or some unsuspected one is measured. -/
def HasSoundTargets (faces : List Face) : Prop :=
  (∀ f ∈ faces, f.isTarget = true → f.suspect = false) ∨
    ∃ f ∈ faces, f.isTarget = true ∧ f.suspect = false ∧ f.isMeasured = true

/-- The strategy moves copies of packets away from unmeasured paths.  The strategies that compare
paths do so if the targets are sound.  Those that do not compare leave a copy on an additional path
that they select, so there it must not be made. -/
def CopiesMove (strategy : Strategy) (faces : List Face) : Prop :=
  faces.length ≤ 1 ∨
    match strategy with
    | .roundRobin => HasSoundTargets faces
    | .lowestRtt => HasSoundTargets faces
    | .firstAvailable => ∀ f ∈ faces, f.id = .primary → f.IsSettled faces
    | .random => ∀ f ∈ faces, f.isInitial = false → f.IsSettled faces
    | .learnedPolicy => ∀ f ∈ faces, f.isInitial = false → f.IsSettled faces

/-- A selection of the path `f`, given the quotas: the path is settled, or has carried fewer
packets than some path, or no more than every other target, or no more than a measured one. -/
inductive Levels (quota : PathId → Nat) (faces : List Face) (f : Face) : Prop
  | settled : f.IsSettled faces → Levels quota faces f
  | behind {g} : g ∈ faces → quota f.id < quota g.id → Levels quota faces f
  | lowest : (∀ g ∈ faces, g.isTarget = true → quota f.id ≤ quota g.id) → Levels quota faces f
  | measured {g} : g ∈ faces → g.isTarget = true → g.isMeasured = true →
      quota f.id ≤ quota g.id → Levels quota faces f

namespace Scheduler

variable {s : Scheduler} {paths : PathSet} {demand : Demand} {now : Instant} {id : PathId}

theorem champion_roundRobin {p : Path} {l : List Path}
    (h : champion (fun p best => s.quota p.id < s.quota best.id) l = some p) :
    ∀ q ∈ l, s.quota p.id ≤ s.quota q.id := by
  refine champion_le (fun p q : Path => s.quota p.id ≤ s.quota q.id) (fun _ => Nat.le_refl _)
    Nat.le_trans (fun h => Nat.le_of_lt (of_decide_eq_true h)) (fun h => ?_) h
  exact Nat.le_of_not_lt (of_decide_eq_false h)

/-- An unmeasured champion has only unmeasured competitors, and none with a lower quota. -/
theorem champion_isFaster {p : Path} {l : List Path} (h : champion s.isFaster l = some p)
    (hp : p.isMeasured = false) :
    ∀ q ∈ l, q.isMeasured = false ∧ s.quota p.id ≤ s.quota q.id := by
  have hle := champion_le (fun p q : Path => p.isMeasured = true ∨
    q.isMeasured = false ∧ s.quota p.id ≤ s.quota q.id) ?_ ?_ ?_ ?_ h
  · exact fun q hq => (hle q hq).resolve_left (by simp [hp])
  · intro q
    cases hq : q.isMeasured with
    | true => exact .inl rfl
    | false => exact .inr ⟨rfl, Nat.le_refl _⟩
  · rintro a b c (ha | ⟨hb, hab⟩) hbc
    · exact .inl ha
    · rcases hbc with hb' | ⟨hc, hbc⟩
      · simp [hb] at hb'
      · exact .inr ⟨hc, Nat.le_trans hab hbc⟩
  · intro a b hdisplaces
    unfold isFaster at hdisplaces
    split at hdisplaces
    · exact .inl ‹_›
    · simp only [Bool.and_eq_true, Bool.not_eq_true', decide_eq_true_eq] at hdisplaces
      exact .inr hdisplaces
  · intro a b hdisplaces
    unfold isFaster at hdisplaces
    cases ha : a.isMeasured with
    | true => exact .inl rfl
    | false =>
        split at hdisplaces
        · simp [ha] at hdisplaces
        · simp only [ha, Bool.not_false, Bool.true_and, decide_eq_false_iff_not] at hdisplaces
          exact .inr ⟨Bool.not_eq_true _ ▸ ‹_›, Nat.le_of_not_le hdisplaces⟩

/-- A target that is not suspected to have failed is eligible. -/
theorem isEligible_of_isTarget {p : Path} {retransmission : Bool} (htarget : p.face.isTarget = true)
    (hsuspect : p.suspect = false) : p.isEligible retransmission = true := by
  simp only [Face.isTarget, Path.face, Face.isInitial, Bool.and_eq_true,
    Bool.not_eq_true'] at htarget
  simp [Path.isEligible, Path.isInitial, htarget.1, hsuspect, Path.serves, Path.sendingAllowed,
    htarget.2]

/-- Among paths that are compared, the one with the lowest quota levels the quotas. -/
theorem levels_of_lowest {p : Path} (hsound : HasSoundTargets paths.faces)
    (hlowest : ∀ q ∈ paths, q.face.isTarget = true → q.suspect = false →
      s.quota p.id ≤ s.quota q.id) : Levels s.quota paths.faces p.face := by
  rcases hsound with hnone | ⟨f, hf, htarget, hsuspect, hmeasured⟩
  · refine .lowest fun g hg htarget => ?_
    obtain ⟨q, hq, rfl⟩ := PathSet.mem_faces.mp hg
    exact hlowest q hq htarget (hnone _ hg htarget)
  · obtain ⟨q, hq, rfl⟩ := PathSet.mem_faces.mp hf
    exact .measured hf htarget hmeasured (hlowest q hq htarget hsuspect)

theorem levels_of_roundRobin {retransmission : Bool} {p : Path}
    (hsound : HasSoundTargets paths.faces)
    (h : champion (fun p best => s.quota p.id < s.quota best.id)
      (paths.toList.filter fun p => p.isEligible retransmission && s.quota p.id < quotaCeiling)
      = some p) : Levels s.quota paths.faces p.face := by
  refine levels_of_lowest hsound fun q hq htarget hsuspect => ?_
  by_cases hquota : s.quota q.id < quotaCeiling
  · refine champion_roundRobin h q (List.mem_filter.mpr ⟨hq, ?_⟩)
    simp [isEligible_of_isTarget htarget hsuspect, hquota]
  · have hp := (List.mem_filter.mp (champion_mem h)).2
    simp only [Bool.and_eq_true, decide_eq_true_eq] at hp
    exact Nat.le_of_lt (Nat.lt_of_lt_of_le hp.2 (Nat.le_of_not_lt hquota))

theorem levels_of_lowestRtt (hsound : HasSoundTargets paths.faces)
    (horigin : ∀ origin, demand.origin = some origin → origin.id ∈ paths.ids)
    (h : s.lowestRtt paths demand = some id) :
    ∃ p ∈ paths, p.id = id ∧ Levels s.quota paths.faces p.face := by
  unfold lowestRtt at h
  split at h
  · -- a piece of a stream leaves its path for one that has carried fewer packets
    cases h
    obtain ⟨origin, p, horigin', hp, hid, hlt⟩ := spread_eq_some ‹_›
    obtain ⟨q, hq, hqid⟩ := PathSet.mem_ids.mp (horigin origin horigin')
    refine ⟨p, (PathSet.mem_additional.mp hp).1, hid, .behind (g := q.face)
      (PathSet.mem_faces.mpr ⟨q, hq, rfl⟩) ?_⟩
    show s.quota p.id < s.quota q.id
    rw [hqid]
    exact hlt
  · obtain ⟨p, hchampion, hid⟩ := Option.map_eq_some_iff.mp h
    refine ⟨p, (List.mem_filter.mp (champion_mem hchampion)).1, hid, ?_⟩
    cases hp : p.isMeasured with
    | true => exact .settled (.inl hp)
    | false =>
        refine levels_of_lowest hsound fun q hq htarget hsuspect => ?_
        exact (champion_isFaster hchampion hp q
          (List.mem_filter.mpr ⟨hq, isEligible_of_isTarget htarget hsuspect⟩)).2

theorem isSettled_of_size (hsize : paths.size ≤ 1) {f : Face} (hf : f ∈ paths.faces) :
    f.IsSettled paths.faces := by
  have hlength : paths.faces.length ≤ 1 := by rwa [PathSet.faces, List.length_map]
  refine .inr fun g hg _ => ?_
  match paths.faces, hlength, hf, hg with
  | [_], _, hf, hg => rw [List.mem_singleton.mp hf, List.mem_singleton.mp hg]

/-- **Where copies move, every selection levels the quotas.** -/
theorem levels_of_select (hmove : CopiesMove s.config.strategy paths.faces)
    (horigin : ∀ origin, demand.origin = some origin → origin.id ∈ paths.ids)
    (h : (s.select paths demand now).1 = .ok (some id)) :
    ∃ p ∈ paths, p.id = id ∧ Levels s.quota paths.faces p.face := by
  obtain ⟨p, hp, hid⟩ := PathSet.mem_ids.mp (mem_ids_of_select h)
  have hface : ∀ {q}, q ∈ paths → q.face ∈ paths.faces := fun hq =>
    PathSet.mem_faces.mpr ⟨_, hq, rfl⟩
  unfold select at h
  split at h
  · exact ⟨p, hp, hid, .settled (isSettled_of_size ‹_› (hface hp))⟩
  · rename_i hsize
    have hmove := hmove.resolve_left (by rwa [PathSet.faces, List.length_map])
    split at h <;> rename_i hstrategy <;> simp only [hstrategy] at hmove
    · obtain ⟨q, hchampion, hqid⟩ := Option.map_eq_some_iff.mp (Except.ok.inj h)
      exact ⟨q, (List.mem_filter.mp (champion_mem hchampion)).1, hqid,
        levels_of_roundRobin hmove hchampion⟩
    · exact levels_of_lowestRtt hmove horigin (Except.ok.inj h)
    · obtain ⟨q, hq, hqid⟩ := mem_additional_of_random (Prod.ext (Except.ok.inj h) rfl)
      obtain ⟨hmem, hinitial⟩ := PathSet.mem_additional.mp hq
      exact ⟨q, hmem, hqid, .settled (hmove _ (hface hmem) hinitial)⟩
    · have hprimary := (PathSet.primary_of_firstAvailable (Except.ok.inj h)).1
      exact ⟨p, hp, hid, .settled (hmove _ (hface hp) (hid.trans hprimary))⟩
    · rcases learned_cases h with ⟨q, hq, hqid⟩ | ⟨hnone, -⟩
      · obtain ⟨hmem, hinitial⟩ := PathSet.mem_additional.mp hq
        exact ⟨q, hmem, hqid, .settled (hmove _ (hface hmem) hinitial)⟩
      · -- no additional path may send, so there is no target at all
        refine ⟨p, hp, hid, .settled (.inr fun g hg htarget => ?_)⟩
        obtain ⟨q, hq, rfl⟩ := PathSet.mem_faces.mp hg
        simp only [Face.isTarget, Bool.and_eq_true, Bool.not_eq_true'] at htarget
        have := hnone q (PathSet.mem_additional.mpr ⟨hq, htarget.1⟩)
        exact absurd (htarget.2.symm.trans this) nofun

end Scheduler

end Multipath
