import Multipath.Proofs.Scheduler.Best
import Multipath.Proofs.Scheduler.Quotas

/-!
# Turns of round robin

Round robin goes by the quotas, and every packet raises the quota of its path by one.  A turn
therefore never lets a path get more than one packet ahead: the path that is raised was the
lowest.  What it does for paths that start out behind is counted by the room below the highest
of them; as long as there is any, the next turn takes some of it.

* `turn`, `turns`: a path is selected and its packet counted, once and again and again.
* `turn_cases`: a turn raises the quota of the next candidate, if one is left below the ceiling.
* `roundRobin_fair`: every turn is the next candidate's, the quotas of the candidates become
  level, stay level, and all others are left as they are.
-/

namespace Multipath

/-- No candidate has carried more than one packet more than another. -/
def IsLevel (quota : PathId → Nat) (candidates : List Path) : Prop :=
  ∀ p ∈ candidates, ∀ q ∈ candidates, quota p.id ≤ quota q.id + 1

namespace Scheduler

/-- A turn: a path is selected, and the packet it carries is counted. -/
def turn (paths : PathSet) (demand : Demand) (s : Scheduler) (now : Instant) : Scheduler :=
  match s.select paths demand now with
  | (.ok (some id), s) => s.bumpQuota id
  | (_, s) => s

/-- One turn after another. -/
def turns (paths : PathSet) (demand : Demand) (s : Scheduler) (times : List Instant) :
    Scheduler :=
  times.foldl (turn paths demand) s

variable {s : Scheduler} {paths : PathSet} {demand : Demand} {now : Instant}
  {times : List Instant} {p : Path} {id : PathId} {top : Nat}

/-! ### One turn -/

/-- Below the ceiling, round robin selects the next candidate. -/
theorem select_isNext (hseveral : 2 ≤ paths.size) (hstrategy : s.config.strategy = .roundRobin)
    (hbelow : ∀ p ∈ paths.eligible demand.retransmission, s.quota p.id < quotaCeiling) :
    ∃ choice, (s.select paths demand now).1 = .ok choice ∧
      IsChoice (paths.eligible demand.retransmission)
        (IsNext s.quota (paths.eligible demand.retransmission)) choice := by
  have hfilter : (paths.eligible demand.retransmission).filter (s.quota ·.id < quotaCeiling) =
      paths.eligible demand.retransmission :=
    List.filter_eq_self.mpr fun p hp => decide_eq_true (hbelow p hp)
  rw [select_of_roundRobin hseveral hstrategy]
  have hchoice := roundRobin_isChoice s paths demand.retransmission
  rw [hfilter] at hchoice
  exact ⟨_, rfl, hchoice⟩

/-- A turn raises the quota of the next candidate, or all have reached the ceiling. -/
theorem turn_cases (now : Instant) (hseveral : 2 ≤ paths.size)
    (hstrategy : s.config.strategy = .roundRobin) :
    ((∀ p ∈ paths.eligible demand.retransmission, quotaCeiling ≤ s.quota p.id) ∧
        turn paths demand s now = s) ∨
      ∃ p, IsNext s.quota (paths.eligible demand.retransmission) p ∧
        s.quota p.id < quotaCeiling ∧ turn paths demand s now = s.bumpQuota p.id := by
  have hchoice := roundRobin_isChoice s paths demand.retransmission
  unfold turn
  rw [select_of_roundRobin hseveral hstrategy]
  cases hround : s.roundRobin paths demand.retransmission with
  | none =>
      refine .inl ⟨fun p hp => Nat.le_of_not_lt fun hlt => ?_, rfl⟩
      have hnil := List.filter_eq_nil_iff.mp (hchoice.none_iff.mp hround) p hp
      exact hnil (decide_eq_true hlt)
  | some id =>
      obtain ⟨p, hnext, rfl⟩ := (hchoice.some_iff id).mp hround
      obtain ⟨hmem, hlt⟩ := List.mem_filter.mp hnext.mem
      have hlt := of_decide_eq_true hlt
      refine .inr ⟨p, ⟨hmem, fun q hq => ?_⟩, hlt, rfl⟩
      -- a candidate that has reached the ceiling is behind the one that was selected
      by_cases hceiling : s.quota q.id < quotaCeiling
      · exact hnext.least q (List.mem_filter.mpr ⟨hq, decide_eq_true hceiling⟩)
      · exact ⟨by omega, fun heq => absurd (heq ▸ hlt) hceiling⟩

theorem strategy_turn (hseveral : 2 ≤ paths.size) (hstrategy : s.config.strategy = .roundRobin) :
    (turn paths demand s now).config.strategy = .roundRobin := by
  rcases turn_cases now hseveral hstrategy with ⟨-, hturn⟩ | ⟨p, -, -, hturn⟩
  · rwa [hturn]
  · rwa [hturn]

/-- A turn leaves everything that is not a candidate as it is. -/
theorem quota_turn (hseveral : 2 ≤ paths.size) (hstrategy : s.config.strategy = .roundRobin)
    (hid : ∀ p ∈ paths.eligible demand.retransmission, p.id ≠ id) :
    (turn paths demand s now).quota id = s.quota id := by
  rcases turn_cases now hseveral hstrategy with ⟨-, hturn⟩ | ⟨p, hnext, -, hturn⟩
  · rw [hturn]
  · rw [hturn, quota_bumpQuota, bumped_ne (hid p hnext.mem).symm]

/-- The path that a turn raises was the lowest, so level quotas stay level. -/
theorem isLevel_turn (hseveral : 2 ≤ paths.size) (hstrategy : s.config.strategy = .roundRobin)
    (hlevel : IsLevel s.quota (paths.eligible demand.retransmission)) :
    IsLevel (turn paths demand s now).quota (paths.eligible demand.retransmission) := by
  rcases turn_cases now hseveral hstrategy with ⟨-, hturn⟩ | ⟨p, hnext, -, hturn⟩
  · rwa [hturn]
  · rw [hturn, quota_bumpQuota]
    intro a ha b hb
    have hb' : s.quota b.id ≤ bumped s.quota p.id b.id := le_bumped p.id b.id
    by_cases hid : a.id = p.id
    · rw [hid, bumped_self]
      exact Nat.succ_le_succ (Nat.le_trans (hnext.least b hb).1 hb')
    · rw [bumped_ne hid]
      exact Nat.le_trans (hlevel a ha b hb) (Nat.succ_le_succ hb')

/-- As long as the candidates keep to a bound and are not level, a turn keeps to it as well and
takes some of the room below it. -/
theorem slack_turn (now : Instant) (hseveral : 2 ≤ paths.size)
    (hstrategy : s.config.strategy = .roundRobin)
    (hceiling : ∀ p ∈ paths.eligible demand.retransmission, s.quota p.id ≤ quotaCeiling)
    (htop : ∀ p ∈ paths.eligible demand.retransmission, s.quota p.id ≤ top)
    (hlevel : ¬ IsLevel s.quota (paths.eligible demand.retransmission)) :
    let s' := turn paths demand s now
    (∀ p ∈ paths.eligible demand.retransmission, s'.quota p.id ≤ quotaCeiling) ∧
      (∀ p ∈ paths.eligible demand.retransmission, s'.quota p.id ≤ top) ∧
        Multipath.slack s'.quota ((paths.eligible demand.retransmission).map Path.face) top <
          Multipath.slack s.quota ((paths.eligible demand.retransmission).map Path.face) top := by
  have huneven : ∀ n, (∀ p ∈ paths.eligible demand.retransmission, s.quota p.id ≤ n) →
      ¬ ∀ p ∈ paths.eligible demand.retransmission, n ≤ s.quota p.id := fun n hle hge =>
    hlevel fun a ha b hb => Nat.le_succ_of_le (Nat.le_trans (hle a ha) (hge b hb))
  rcases turn_cases now hseveral hstrategy with ⟨hall, -⟩ | ⟨p, hnext, hlt, hturn⟩
  · exact absurd hall (huneven _ hceiling)
  · have hp : s.quota p.id < top := by
      refine Nat.lt_of_not_le fun hle => huneven top htop fun q hq => ?_
      exact Nat.le_trans hle (hnext.least q hq).1
    have hraised : ∀ n, s.quota p.id < n →
        (∀ q ∈ paths.eligible demand.retransmission, s.quota q.id ≤ n) →
        ∀ q ∈ paths.eligible demand.retransmission, bumped s.quota p.id q.id ≤ n := by
      intro n hn hle q hq
      by_cases hid : q.id = p.id
      · rw [hid, bumped_self]
        exact hn
      · rw [bumped_ne hid]
        exact hle q hq
    simp only [hturn, quota_bumpQuota]
    exact ⟨hraised _ hlt hceiling, hraised _ hp htop,
      slack_bumped_lt (f := p.face) (List.mem_map.mpr ⟨p, hnext.mem, rfl⟩) hp⟩

/-! ### Many turns -/

theorem turns_append (earlier later : List Instant) : turns paths demand s (earlier ++ later) =
    turns paths demand (turns paths demand s earlier) later := List.foldl_append

/-- What every turn of round robin keeps, many turns keep. -/
theorem turns_induction {P : Scheduler → Prop} (hseveral : 2 ≤ paths.size)
    (hstrategy : s.config.strategy = .roundRobin) (hs : P s)
    (hturn : ∀ s now, s.config.strategy = .roundRobin → P s → P (turn paths demand s now)) :
    (turns paths demand s times).config.strategy = .roundRobin ∧
      P (turns paths demand s times) := by
  induction times generalizing s with
  | nil => exact ⟨hstrategy, hs⟩
  | cons now rest ih => exact ih (strategy_turn hseveral hstrategy) (hturn s now hstrategy hs)

theorem strategy_turns (hseveral : 2 ≤ paths.size) (hstrategy : s.config.strategy = .roundRobin) :
    (turns paths demand s times).config.strategy = .roundRobin :=
  (turns_induction (P := fun _ => True) hseveral hstrategy trivial fun _ _ _ _ => trivial).1

theorem quota_turns (hseveral : 2 ≤ paths.size) (hstrategy : s.config.strategy = .roundRobin)
    (hid : ∀ p ∈ paths.eligible demand.retransmission, p.id ≠ id) :
    (turns paths demand s times).quota id = s.quota id :=
  (turns_induction (P := fun s' => s'.quota id = s.quota id) hseveral hstrategy rfl
    fun _ _ hstrategy' h => (quota_turn hseveral hstrategy' hid).trans h).2

theorem isLevel_turns (hseveral : 2 ≤ paths.size) (hstrategy : s.config.strategy = .roundRobin)
    (hlevel : IsLevel s.quota (paths.eligible demand.retransmission)) :
    IsLevel (turns paths demand s times).quota (paths.eligible demand.retransmission) :=
  (turns_induction (P := fun s' => IsLevel s'.quota (paths.eligible demand.retransmission))
    hseveral hstrategy hlevel fun _ _ hstrategy' h => isLevel_turn hseveral hstrategy' h).2

/-- Without any room below a bound that they keep to, the candidates are level. -/
theorem isLevel_of_slack (htop : ∀ p ∈ paths.eligible demand.retransmission, s.quota p.id ≤ top)
    (hslack :
      Multipath.slack s.quota ((paths.eligible demand.retransmission).map Path.face) top = 0) :
    IsLevel s.quota (paths.eligible demand.retransmission) := by
  intro p hp q hq
  have hroom : top - s.quota q.id = 0 :=
    List.sum_eq_zero_iff.mp hslack _ (List.mem_map.mpr ⟨_, List.mem_map.mpr ⟨q, hq, rfl⟩, rfl⟩)
  have := htop p hp
  omega

/-- As many turns as there is room below a bound make the candidates level. -/
theorem isLevel_of_slack_le (hseveral : 2 ≤ paths.size)
    (hstrategy : s.config.strategy = .roundRobin)
    (hceiling : ∀ p ∈ paths.eligible demand.retransmission, s.quota p.id ≤ quotaCeiling)
    (htop : ∀ p ∈ paths.eligible demand.retransmission, s.quota p.id ≤ top)
    (hslack : Multipath.slack s.quota ((paths.eligible demand.retransmission).map Path.face) top ≤
      times.length) :
    IsLevel (turns paths demand s times).quota (paths.eligible demand.retransmission) := by
  induction times generalizing s with
  | nil => exact isLevel_of_slack htop (Nat.le_zero.mp hslack)
  | cons now rest ih =>
      by_cases hlevel : IsLevel s.quota (paths.eligible demand.retransmission)
      · exact isLevel_turns hseveral hstrategy hlevel
      · obtain ⟨hceiling', htop', hlt⟩ := slack_turn now hseveral hstrategy hceiling htop
          hlevel
        exact ih (strategy_turn hseveral hstrategy) hceiling' htop'
          (Nat.le_of_lt_succ (Nat.lt_of_lt_of_le hlt hslack))

/-- **Round robin is fair.**  From quotas below the ceiling, whatever turns have been taken:

* unless a candidate has reached the ceiling, the path selected next is the one with the lowest
  quota, and of several the one with the lowest number; there is none only without candidates;
* once the quotas of the candidates are within one of each other, they stay so;
* they are so after as many turns as there is room, all together, below any bound for the quotas
  they start with;
* the quotas of the initial path and of every other path that is not a candidate are what they
  were. -/
theorem roundRobin_fair (hseveral : 2 ≤ paths.size) (hstrategy : s.config.strategy = .roundRobin)
    (hbelow : ∀ p ∈ paths.eligible demand.retransmission, s.quota p.id < quotaCeiling) :
    let candidates := paths.eligible demand.retransmission
    let after := turns paths demand s
    (∀ times now, (∀ p ∈ candidates, (after times).quota p.id < quotaCeiling) →
        ∃ choice, ((after times).select paths demand now).1 = .ok choice ∧
          IsChoice candidates (IsNext (after times).quota candidates) choice) ∧
      (∀ earlier later, IsLevel (after earlier).quota candidates →
        IsLevel (after (earlier ++ later)).quota candidates) ∧
      (∀ times top, (∀ p ∈ candidates, s.quota p.id ≤ top) →
        (candidates.map fun p => top - s.quota p.id).sum ≤ times.length →
          IsLevel (after times).quota candidates) ∧
      ∀ times id, (id = .initial ∨ ∀ p ∈ candidates, p.id ≠ id) →
        (after times).quota id = s.quota id := by
  intro candidates after
  refine ⟨fun times now hbelow => ?_, fun earlier later hlevel => ?_,
    fun times top htop hroom => ?_, fun times id hid => ?_⟩
  · exact select_isNext hseveral (strategy_turns hseveral hstrategy) hbelow
  · rw [show after (earlier ++ later) = turns paths demand (after earlier) later from
      turns_append earlier later]
    exact isLevel_turns hseveral (strategy_turns hseveral hstrategy) hlevel
  · refine isLevel_of_slack_le hseveral hstrategy (fun p hp => (hbelow p hp).le) htop ?_
    rw [Multipath.slack, List.map_map]
    exact hroom
  · refine quota_turns hseveral hstrategy fun p hp => ?_
    rcases hid with rfl | hid
    · exact PathSet.id_of_mem_additional (PathSet.mem_eligible.mp hp).1
    · exact hid p hp

/-- The initial path and three additional ones. -/
def threeMore : PathSet :=
  (((PathSet.empty.insert (.new .initial {} default)).insert (.new .primary {} default)).insert
    (.new ⟨2⟩ {} default)).insert (.new ⟨3⟩ {} default)

/-- One path starts three packets ahead of two others; after twenty turns they are level, and the
initial path has carried nothing. -/
theorem roundRobin_levels_threeMore :
    let s := turns threeMore {} ((following .roundRobin).setQuota .primary 3)
      (List.replicate 20 ⟨0⟩)
    IsLevel s.quota (threeMore.eligible false) ∧ s.quota .initial = 0 := by
  obtain ⟨-, -, hlevel, hothers⟩ :=
    @roundRobin_fair ((following .roundRobin).setQuota .primary 3) threeMore {} (by decide) rfl
      (by decide)
  exact ⟨hlevel _ 3 (by decide) (by decide), hothers _ .initial (.inl rfl)⟩

end Scheduler

end Multipath
