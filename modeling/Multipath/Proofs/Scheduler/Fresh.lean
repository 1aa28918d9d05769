import Multipath.Proofs.Decimal.Signs
import Multipath.Proofs.Scheduler.Choices

/-!
# Where fresh data goes

Fresh data waits for no particular path, so nothing forces it onto the initial path or onto one
that may not send.  Round robin, the lowest round-trip time and the first additional path filter
both out.  The other two strategies are looser: a random choice also counts what is overcommitted
within a margin, and the learned policy asks whether paths may send only to see whether there is
something to decide.

* `PathSet.MaySend`: the set has a path of this number that may send.
* `Scheduler.Decides`: the choice is the agent's, and this is the path it picks.
* `Scheduler.select_initial_iff`: when fresh data goes to the initial path although there are
  others.
* `Scheduler.select_blocked_iff`: when fresh data goes to a path that may not send.
-/

namespace Multipath

namespace PathSet

variable {s : PathSet} {p : Path} {id : PathId}

/-- There is a path of this number that may send. -/
def MaySend (s : PathSet) (id : PathId) : Prop := ∃ p ∈ s, p.id = id ∧ p.sendingAllowed = true

theorem not_maySend (hp : p ∈ s) (hblocked : p.sendingAllowed = false) : ¬ s.MaySend p.id := by
  rintro ⟨q, hq, hid, hallowed⟩
  rw [eq_of_id_eq hq hp hid, hblocked] at hallowed
  cases hallowed

theorem single_initial_iff : s.single false = some .initial ↔ s.MaySend .initial := by
  unfold single MaySend
  cases hget : s.get? .initial with
  | none =>
      have habsent := get?_eq_none_iff.mp hget
      simp only [reduceCtorEq, false_iff]
      rintro ⟨p, hp, hid, -⟩
      exact habsent (mem_ids.mpr ⟨p, hp, hid⟩)
  | some p =>
      have hp := mem_of_get? hget
      have hid := id_of_get? hget
      simp only [Path.serves, Bool.false_or]
      constructor
      · intro h
        split at h
        · exact ⟨p, hp, hid, ‹_›⟩
        · cases h
      · rintro ⟨q, hq, hqid, hallowed⟩
        rw [← eq_of_id_eq hq hp (hqid.trans hid.symm), if_pos hallowed, hqid]

theorem initial_of_single {retransmission : Bool} (h : s.single retransmission = some id) :
    id = .initial := by
  unfold single at h
  split at h
  · rename_i p hget
    split at h
    · exact Option.some.inj h ▸ id_of_get? hget
    · cases h
  · cases h

theorem maySend_of_single (h : s.single false = some id) : s.MaySend id := by
  obtain rfl := initial_of_single h
  exact single_initial_iff.mp h

theorem maySend_of_firstAvailable (h : s.firstAvailable = some id) : s.MaySend id := by
  unfold firstAvailable at h
  split at h
  · rename_i p hget
    split at h
    · exact ⟨p, mem_of_get? hget, Option.some.inj h, ‹_›⟩
    · cases h
  · cases h

end PathSet

/-! ### Windows without a margin -/

namespace Path

/-- Without a margin, only a window that is used up exactly counts as overcommitted within it. -/
theorem window_eq_of_overcommitted {p : Path}
    (h : p.isOvercommittedWithin ((0 : UInt32).toUInt64.toFloat * 0.01) = true) :
    p.telemetry.window = p.telemetry.inFlight := by
  simp only [isOvercommittedWithin, Bool.and_eq_true, decide_eq_true_eq] at h
  obtain ⟨hupper, hlower⟩ := h
  have hmargin : ((0 : UInt32).toUInt64.toFloat * 0.01 : Float).toModel.unpack =
      .zero .positive := rfl
  have hzero : Binary.IsNought (0.0 : Float).toModel.unpack := trivial
  have hspare : p.telemetry.spareWindow.toInt = 0 :=
    Binary.eq_zero_of_between (Binary.isNought_mul _ hmargin) hzero hlower hupper
  have hsigned : p.telemetry.spareWindow = 0 := Int64.toInt_inj.mp hspare
  have hdifference : p.telemetry.window - p.telemetry.inFlight = 0 :=
    congrArg Int64.toUInt64 hsigned
  rwa [UInt64.sub_eq_iff_eq_add, UInt64.zero_add] at hdifference

end Path

namespace Scheduler

variable {s : Scheduler} {paths : PathSet} {demand : Demand} {now : Instant} {id : PathId}
  {p : Path}

/-! ### The strategies -/

theorem mem_additional_of_roundRobin {retransmission : Bool}
    (h : s.roundRobin paths retransmission = some id) :
    ∃ p ∈ paths.additional, p.id = id ∧ p.serves retransmission = true := by
  obtain ⟨p, hchampion, hid⟩ := Option.map_eq_some_iff.mp h
  obtain ⟨hp, heligible⟩ := List.mem_filter.mp (champion_mem hchampion)
  simp only [Path.isEligible, Bool.and_eq_true, Bool.not_eq_true'] at heligible
  exact ⟨p, PathSet.mem_additional.mpr ⟨hp, heligible.1.1.1⟩, hid, heligible.1.2⟩

theorem maySend_of_roundRobin (h : s.roundRobin paths false = some id) : paths.MaySend id := by
  obtain ⟨p, hp, hid, hserves⟩ := mem_additional_of_roundRobin h
  exact ⟨p, (PathSet.mem_additional.mp hp).1, hid, by simpa [Path.serves] using hserves⟩

theorem maySend_of_lowestRtt (hfresh : demand.retransmission = false)
    (h : s.lowestRtt paths demand = some id) : paths.MaySend id := by
  have hspread : s.spread paths demand = none := by simp [spread, hfresh]
  rw [lowestRtt, hspread, hfresh] at h
  obtain ⟨p, hchampion, hid⟩ := Option.map_eq_some_iff.mp h
  obtain ⟨hp, heligible⟩ := List.mem_filter.mp (champion_mem hchampion)
  simp only [Path.isEligible, Path.serves, Bool.and_eq_true, Bool.false_or] at heligible
  exact ⟨p, hp, hid, heligible.2⟩

/-- Without a margin, a path drawn for fresh data may send or has its window used up exactly. -/
theorem maySend_or_full_of_random {s' : Scheduler} (hmargin : s.config.allowedCongestion = 0)
    (h : s.random paths false = (some id, s')) :
    paths.MaySend id ∨
      ∃ p ∈ paths.additional, p.id = id ∧ p.telemetry.window = p.telemetry.inFlight := by
  obtain ⟨p, hroomy, hid⟩ := mem_roomy_of_random h
  simp only [roomy, hmargin, List.mem_filter, Bool.or_eq_true] at hroomy
  obtain ⟨hp, hserves | hover⟩ := hroomy
  · exact .inl ⟨p, (PathSet.mem_additional.mp hp).1, hid, by simpa [Path.serves] using hserves⟩
  · exact .inr ⟨p, hp, hid, Path.window_eq_of_overcommitted hover⟩

/-! ### The learned policy -/

/-- The learned policy leaves the choice to the agent, which picks this path. -/
structure Decides (s : Scheduler) (paths : PathSet) (now : Instant) (p : Path) : Prop where
  strategy : s.config.strategy = .learnedPolicy
  size : 3 ≤ paths.size
  /-- There is something to decide: two additional paths may send. -/
  sendable : 2 ≤ (paths.additional.filter (·.sendingAllowed)).length
  /-- The agent is shown the two lowest-numbered additional paths and picks one of them; in
  training, only if nothing ends the episode. -/
  picks : ∃ agent o, s.agent = some agent ∧
    Observation.ofPaths? paths (now.since s.start) = some o ∧
    (s.config.training = true → Violation.find? paths o.first o.second = none) ∧
    o.candidate (agent.policy s.journal.agentCalls o.state) = p

/-- Where no additional path may send, two paths leave the additional one and more of them the
initial one. -/
theorem learned_of_blocked (hblocked : ∀ p ∈ paths.additional, p.sendingAllowed = false) :
    (s.learned paths demand now).1 = .ok (if paths.size = 2 then paths.additional.head?.map (·.id)
      else paths.single demand.retransmission) := by
  have hnone : paths.additional.filter (·.sendingAllowed) = [] :=
    List.filter_eq_nil_iff.mpr fun p hp => by simp [hblocked p hp]
  unfold learned
  split
  · rfl
  · rw [hnone]

theorem learned_initial_iff (hfresh : demand.retransmission = false) :
    (s.learned paths demand now).1 = .ok (some .initial) ↔ paths.size ≠ 2 ∧
      (∀ p ∈ paths.additional, p.sendingAllowed = false) ∧ paths.MaySend .initial := by
  constructor
  · intro h
    rcases learned_cases h with ⟨p, hp, hid⟩ | ⟨hblocked, -⟩
    · exact absurd hid (PathSet.id_of_mem_additional hp)
    · rw [learned_of_blocked hblocked] at h
      split at h
      · obtain ⟨p, hhead, hid⟩ := Option.map_eq_some_iff.mp (Except.ok.inj h)
        exact absurd hid (PathSet.id_of_mem_additional (List.mem_of_mem_head? hhead))
      · rw [hfresh] at h
        exact ⟨‹_›, hblocked, PathSet.single_initial_iff.mp (Except.ok.inj h)⟩
  · rintro ⟨hsize, hblocked, hmay⟩
    rw [learned_of_blocked hblocked, if_neg hsize, hfresh, PathSet.single_initial_iff.mpr hmay]

/-- With more than two paths, what the learned policy picks for fresh data may send, unless the
agent picks it. -/
theorem maySend_or_decides_of_learned (hfresh : demand.retransmission = false)
    (hstrategy : s.config.strategy = .learnedPolicy) (hsize : 3 ≤ paths.size)
    (h : (s.learned paths demand now).1 = .ok (some id)) :
    paths.MaySend id ∨ ∃ p, s.Decides paths now p ∧ p.id = id := by
  have hfilter : ∀ {p l}, paths.additional.filter (·.sendingAllowed) = p :: l →
      paths.MaySend p.id := by
    intro p l hlist
    obtain ⟨hp, hallowed⟩ := List.mem_filter.mp (hlist ▸ List.mem_cons_self)
    exact ⟨p, (PathSet.mem_additional.mp hp).1, rfl, hallowed⟩
  unfold learned at h
  rw [if_neg (by omega)] at h
  split at h
  · rw [hfresh] at h
    exact .inl (PathSet.maySend_of_single (Except.ok.inj h))
  · exact .inl (Option.some.inj (Except.ok.inj h) ▸ hfilter ‹_›)
  · rename_i first rest hne hlist
    split at h
    · exact .inl (Option.some.inj (Except.ok.inj h) ▸ hfilter hlist)
    · exact .inl (maySend_of_lowestRtt hfresh (Except.ok.inj h))
    · rename_i o agent ho hagent
      have htwo : 2 ≤ (paths.additional.filter (·.sendingAllowed)).length := by
        rw [hlist]
        match rest, hne with
        | _ :: _, _ => exact Nat.le_add_left 2 _
      split at h
      · cases h
      · rename_i hcase
        refine .inr ⟨_, ⟨hstrategy, hsize, htwo, agent, o, hagent, ho, fun htraining => ?_, rfl⟩,
          Option.some.inj (Except.ok.inj h)⟩
        cases hviolation : Violation.find? paths o.first o.second with
        | none => rfl
        | some violation => exact absurd hviolation (hcase violation htraining)

theorem learned_of_decides (h : s.Decides paths now p) :
    (s.learned paths demand now).1 = .ok (some p.id) := by
  obtain ⟨-, hsize, hsendable, agent, o, hagent, ho, hviolation, rfl⟩ := h
  obtain ⟨first, second, rest, hlist⟩ : ∃ first second rest,
      paths.additional.filter (·.sendingAllowed) = first :: second :: rest := by
    generalize paths.additional.filter (·.sendingAllowed) = sendable at hsendable
    match sendable, hsendable with
    | first :: second :: rest, _ => exact ⟨first, second, rest, rfl⟩
  unfold learned
  rw [if_neg (by omega), hlist]
  simp only [ho, hagent]
  cases htraining : s.config.training with
  | false => rfl
  | true =>
      simp only [hviolation htraining]
      rfl

/-! ### Fresh data -/

/-- A learning scheduler on which nothing has happened yet. -/
def learner (agent : Option Agent) : Scheduler :=
  .new { strategy := .learnedPolicy } {} ⟨1⟩ ⟨0⟩ agent default default

/-- **Fresh data goes to the initial path although there are others** exactly if the learned
policy meets at least three paths of which no additional one may send, but the initial one may.
Every other strategy leaves the initial path to the handshake. -/
theorem select_initial_iff (hseveral : 2 ≤ paths.size) (hfresh : demand.retransmission = false) :
    (s.select paths demand now).1 = .ok (some .initial) ↔
      s.config.strategy = .learnedPolicy ∧ 3 ≤ paths.size ∧
        (∀ p ∈ paths.additional, p.sendingAllowed = false) ∧ paths.MaySend .initial := by
  have hadditional : ¬ ∃ p ∈ paths.additional, p.id = .initial := fun ⟨p, hp, hid⟩ =>
    PathSet.id_of_mem_additional hp hid
  unfold select
  rw [if_neg (by omega)]
  cases s.config.strategy with
  | roundRobin =>
      simp only [reduceCtorEq, false_and, iff_false]
      intro h
      obtain ⟨p, hp, hid, -⟩ := mem_additional_of_roundRobin (Except.ok.inj h)
      exact hadditional ⟨p, hp, hid⟩
  | lowestRtt =>
      simp only [reduceCtorEq, false_and, iff_false]
      exact fun h => hadditional (mem_additional_of_lowestRtt (Except.ok.inj h))
  | random =>
      simp only [reduceCtorEq, false_and, iff_false]
      exact fun h => hadditional (mem_additional_of_random (Prod.ext (Except.ok.inj h) rfl))
  | firstAvailable =>
      simp only [reduceCtorEq, false_and, iff_false]
      intro h
      have hprimary := (PathSet.primary_of_firstAvailable (Except.ok.inj h)).1
      exact absurd hprimary (by decide)
  | learnedPolicy =>
      have hthree : paths.size ≠ 2 ↔ 3 ≤ paths.size := by omega
      rw [learned_initial_iff hfresh, hthree]
      simp only [true_and]

/-- Only the initial one of three paths may send. -/
def onlyInitial : PathSet :=
  ((PathSet.empty.insert (.new .initial {} default)).insert
    (.new .primary { sendingAllowed := false } default)).insert
    (.new ⟨2⟩ { sendingAllowed := false } default)

theorem select_initial_onlyInitial :
    ((learner none).select onlyInitial {} ⟨0⟩).1 = .ok (some .initial) := by
  refine (select_initial_iff (by decide) rfl).mpr ⟨rfl, by decide, ?_, ?_⟩
  · decide
  · exact ⟨.new .initial {} default, List.mem_cons_self, rfl, rfl⟩

/-- **The initial path is not left to the handshake.**  Three paths are there, and the packet
carries fresh data. -/
theorem fresh_data_on_initial :
    ¬ ∀ (s : Scheduler) (paths : PathSet) (demand : Demand) (now : Instant), 2 ≤ paths.size →
      demand.retransmission = false → (s.select paths demand now).1 ≠ .ok (some .initial) := by
  intro hnever
  exact hnever (learner none) onlyInitial {} ⟨0⟩ (by decide) rfl rfl

/-- **Fresh data goes to a path that may not send** exactly if that path is the one the agent
picks.  No margin is allowed for, and two cases are left aside in which nothing is asked: the sole
candidate of the learned policy, and a window that is used up exactly under the random strategy. -/
theorem select_blocked_iff (hmargin : s.config.allowedCongestion = 0)
    (hfresh : demand.retransmission = false)
    (hchoice : s.config.strategy = .learnedPolicy → paths.size ≠ 2)
    (hfull : s.config.strategy = .random → ∀ q ∈ paths.additional, q.sendingAllowed = false →
      q.telemetry.window ≠ q.telemetry.inFlight)
    (hp : p ∈ paths) (hblocked : p.sendingAllowed = false) :
    (s.select paths demand now).1 = .ok (some p.id) ↔ s.Decides paths now p := by
  have hnot : ¬ paths.MaySend p.id := PathSet.not_maySend hp hblocked
  have hother : s.config.strategy ≠ .learnedPolicy → ¬ s.Decides paths now p :=
    fun hne hdecides => hne hdecides.strategy
  unfold select
  split
  · rw [hfresh]
    refine ⟨fun h => absurd (PathSet.maySend_of_single (Except.ok.inj h)) hnot, fun h => ?_⟩
    exact absurd h.size (by omega)
  · cases hstrategy : s.config.strategy with
    | roundRobin =>
        simp only [hother (by simp [hstrategy]), iff_false, hfresh]
        exact fun h => hnot (maySend_of_roundRobin (Except.ok.inj h))
    | lowestRtt =>
        simp only [hother (by simp [hstrategy]), iff_false]
        exact fun h => hnot (maySend_of_lowestRtt hfresh (Except.ok.inj h))
    | random =>
        simp only [hother (by simp [hstrategy]), iff_false, hfresh]
        intro h
        rcases maySend_or_full_of_random hmargin (Prod.ext (Except.ok.inj h) rfl) with
          hmay | ⟨q, hq, hid, hwindow⟩
        · exact hnot hmay
        · obtain rfl := PathSet.eq_of_id_eq (PathSet.mem_additional.mp hq).1 hp hid
          exact hfull hstrategy q hq hblocked hwindow
    | firstAvailable =>
        simp only [hother (by simp [hstrategy]), iff_false]
        exact fun h => hnot (PathSet.maySend_of_firstAvailable (Except.ok.inj h))
    | learnedPolicy =>
        have htwo := hchoice hstrategy
        refine ⟨fun h => ?_, learned_of_decides⟩
        rcases maySend_or_decides_of_learned hfresh hstrategy (by omega) h with
          hmay | ⟨q, hdecides, hid⟩
        · exact absurd hmay hnot
        · obtain ⟨agent, o, -, ho, -, hpicks⟩ := hdecides.picks
          have hq : q ∈ paths.additional := hpicks ▸ Observation.candidate_mem ho
          rwa [← PathSet.eq_of_id_eq (PathSet.mem_additional.mp hq).1 hp hid]

/-- Of three additional paths, the first may not send. -/
def firstBlocked : PathSet :=
  (((PathSet.empty.insert (.new .initial {} default)).insert
    (.new .primary { sendingAllowed := false } default)).insert (.new ⟨2⟩ {} default)).insert
    (.new ⟨3⟩ {} default)

/-- The blocked path carries fresh data if the agent picks it, and not if it picks the other. -/
theorem select_blocked_firstBlocked :
    ((learner (some (.cycling [0]))).select firstBlocked {} ⟨0⟩).1 = .ok (some .primary) ∧
      ((learner (some (.cycling [1]))).select firstBlocked {} ⟨0⟩).1 ≠ .ok (some .primary) := by
  have hblocked : Path.new .primary { sendingAllowed := false } default ∈ firstBlocked :=
    List.mem_cons_of_mem _ List.mem_cons_self
  constructor
  · exact (select_blocked_iff rfl rfl (fun _ => by decide) (fun h => absurd h (by decide)) hblocked
      rfl).mpr ⟨rfl, by decide, by decide, _, _, rfl, rfl, nofun, rfl⟩
  · intro hchosen
    obtain ⟨-, -, -, agent, o, hagent, ho, -, hpicks⟩ := (select_blocked_iff rfl rfl
      (fun _ => by decide) (fun h => absurd h (by decide)) hblocked rfl).mp hchosen
    obtain rfl := Option.some.inj hagent
    obtain rfl := Option.some.inj ho
    exact absurd (congrArg Path.id hpicks) (by decide)

/-- **Fresh data on a path that may not send.**  Nothing may be overcommitted, and the agent picks
the first of its two candidates without being told that it is blocked. -/
theorem fresh_data_on_blocked :
    ¬ ∀ (s : Scheduler) (paths : PathSet) (demand : Demand) (now : Instant) (id : PathId),
      s.config.allowedCongestion = 0 → demand.retransmission = false →
      (s.select paths demand now).1 = .ok (some id) → paths.MaySend id := by
  intro hnever
  have hblocked : Path.new .primary { sendingAllowed := false } default ∈ firstBlocked :=
    List.mem_cons_of_mem _ List.mem_cons_self
  exact PathSet.not_maySend hblocked rfl
    (hnever (learner (some (.cycling [0]))) firstBlocked {} ⟨0⟩ .primary rfl rfl rfl)

end Scheduler

end Multipath
