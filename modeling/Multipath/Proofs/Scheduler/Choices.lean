import Multipath.Proofs.Path.Queues
import Multipath.Scheduler.Selection

/-!
# What a selection comes to

* `champion_mem`, `champion_le`: the champion is one of the candidates, and no candidate goes
  before it in an order that displacing respects.
* `mem_ids_of_select`: a selected path is a path of the set.
* `selects_select`: what a selection may leave behind.
* `select_eq_none_iff`: when no path is found for a packet that is sent again, strategy by
  strategy.
-/

namespace Multipath

/-! ### Champions -/

section Champion

variable {α : Type} {displaces : α → α → Bool} {l : List α} {a : α}

theorem champion_eq_none : champion displaces l = none ↔ l = [] := by
  cases l <;> simp [champion]

/-- Of all candidates, none goes before the champion.  What displacing says may depend on which
of two candidates comes first in the list. -/
theorem champion_le_of_pairwise (Le : α → α → Prop) (hrefl : ∀ a, Le a a)
    (htrans : ∀ {a b c}, Le a b → Le b c → Le a c)
    (hl : l.Pairwise fun a b =>
      (displaces b a = true → Le b a) ∧ (displaces b a = false → Le a b))
    (h : champion displaces l = some a) : ∀ b ∈ l, Le a b := by
  have hfold : ∀ (l : List α) (best : α),
      (best :: l).Pairwise (fun a b =>
        (displaces b a = true → Le b a) ∧ (displaces b a = false → Le a b)) →
      let last := l.foldl (fun best b => if displaces b best then b else best) best
      Le last best ∧ ∀ b ∈ l, Le last b := by
    intro l
    induction l with
    | nil => exact fun best _ => ⟨hrefl best, fun b hb => absurd hb List.not_mem_nil⟩
    | cons c rest ih =>
        intro best hl
        obtain ⟨hbest, hc⟩ := List.pairwise_cons.mp hl
        rw [List.foldl_cons]
        cases hdisplaces : displaces c best with
        | true =>
            obtain ⟨hlast, hrest⟩ := ih c hc
            refine ⟨htrans hlast ((hbest c List.mem_cons_self).1 hdisplaces), fun b hb => ?_⟩
            rcases List.mem_cons.mp hb with rfl | hb
            · exact hlast
            · exact hrest b hb
        | false =>
            obtain ⟨hlast, hrest⟩ := ih best (List.pairwise_cons.mpr
              ⟨fun b hb => hbest b (List.mem_cons_of_mem _ hb), hc.of_cons⟩)
            refine ⟨hlast, fun b hb => ?_⟩
            rcases List.mem_cons.mp hb with rfl | hb
            · exact htrans hlast ((hbest b List.mem_cons_self).2 hdisplaces)
            · exact hrest b hb
  cases l with
  | nil => cases h
  | cons first rest =>
      obtain rfl := Option.some.inj h
      intro b hb
      rcases List.mem_cons.mp hb with rfl | hb
      · exact (hfold rest b hl).1
      · exact (hfold rest first hl).2 b hb

/-- Of all candidates, none goes before the champion in an order that displacing respects. -/
theorem champion_le (Le : α → α → Prop) (hrefl : ∀ a, Le a a)
    (htrans : ∀ {a b c}, Le a b → Le b c → Le a c)
    (htake : ∀ {a b}, displaces b a = true → Le b a)
    (hleave : ∀ {a b}, displaces b a = false → Le a b)
    (h : champion displaces l = some a) : ∀ b ∈ l, Le a b :=
  champion_le_of_pairwise Le hrefl htrans (List.pairwise_of_forall fun _ _ => ⟨htake, hleave⟩) h

theorem champion_mem (h : champion displaces l = some a) : a ∈ l := by
  have hfold : ∀ (l : List α) (best : α),
      l.foldl (fun best b => if displaces b best then b else best) best ∈ best :: l := by
    intro l
    induction l with
    | nil => exact fun best => List.mem_singleton.mpr rfl
    | cons c rest ih =>
        intro best
        rw [List.foldl_cons]
        split
        · exact List.mem_cons_of_mem _ (ih c)
        · rcases List.mem_cons.mp (ih best) with heq | hrest
          · exact List.mem_cons.mpr (.inl heq)
          · exact List.mem_cons_of_mem _ (List.mem_cons_of_mem _ hrest)
  cases l with
  | nil => cases h
  | cons first rest =>
      obtain rfl := Option.some.inj h
      exact hfold rest first

/-- The champion of the images is the image of the champion. -/
theorem champion_map {β : Type} (f : α → β) (displaces : β → β → Bool) (l : List α) :
    champion displaces (l.map f) =
      (champion (fun b a => displaces (f b) (f a)) l).map f := by
  cases l with
  | nil => rfl
  | cons first rest =>
      rw [List.map_cons, champion, champion, List.foldl_map, Option.map_some]
      exact congrArg some (List.foldl_hom f fun best b => (apply_ite f _ _ _).symm)

end Champion

/-! ### Paths of a set -/

namespace PathSet

variable {s : PathSet} {p : Path} {id : PathId}

theorem mem_additional : p ∈ s.additional ↔ p ∈ s ∧ p.isInitial = false := by
  rw [additional, List.mem_filter, Bool.not_eq_true']
  rfl

theorem id_of_mem_additional (hp : p ∈ s.additional) : p.id ≠ .initial := by
  have hinitial := (mem_additional.mp hp).2
  simpa [Path.isInitial, PathId.isInitial] using hinitial

/-- Only one path of a set is the initial one. -/
theorem additional_ne_nil (h : ¬ s.size ≤ 1) : s.additional ≠ [] := by
  intro hnil
  have hinitial : ∀ p ∈ s, p.id = .initial := by
    intro p hp
    have hnot : ¬ (!p.isInitial) = true := List.filter_eq_nil_iff.mp hnil p hp
    simpa [Path.isInitial, PathId.isInitial] using hnot
  have hlength : 2 ≤ s.toList.length := Nat.lt_of_not_le h
  obtain ⟨p, q, rest, hlist⟩ : ∃ p q rest, s.toList = p :: q :: rest := by
    match s.toList, hlength with
    | p :: q :: rest, _ => exact ⟨p, q, rest, rfl⟩
  have hlt : p.id < q.id :=
    (List.pairwise_cons.mp (hlist ▸ s.ascending)).1 q List.mem_cons_self
  have hp : p ∈ s := show p ∈ s.toList from hlist ▸ List.mem_cons_self
  have hq : q ∈ s := show q ∈ s.toList from hlist ▸ List.mem_cons_of_mem _ List.mem_cons_self
  rw [hinitial p hp, hinitial q hq] at hlt
  exact UInt8.lt_irrefl _ hlt

theorem get?_eq_none_iff : s.get? id = none ↔ id ∉ s.ids := by
  simp only [get?, List.find?_eq_none, beq_iff_eq, mem_ids, not_exists, not_and]
  exact Iff.rfl

theorem mem_ids_of_single {retransmission : Bool} (h : s.single retransmission = some id) :
    id ∈ s.ids := by
  unfold single at h
  split at h
  · rename_i p hget
    split at h
    · cases h
      exact mem_ids.mpr ⟨p, mem_of_get? hget, rfl⟩
    · cases h
  · cases h

theorem primary_of_firstAvailable (h : s.firstAvailable = some id) :
    id = .primary ∧ id ∈ s.ids := by
  unfold firstAvailable at h
  split at h
  · rename_i p hget
    split at h
    · cases h
      exact ⟨id_of_get? hget, mem_ids.mpr ⟨p, mem_of_get? hget, rfl⟩⟩
    · cases h
  · cases h

end PathSet

namespace Observation

variable {paths : PathSet} {elapsed : Duration}

theorem exists_ofPaths? (elapsed : Duration) (h : 2 ≤ paths.additional.length) :
    ∃ o, ofPaths? paths elapsed = some o := by
  unfold ofPaths?
  match paths.additional, h with
  | a :: b :: _, _ => exact ⟨_, rfl⟩

theorem candidate_mem {o : Observation} {action : Nat} (h : ofPaths? paths elapsed = some o) :
    o.candidate action ∈ paths.additional := by
  unfold ofPaths? at h
  split at h
  · rename_i a b rest hlist
    cases h
    rw [hlist, candidate]
    split
    · exact List.mem_cons_of_mem _ List.mem_cons_self
    · exact List.mem_cons_self
  · cases h

end Observation

/-! ### Selected paths -/

namespace Scheduler

variable {s : Scheduler} {paths : PathSet} {demand : Demand} {now : Instant} {id : PathId}

theorem spread_eq_some (h : s.spread paths demand = some id) :
    ∃ origin p, demand.origin = some origin ∧ p ∈ paths.additional ∧ p.id = id ∧
      s.quota p.id < s.quota origin.id := by
  unfold spread at h
  split at h
  · split at h
    · rename_i origin horigin
      split at h
      · cases h
      · obtain ⟨p, hfind, hid⟩ := Option.map_eq_some_iff.mp h
        have hmem := List.mem_of_find?_eq_some hfind
        have hp := List.find?_some hfind
        simp only [Bool.and_eq_true, Bool.not_eq_true', decide_eq_true_eq] at hp
        exact ⟨origin, p, horigin, PathSet.mem_additional.mpr ⟨hmem, hp.1.1⟩, hid, hp.2⟩
    · cases h
  · cases h

theorem mem_additional_of_lowestRtt (h : s.lowestRtt paths demand = some id) :
    ∃ p ∈ paths.additional, p.id = id := by
  unfold lowestRtt at h
  split at h
  · cases h
    obtain ⟨-, p, -, hp, hid, -⟩ := spread_eq_some ‹_›
    exact ⟨p, hp, hid⟩
  · obtain ⟨p, hchampion, hid⟩ := Option.map_eq_some_iff.mp h
    obtain ⟨hp, heligible⟩ := List.mem_filter.mp (champion_mem hchampion)
    simp only [Path.isEligible, Bool.and_eq_true, Bool.not_eq_true'] at heligible
    exact ⟨p, PathSet.mem_additional.mpr ⟨hp, heligible.1.1⟩, hid⟩

theorem mem_roomy_of_random {retransmission : Bool} {s' : Scheduler}
    (h : s.random paths retransmission = (some id, s')) :
    ∃ p ∈ s.roomy paths retransmission, p.id = id := by
  unfold random at h
  split at h
  · cases h
  · rename_i p rest hroomy
    simp only [Prod.mk.injEq, Option.some.injEq] at h
    refine ⟨_, ?_, h.1⟩
    rw [hroomy, List.getD_eq_getElem?_getD]
    cases hat : (p :: rest)[(s.draws.below (rest.length + 1)).1]? with
    | none => exact List.mem_cons_self
    | some q => exact List.mem_of_getElem? hat

theorem mem_additional_of_random {retransmission : Bool} {s' : Scheduler}
    (h : s.random paths retransmission = (some id, s')) : ∃ p ∈ paths.additional, p.id = id := by
  obtain ⟨p, hroomy, hid⟩ := mem_roomy_of_random h
  exact ⟨p, (List.mem_filter.mp hroomy).1, hid⟩

/-- The learned policy picks an additional path, unless none of them may send. -/
theorem learned_cases (h : (s.learned paths demand now).1 = .ok (some id)) :
    (∃ p ∈ paths.additional, p.id = id) ∨
      (∀ p ∈ paths.additional, p.sendingAllowed = false) ∧ id ∈ paths.ids := by
  have hfilter : ∀ {p l}, paths.additional.filter (·.sendingAllowed) = p :: l →
      p ∈ paths.additional := fun hlist =>
    (List.mem_filter.mp (hlist ▸ List.mem_cons_self)).1
  unfold learned at h
  split at h
  · obtain ⟨p, hhead, hid⟩ := Option.map_eq_some_iff.mp (Except.ok.inj h)
    exact .inl ⟨p, List.mem_of_mem_head? hhead, hid⟩
  · split at h
    · rename_i hnil
      refine .inr ⟨fun p hp => ?_, PathSet.mem_ids_of_single (Except.ok.inj h)⟩
      exact Bool.not_eq_true _ ▸ List.filter_eq_nil_iff.mp hnil p hp
    · exact .inl ⟨_, hfilter ‹_›, Option.some.inj (Except.ok.inj h)⟩
    · split at h
      · exact .inl ⟨_, hfilter ‹_›, Option.some.inj (Except.ok.inj h)⟩
      · exact .inl (mem_additional_of_lowestRtt (Except.ok.inj h))
      · split at h
        · cases h
        · exact .inl ⟨_, Observation.candidate_mem ‹_›, Option.some.inj (Except.ok.inj h)⟩

/-- **A selected path is a path of the set.** -/
theorem mem_ids_of_select (h : (s.select paths demand now).1 = .ok (some id)) :
    id ∈ paths.ids := by
  have hadditional : (∃ p ∈ paths.additional, p.id = id) → id ∈ paths.ids := fun ⟨p, hp, hid⟩ =>
    PathSet.mem_ids.mpr ⟨p, (PathSet.mem_additional.mp hp).1, hid⟩
  unfold select at h
  split at h
  · exact PathSet.mem_ids_of_single (Except.ok.inj h)
  · split at h
    · obtain ⟨p, hchampion, hid⟩ := Option.map_eq_some_iff.mp (Except.ok.inj h)
      exact PathSet.mem_ids.mpr ⟨p, (List.mem_filter.mp (champion_mem hchampion)).1, hid⟩
    · exact hadditional (mem_additional_of_lowestRtt (Except.ok.inj h))
    · exact hadditional (mem_additional_of_random (Prod.ext (Except.ok.inj h) rfl))
    · exact (PathSet.primary_of_firstAvailable (Except.ok.inj h)).2
    · rcases learned_cases h with hsome | ⟨-, hid⟩
      · exact hadditional hsome
      · exact hid

/-! ### What a selection leaves behind -/

/-- A selection answers, and leaves the scheduler as it was, with other draws, or as it is once the
agent was asked; or it stops a training episode, and tells the agent. -/
inductive Selects (s : Scheduler) : Except Error (Option PathId) × Scheduler → Prop
  | settled chosen : Selects s (.ok chosen, s)
  | drawn chosen draws : Selects s (.ok chosen, { s with draws })
  | asked agent o : Selects s (.ok (some (s.consult agent o).1), (s.consult agent o).2)
  | stopped reason : Selects s (.error (.zeroTolerance reason), s.endEpisode Reward.penalty)

theorem selects_learned (s : Scheduler) (paths : PathSet) (demand : Demand) (now : Instant) :
    s.Selects (s.learned paths demand now) := by
  unfold learned
  split
  · exact .settled _
  · split
    · exact .settled _
    · exact .settled _
    · split
      · exact .settled _
      · exact .settled _
      · split
        · exact .stopped _
        · exact .asked _ _

/-- Whatever the strategy, a selection does one of these. -/
theorem selects_select (s : Scheduler) (paths : PathSet) (demand : Demand) (now : Instant) :
    s.Selects (s.select paths demand now) := by
  unfold select
  split
  · exact .settled _
  · split
    · exact .settled _
    · exact .settled _
    · simp only [random]
      split
      · exact .settled _
      · exact .drawn _ _
    · exact .settled _
    · exact s.selects_learned paths demand now

/-! ### No path at all -/

/-- A returned piece of a stream does not leave its unmeasured path, and every additional path is
suspected to have failed. -/
def FindsNoFast (s : Scheduler) (paths : PathSet) (demand : Demand) : Prop :=
  (∀ p ∈ paths.additional, p.suspect = true) ∧
    ∀ origin, demand.stream = true → demand.origin = some origin → origin.isMeasured = false →
      ∀ p ∈ paths.additional, p.id ≠ origin.id → s.quota origin.id ≤ s.quota p.id

/-- No path is found for a packet that is sent again. -/
def FindsNone (s : Scheduler) (paths : PathSet) (demand : Demand) : Prop :=
  if paths.size ≤ 1 then .initial ∉ paths.ids
  else
    match s.config.strategy with
    | .roundRobin => ∀ p ∈ paths.additional, p.suspect = true ∨ quotaCeiling ≤ s.quota p.id
    | .lowestRtt => s.FindsNoFast paths demand
    | .random => False
    | .firstAvailable => ∀ p ∈ paths, p.id = .primary → p.sendingAllowed = false
    | .learnedPolicy =>
      paths.size ≠ 2 ∧
        match paths.additional.filter (·.sendingAllowed) with
        | [] => .initial ∉ paths.ids
        | [_] => False
        | _ => s.agent = none ∧ s.FindsNoFast paths demand

theorem single_eq_none_iff : paths.single true = none ↔ .initial ∉ paths.ids := by
  rw [← PathSet.get?_eq_none_iff]
  unfold PathSet.single
  cases paths.get? .initial <;> simp [Path.serves]

theorem spread_eq_none_iff (hre : demand.retransmission = true) :
    s.spread paths demand = none ↔
      ∀ origin, demand.stream = true → demand.origin = some origin → origin.isMeasured = false →
        ∀ p ∈ paths.additional, p.id ≠ origin.id → s.quota origin.id ≤ s.quota p.id := by
  unfold spread
  simp only [hre, Bool.true_and]
  cases hstream : demand.stream with
  | false => simp
  | true =>
      cases horigin : demand.origin with
      | none => simp
      | some origin =>
          cases hmeasured : origin.isMeasured with
          | true => simp [hmeasured]
          | false =>
              simp only [hmeasured, if_true, Option.some.injEq, Option.map_eq_none_iff,
                List.find?_eq_none, Bool.false_eq_true, if_false]
              constructor
              · rintro hnone _ - rfl - p hp hne
                obtain ⟨hmem, hinitial⟩ := PathSet.mem_additional.mp hp
                have := hnone p hmem
                simp only [hinitial, Bool.not_false, Bool.true_and, Bool.and_eq_true, bne_iff_ne,
                  ne_eq, hne, not_false_eq_true, decide_eq_true_eq, true_and] at this
                exact Nat.le_of_not_lt this
              · intro hall p hmem hp
                simp only [Bool.and_eq_true, Bool.not_eq_true', bne_iff_ne, ne_eq,
                  decide_eq_true_eq] at hp
                have := hall origin trivial rfl hmeasured p
                  (PathSet.mem_additional.mpr ⟨hmem, hp.1.1⟩) hp.1.2
                exact Nat.not_lt.mpr this hp.2

theorem lowestRtt_eq_none_iff (hre : demand.retransmission = true) :
    s.lowestRtt paths demand = none ↔ s.FindsNoFast paths demand := by
  have heligible : paths.toList.filter (·.isEligible true) = [] ↔
      ∀ p ∈ paths.additional, p.suspect = true := by
    rw [List.filter_eq_nil_iff]
    constructor
    · intro hall p hp
      obtain ⟨hmem, hinitial⟩ := PathSet.mem_additional.mp hp
      simpa [Path.isEligible, Path.serves, hinitial] using hall p hmem
    · intro hall p hmem hp
      simp only [Path.isEligible, Path.serves, Bool.and_eq_true, Bool.not_eq_true'] at hp
      simp [hall p (PathSet.mem_additional.mpr ⟨hmem, hp.1.1⟩)] at hp
  rw [FindsNoFast, ← spread_eq_none_iff hre, ← heligible]
  unfold lowestRtt
  rw [hre]
  cases s.spread paths demand <;> simp [champion_eq_none]

theorem roundRobin_eq_none_iff :
    s.roundRobin paths true = none ↔
      ∀ p ∈ paths.additional, p.suspect = true ∨ quotaCeiling ≤ s.quota p.id := by
  simp only [roundRobin, Option.map_eq_none_iff, champion_eq_none, List.filter_eq_nil_iff]
  constructor
  · intro hall p hp
    obtain ⟨hmem, hinitial⟩ := PathSet.mem_additional.mp hp
    have := hall p hmem
    simp only [Path.isEligible, hinitial, Path.serves] at this
    simpa [Classical.or_iff_not_imp_left] using this
  · intro hall p hmem hp
    simp only [Path.isEligible, Path.serves, Bool.and_eq_true, Bool.not_eq_true',
      decide_eq_true_eq] at hp
    rcases hall p (PathSet.mem_additional.mpr ⟨hmem, hp.1.1.1⟩) with h | h
    · simp [h] at hp
    · exact absurd hp.2 (Nat.not_lt.mpr h)

theorem firstAvailable_eq_none_iff :
    paths.firstAvailable = none ↔ ∀ p ∈ paths, p.id = .primary → p.sendingAllowed = false := by
  unfold PathSet.firstAvailable
  cases hget : paths.get? .primary with
  | none =>
      have habsent := PathSet.get?_eq_none_iff.mp hget
      simp only [true_iff]
      exact fun p hp hid => absurd (PathSet.mem_ids.mpr ⟨p, hp, hid⟩) habsent
  | some p =>
      have hp := PathSet.mem_of_get? hget
      have hid := PathSet.id_of_get? hget
      constructor
      · intro hnone q hq hqid
        rw [PathSet.eq_of_id_eq hq hp (hqid.trans hid.symm)]
        simpa using hnone
      · intro hall
        simp [hall p hp hid]

theorem learned_eq_none_iff (hsize : ¬ paths.size ≤ 1) (hre : demand.retransmission = true) :
    (s.learned paths demand now).1 = .ok none ↔ paths.size ≠ 2 ∧
      match paths.additional.filter (·.sendingAllowed) with
      | [] => .initial ∉ paths.ids
      | [_] => False
      | _ => s.agent = none ∧ s.FindsNoFast paths demand := by
  unfold learned
  split
  · rename_i htwo
    cases hlist : paths.additional with
    | nil => exact absurd hlist (PathSet.additional_ne_nil hsize)
    | cons p rest => simp [htwo]
  · rename_i htwo
    cases hlist : paths.additional.filter (·.sendingAllowed) with
    | nil => simp [htwo, hre, single_eq_none_iff]
    | cons p rest =>
        cases rest with
        | nil => simp
        | cons q rest =>
            have htwice : 2 ≤ paths.additional.length := by
              have := List.length_filter_le (·.sendingAllowed) paths.additional
              rw [hlist] at this
              exact Nat.le_trans (Nat.le_add_left 2 _) this
            obtain ⟨o, ho⟩ := Observation.exists_ofPaths? (now.since s.start) htwice
            simp only [ho]
            cases s.agent with
            | none => simp [htwo, lowestRtt_eq_none_iff hre]
            | some agent =>
                simp only
                split <;> simp

/-- **When a packet that is sent again finds no path.** -/
theorem select_eq_none_iff (hre : demand.retransmission = true) :
    (s.select paths demand now).1 = .ok none ↔ s.FindsNone paths demand := by
  unfold select FindsNone
  split
  · simp [hre, single_eq_none_iff]
  · rename_i hsize
    cases s.config.strategy with
    | roundRobin => simp [hre, roundRobin_eq_none_iff]
    | lowestRtt => simp [lowestRtt_eq_none_iff hre]
    | random =>
        -- there is an additional path, and a packet that is sent again fits on any
        have hroomy : s.roomy paths true = paths.additional := by
          simp [roomy, Path.serves]
        simp only [hre, random, hroomy]
        cases hlist : paths.additional with
        | nil => exact absurd hlist (PathSet.additional_ne_nil hsize)
        | cons p rest => simp
    | firstAvailable => simp [firstAvailable_eq_none_iff]
    | learnedPolicy => exact learned_eq_none_iff hsize hre

end Scheduler

end Multipath
