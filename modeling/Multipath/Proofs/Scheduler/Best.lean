import Mathlib.Data.Prod.Lex
import Mathlib.Order.Lex
import Multipath.Proofs.Scheduler.Choices

/-!
# The best candidate

Round robin and the lowest round-trip time go through the paths once, in ascending order of their
numbers, and keep the best path so far.  Whether a later path displaces an equal one settles the
ties: it decides which end of the numbers they go to.  So each strategy has an order of its own in
which no two paths are equal, and the path it keeps to the end is the least of the candidates.

* `champion_eq_some_iff`: the champion is the candidate with the least key, if displacing compares
  keys.
* `IsNext`, `IsFastest`: the best candidate of round robin and of the lowest round-trip time.
* `roundRobin_isChoice`, `select_lowestRtt`: these are what the strategies select.
* `select_suspect_iff`: when a path that is suspected to have failed is selected.
-/

namespace Multipath

/-! ### Champions by their keys -/

section Keys

variable {α κ : Type} [LinearOrder κ] {displaces : α → α → Bool} {l : List α} {a : α}

/-- If displacing compares keys, and no two candidates share one, then the champion is the
candidate with the least. -/
theorem champion_eq_some_iff (key : α → κ)
    (hl : l.Pairwise fun a b => displaces b a = true ↔ key b < key a)
    (hinj : ∀ a ∈ l, ∀ b ∈ l, key a = key b → a = b) :
    champion displaces l = some a ↔ a ∈ l ∧ ∀ b ∈ l, key a ≤ key b := by
  have hleast : ∀ {b}, champion displaces l = some b → b ∈ l ∧ ∀ c ∈ l, key b ≤ key c := by
    intro b h
    refine ⟨champion_mem h, champion_le_of_pairwise (fun a b => key a ≤ key b) (fun _ => le_rfl)
      le_trans (hl.imp fun hkey => ⟨fun h => (hkey.mp h).le, fun h => ?_⟩) h⟩
    exact not_lt.mp fun hlt => absurd (hkey.mpr hlt) (by simp [h])
  refine ⟨hleast, fun ⟨ha, hle⟩ => ?_⟩
  cases hchampion : champion displaces l with
  | none => exact absurd (champion_eq_none.mp hchampion) (List.ne_nil_of_mem ha)
  | some b =>
      obtain ⟨hb, hb'⟩ := hleast hchampion
      exact congrArg some (hinj b hb a ha (le_antisymm (hb' a ha) (hle b hb)))

end Keys

/-! ### Candidates -/

namespace PathSet

variable {s : PathSet} {p q : Path} {retransmission : Bool}

/-- The candidates for a packet: the additional paths that are not suspected to have failed, and
may send unless the packet is sent again. -/
def eligible (s : PathSet) (retransmission : Bool) : List Path :=
  s.toList.filter (·.isEligible retransmission)

theorem mem_eligible : p ∈ s.eligible retransmission ↔
    p ∈ s.additional ∧ p.suspect = false ∧ (retransmission = true ∨ p.sendingAllowed = true) := by
  rw [mem_additional, eligible, List.mem_filter]
  simp only [Path.isEligible, Path.serves, Bool.and_eq_true, Bool.not_eq_true', Bool.or_eq_true,
    and_assoc]
  exact Iff.rfl

theorem mem_of_mem_eligible (h : p ∈ s.eligible retransmission) : p ∈ s :=
  (mem_additional.mp (mem_eligible.mp h).1).1

theorem lt_iff_number_lt : p.id < q.id ↔ p.id.number.toNat < q.id.number.toNat :=
  UInt8.lt_iff_toNat_lt

theorem id_eq_of_number (h : p.id.number.toNat = q.id.number.toNat) : p.id = q.id := by
  have hnumber : p.id.number = q.id.number := UInt8.toNat_inj.mp h
  calc p.id = ⟨q.id.number⟩ := congrArg PathId.mk hnumber
    _ = q.id := rfl

theorem pairwise_eligible : (s.eligible retransmission).Pairwise (·.id < ·.id) :=
  s.ascending.filter _

/-- The first path with a property is the one with the lowest number. -/
theorem find?_eq_some_iff {f : Path → Bool} : s.toList.find? f = some p ↔
    p ∈ s ∧ f p = true ∧ ∀ q ∈ s, f q = true → ¬ q.id < p.id := by
  have hlowest : ∀ {p}, s.toList.find? f = some p →
      p ∈ s ∧ f p = true ∧ ∀ q ∈ s, f q = true → ¬ q.id < p.id := by
    intro p h
    obtain ⟨hp, before, after, hsplit, hbefore⟩ := List.find?_eq_some_iff_append.mp h
    refine ⟨List.mem_of_find?_eq_some h, hp, fun q hq hfq hlt => ?_⟩
    have hpair := s.ascending
    rw [hsplit, List.pairwise_append, List.pairwise_cons] at hpair
    have hq : q ∈ before ++ p :: after := hsplit ▸ hq
    rcases List.mem_append.mp hq with hq | hq
    · exact absurd hfq (by simpa using hbefore q hq)
    · rcases List.mem_cons.mp hq with rfl | hq
      · exact UInt8.lt_irrefl _ hlt
      · exact UInt8.lt_irrefl _ (lt_trans hlt (hpair.2.1.1 q hq))
  refine ⟨hlowest, fun ⟨hp, hfp, hleast⟩ => ?_⟩
  cases hfind : s.toList.find? f with
  | none => exact absurd hfp (List.find?_eq_none.mp hfind p hp)
  | some q =>
      obtain ⟨hq, hfq, hqleast⟩ := hlowest hfind
      have hid : q.id = p.id := by
        by_contra hne
        exact hqleast p hp hfp (lt_of_not_lt_of_ne (hleast q hq hfq) hne)
      exact congrArg some (eq_of_id_eq hq hp hid)

end PathSet

/-- The choice falls on the best candidate; there is none only without candidates. -/
structure IsChoice (candidates : List Path) (Best : Path → Prop) (choice : Option PathId) :
    Prop where
  none_iff : choice = none ↔ candidates = []
  some_iff : ∀ id, choice = some id ↔ ∃ p, Best p ∧ p.id = id

/-- A champion by keys is a choice. -/
theorem isChoice_champion {κ : Type} [LinearOrder κ] (key : Path → κ)
    {displaces : Path → Path → Bool} {candidates : List Path} {Best : Path → Prop}
    (hl : candidates.Pairwise fun p q => displaces q p = true ↔ key q < key p)
    (hinj : ∀ p ∈ candidates, ∀ q ∈ candidates, key p = key q → p = q)
    (hbest : ∀ p, Best p ↔ p ∈ candidates ∧ ∀ q ∈ candidates, key p ≤ key q) :
    IsChoice candidates Best ((champion displaces candidates).map (·.id)) where
  none_iff := by rw [Option.map_eq_none_iff, champion_eq_none]
  some_iff id := by
    simp only [Option.map_eq_some_iff, champion_eq_some_iff key hl hinj, hbest]

namespace Scheduler

variable {s : Scheduler} {paths : PathSet} {demand : Demand} {now : Instant} {p q : Path}
  {quota : PathId → Nat} {candidates : List Path}

/-! ### Round robin -/

/-- Of all candidates, `p` has carried the fewest packets, and of several its number is the
lowest. -/
structure IsNext (quota : PathId → Nat) (candidates : List Path) (p : Path) : Prop where
  mem : p ∈ candidates
  least : ∀ q ∈ candidates, quota p.id ≤ quota q.id ∧ (quota p.id = quota q.id → ¬ q.id < p.id)

/-- What round robin compares: the quota, and then the number. -/
def turnKey (quota : PathId → Nat) (p : Path) : ℕ ×ₗ ℕ := toLex (quota p.id, p.id.number.toNat)

theorem turnKey_le : turnKey quota p ≤ turnKey quota q ↔
    quota p.id ≤ quota q.id ∧ (quota p.id = quota q.id → ¬ q.id < p.id) := by
  rw [turnKey, turnKey, Prod.Lex.toLex_le_toLex, PathSet.lt_iff_number_lt]
  simp only
  omega

theorem turnKey_lt (h : p.id < q.id) :
    turnKey quota q < turnKey quota p ↔ quota q.id < quota p.id := by
  rw [turnKey, turnKey, Prod.Lex.toLex_lt_toLex]
  rw [PathSet.lt_iff_number_lt] at h
  simp only
  omega

/-- **Round robin selects the next candidate** among those whose quota is below the ceiling. -/
theorem roundRobin_isChoice (s : Scheduler) (paths : PathSet) (retransmission : Bool) :
    let candidates := (paths.eligible retransmission).filter (s.quota ·.id < quotaCeiling)
    IsChoice candidates (IsNext s.quota candidates) (s.roundRobin paths retransmission) := by
  intro candidates
  have hcandidates : (paths.toList.filter fun p =>
      p.isEligible retransmission && s.quota p.id < quotaCeiling) = candidates := by
    simp only [candidates, PathSet.eligible, List.filter_filter, Bool.and_comm]
  have hmem : ∀ p ∈ candidates, p ∈ paths := fun p hp =>
    PathSet.mem_of_mem_eligible (List.mem_filter.mp hp).1
  rw [roundRobin, hcandidates]
  refine isChoice_champion (turnKey s.quota) ?_ (fun p hp q hq hkey => ?_) fun p => ?_
  · refine (PathSet.pairwise_eligible.filter _).imp fun hlt => ?_
    rw [turnKey_lt hlt, decide_eq_true_iff]
  · have hnumber := congrArg (fun key => (ofLex key).2) hkey
    exact PathSet.eq_of_id_eq (hmem p hp) (hmem q hq) (PathSet.id_eq_of_number hnumber)
  · simp only [turnKey_le]
    exact ⟨fun h => ⟨h.mem, h.least⟩, fun h => ⟨h.1, h.2⟩⟩

/-! ### The lowest round-trip time -/

/-- The fastest candidate.  If any is measured, it has the lowest round-trip time of those that
are, and of several the lowest number; otherwise it has carried the fewest packets, and of several
its number is the highest. -/
inductive IsFastest (quota : PathId → Nat) (candidates : List Path) (p : Path) : Prop
  | measured : p ∈ candidates → p.isMeasured = true →
      (∀ q ∈ candidates, q.isMeasured = true →
        p.rtt ≤ q.rtt ∧ (p.rtt = q.rtt → ¬ q.id < p.id)) →
      IsFastest quota candidates p
  | unmeasured : p ∈ candidates → (∀ q ∈ candidates, q.isMeasured = false) →
      (∀ q ∈ candidates,
        quota p.id ≤ quota q.id ∧ (quota p.id = quota q.id → ¬ p.id < q.id)) →
      IsFastest quota candidates p

/-- What the lowest round-trip time compares: measured paths come first, with the round-trip time
and then the number; for the others it is the quota, and then the number from above. -/
def speedKey (quota : PathId → Nat) (p : Path) : ℕ ×ₗ ℕ ×ₗ ℤ :=
  if p.isMeasured then toLex (0, toLex (p.rtt.nanos, (p.id.number.toNat : ℤ)))
  else toLex (1, toLex (quota p.id, -(p.id.number.toNat : ℤ)))

theorem speedKey_le_of_measured (hp : p.isMeasured = true) :
    speedKey quota p ≤ speedKey quota q ↔
      (q.isMeasured = true → p.rtt ≤ q.rtt ∧ (p.rtt = q.rtt → ¬ q.id < p.id)) := by
  have hle : p.rtt ≤ q.rtt ↔ p.rtt.nanos ≤ q.rtt.nanos := Iff.rfl
  have heq : p.rtt = q.rtt ↔ p.rtt.nanos = q.rtt.nanos :=
    ⟨congrArg Duration.nanos, fun h => congrArg Duration.mk h⟩
  rw [hle, heq, PathSet.lt_iff_number_lt]
  unfold speedKey
  cases hq : q.isMeasured with
  | true =>
      simp only [hp, if_true, Prod.Lex.toLex_le_toLex, true_imp_iff, true_and]
      omega
  | false => simp [hp, Prod.Lex.toLex_le_toLex]

theorem speedKey_le_of_unmeasured (hp : p.isMeasured = false) :
    speedKey quota p ≤ speedKey quota q ↔ q.isMeasured = false ∧
      quota p.id ≤ quota q.id ∧ (quota p.id = quota q.id → ¬ p.id < q.id) := by
  rw [PathSet.lt_iff_number_lt]
  unfold speedKey
  cases hq : q.isMeasured with
  | true => simp [hp, Prod.Lex.toLex_le_toLex]
  | false =>
      simp only [hp, Bool.false_eq_true, if_false, Prod.Lex.toLex_le_toLex, true_and]
      omega

theorem isFastest_iff : IsFastest quota candidates p ↔
    p ∈ candidates ∧ ∀ q ∈ candidates, speedKey quota p ≤ speedKey quota q := by
  cases hp : p.isMeasured with
  | true =>
      simp only [speedKey_le_of_measured hp]
      refine ⟨fun h => ?_, fun ⟨hmem, hle⟩ => .measured hmem hp hle⟩
      cases h with
      | measured hmem _ hle => exact ⟨hmem, hle⟩
      | unmeasured hmem hnone _ => exact absurd hp (by simp [hnone p hmem])
  | false =>
      simp only [speedKey_le_of_unmeasured hp]
      refine ⟨fun h => ?_, fun ⟨hmem, hle⟩ => ?_⟩
      · cases h with
        | measured _ hmeasured _ => exact absurd hmeasured (by simp [hp])
        | unmeasured hmem hnone hle => exact ⟨hmem, fun q hq => ⟨hnone q hq, hle q hq⟩⟩
      · exact .unmeasured hmem (fun q hq => (hle q hq).1) fun q hq => (hle q hq).2

/-- A later path displaces an earlier one if its key is lower. -/
theorem isFaster_iff (h : p.id < q.id) :
    s.isFaster q p = true ↔ speedKey s.quota q < speedKey s.quota p := by
  have hnumber := PathSet.lt_iff_number_lt.mp h
  have hrtt : q.rtt < p.rtt ↔ q.rtt.nanos < p.rtt.nanos := Iff.rfl
  unfold isFaster speedKey
  cases hp : p.isMeasured <;> cases hq : q.isMeasured
  case false.true => simp [Prod.Lex.toLex_lt_toLex]
  case true.false => simp [Prod.Lex.toLex_lt_toLex]
  case true.true =>
    simp only [if_true, Prod.Lex.toLex_lt_toLex, Bool.not_true, Bool.false_or, decide_eq_true_iff,
      hrtt, true_and]
    omega
  case false.false =>
    simp only [Bool.false_eq_true, if_false, Prod.Lex.toLex_lt_toLex, Bool.not_false,
      Bool.true_and, decide_eq_true_iff, true_and]
    omega

/-- The number can be read off the key. -/
theorem natAbs_speedKey (quota : PathId → Nat) (p : Path) :
    (ofLex (ofLex (speedKey quota p)).2).2.natAbs = p.id.number.toNat := by
  unfold speedKey
  split
  · exact Int.natAbs_natCast _
  · exact (Int.natAbs_neg _).trans (Int.natAbs_natCast _)

/-- Without a relief, the fastest candidate is what the lowest round-trip time finds. -/
theorem isChoice_isFaster (s : Scheduler) (paths : PathSet) (retransmission : Bool) :
    IsChoice (paths.eligible retransmission) (IsFastest s.quota (paths.eligible retransmission))
      ((champion s.isFaster (paths.eligible retransmission)).map (·.id)) := by
  refine isChoice_champion (speedKey s.quota)
    (PathSet.pairwise_eligible.imp fun hlt => isFaster_iff hlt)
    (fun p hp q hq hkey => ?_) fun p => isFastest_iff
  have hnumber := (natAbs_speedKey s.quota p).symm.trans (hkey ▸ natAbs_speedKey s.quota q)
  exact PathSet.eq_of_id_eq (PathSet.mem_of_mem_eligible hp) (PathSet.mem_of_mem_eligible hq)
    (PathSet.id_eq_of_number hnumber)

/-! ### Returned pieces of streams -/

/-- The packet carries a piece of a stream that was taken back from `origin`, an unmeasured path. -/
structure Returns (demand : Demand) (origin : Path) : Prop where
  retransmission : demand.retransmission = true
  stream : demand.stream = true
  from_origin : demand.origin = some origin
  unmeasured : origin.isMeasured = false

/-- A piece of a stream comes back from an unmeasured path, and `p` is another additional path,
which has carried fewer packets. -/
structure Relieves (s : Scheduler) (paths : PathSet) (demand : Demand) (p : Path) : Prop where
  mem : p ∈ paths.additional
  origin : ∃ origin, Returns demand origin ∧ p.id ≠ origin.id ∧ s.quota p.id < s.quota origin.id

/-- Some path relieves the unmeasured one. -/
def Spreads (s : Scheduler) (paths : PathSet) (demand : Demand) : Prop :=
  ∃ p, s.Relieves paths demand p

theorem spread_of_returns {origin : Path} (h : Returns demand origin) :
    s.spread paths demand = (paths.toList.find? fun p =>
      !p.isInitial && p.id != origin.id && s.quota p.id < s.quota origin.id).map (·.id) := by
  simp [spread, h.retransmission, h.stream, h.from_origin, h.unmeasured]

theorem relieves_iff {origin : Path} (h : Returns demand origin) : s.Relieves paths demand p ↔
    p ∈ paths ∧ (!p.isInitial && p.id != origin.id && s.quota p.id < s.quota origin.id) = true := by
  simp only [Bool.and_eq_true, Bool.not_eq_true', bne_iff_ne, decide_eq_true_iff]
  constructor
  · rintro ⟨hmem, origin', hreturns, hne, hlt⟩
    cases h.from_origin.symm.trans hreturns.from_origin
    obtain ⟨hp, hinitial⟩ := PathSet.mem_additional.mp hmem
    exact ⟨hp, ⟨hinitial, hne⟩, hlt⟩
  · rintro ⟨hp, ⟨hinitial, hne⟩, hlt⟩
    exact ⟨PathSet.mem_additional.mpr ⟨hp, hinitial⟩, origin, h, hne, hlt⟩

theorem spread_of_not_returns (h : ∀ origin, ¬ Returns demand origin) :
    s.spread paths demand = none := by
  unfold spread
  split
  · split
    · rename_i hflags _ origin horigin
      obtain ⟨hre, hstream⟩ := Bool.and_eq_true_iff.mp hflags
      split
      · rfl
      · exact absurd ⟨hre, hstream, horigin, eq_false_of_ne_true ‹_›⟩ (h origin)
    · rfl
  · rfl

/-- The search for a relief looks at nothing else. -/
theorem exists_spread_eq_find? (s : Scheduler) (paths : PathSet) (demand : Demand) :
    ∃ f, s.spread paths demand = (paths.toList.find? f).map (·.id) ∧
      ∀ p, s.Relieves paths demand p ↔ p ∈ paths ∧ f p = true := by
  by_cases h : ∃ origin, Returns demand origin
  · obtain ⟨origin, h⟩ := h
    exact ⟨_, spread_of_returns h, fun p => relieves_iff h⟩
  · have hnot := not_exists.mp h
    refine ⟨fun _ => false, ?_, fun p => ⟨fun hp => ?_, fun hp => by simp at hp⟩⟩
    · rw [spread_of_not_returns hnot, List.find?_eq_none.mpr fun _ _ => Bool.false_ne_true]
      rfl
    · obtain ⟨origin, hreturns, -⟩ := hp.origin
      exact absurd hreturns (hnot origin)

/-- A returned piece of a stream goes to the lowest path that relieves the unmeasured one, whether
that path is suspected to have failed or not. -/
theorem spread_eq_some_iff {id : PathId} : s.spread paths demand = some id ↔
    ∃ p, s.Relieves paths demand p ∧ (∀ q, s.Relieves paths demand q → ¬ q.id < p.id) ∧
      p.id = id := by
  obtain ⟨f, hspread, hrelieves⟩ := exists_spread_eq_find? s paths demand
  simp only [hspread, hrelieves, Option.map_eq_some_iff, PathSet.find?_eq_some_iff, and_assoc,
    and_imp]

theorem spread_eq_none_iff_not_spreads :
    s.spread paths demand = none ↔ ¬ s.Spreads paths demand := by
  obtain ⟨f, hspread, hrelieves⟩ := exists_spread_eq_find? s paths demand
  simp only [Spreads, hspread, hrelieves, Option.map_eq_none_iff, List.find?_eq_none, not_exists,
    not_and]
  exact Iff.rfl

/-! ### Selections -/

theorem select_of_lowestRtt (hseveral : 2 ≤ paths.size)
    (hstrategy : s.config.strategy = .lowestRtt) :
    s.select paths demand now = (.ok (s.lowestRtt paths demand), s) := by
  rw [select, if_neg (by omega), hstrategy]

theorem select_of_roundRobin (hseveral : 2 ≤ paths.size)
    (hstrategy : s.config.strategy = .roundRobin) :
    s.select paths demand now = (.ok (s.roundRobin paths demand.retransmission), s) := by
  rw [select, if_neg (by omega), hstrategy]

/-- **The lowest round-trip time selects the fastest candidate**, and none only without
candidates, unless a returned piece of a stream leaves its unmeasured path.  The quotas stay as
they are. -/
theorem select_lowestRtt (now : Instant) (hseveral : 2 ≤ paths.size)
    (hstrategy : s.config.strategy = .lowestRtt) (hstays : ¬ s.Spreads paths demand) :
    (∃ choice, (s.select paths demand now).1 = .ok choice ∧
      IsChoice (paths.eligible demand.retransmission)
        (IsFastest s.quota (paths.eligible demand.retransmission)) choice) ∧
      ∀ id, (s.select paths demand now).2.quota id = s.quota id := by
  rw [select_of_lowestRtt hseveral hstrategy]
  refine ⟨⟨_, rfl, ?_⟩, fun id => rfl⟩
  rw [lowestRtt, spread_eq_none_iff_not_spreads.mpr hstays]
  exact isChoice_isFaster s paths demand.retransmission

/-- A scheduler with this strategy on which nothing has happened yet. -/
def following (strategy : Strategy) : Scheduler :=
  .new { strategy } {} ⟨1⟩ ⟨0⟩ none default default

/-- Of three additional paths, the first is unmeasured and the others are equally fast. -/
def twoFast : PathSet :=
  (((PathSet.empty.insert (.new .initial {} default)).insert (.new .primary {} default)).insert
    (.new ⟨2⟩ { rtt := .ofMillis 20 } default)).insert (.new ⟨3⟩ { rtt := .ofMillis 20 } default)

/-- Of two paths that are equally fast, the lower one is selected, though it has carried more. -/
theorem select_twoFast :
    (((following .lowestRtt).setQuota ⟨2⟩ 9).select twoFast {} ⟨0⟩).1 = .ok (some ⟨2⟩) := by
  have hstays : ¬ ((following .lowestRtt).setQuota ⟨2⟩ 9).Spreads twoFast {} := by
    rintro ⟨p, -, origin, hreturns, -⟩
    exact absurd hreturns.retransmission (by decide)
  obtain ⟨⟨choice, hselect, hchoice⟩, -⟩ := select_lowestRtt ⟨0⟩ (by decide) rfl hstays
  have hmem : Path.new ⟨2⟩ { rtt := .ofMillis 20 } default ∈ twoFast.eligible false :=
    List.mem_cons_of_mem _ List.mem_cons_self
  rw [hselect, (hchoice.some_iff ⟨2⟩).mpr ⟨_, .measured hmem rfl (by decide), rfl⟩]

/-- Where no additional path may send, neither strategy finds one for a fresh packet. -/
theorem select_none_of_blocked (hseveral : 2 ≤ paths.size)
    (hstrategy : s.config.strategy = .roundRobin ∨ s.config.strategy = .lowestRtt)
    (hblocked : ∀ p ∈ paths.additional, p.sendingAllowed = false)
    (hfresh : demand.retransmission = false) : s.select paths demand now = (.ok none, s) := by
  have hnil : paths.eligible false = [] := List.eq_nil_iff_forall_not_mem.mpr fun p hp => by
    obtain ⟨hmem, -, hserves⟩ := PathSet.mem_eligible.mp hp
    simp [hblocked p hmem] at hserves
  rcases hstrategy with hstrategy | hstrategy
  · rw [select_of_roundRobin hseveral hstrategy, hfresh,
      (roundRobin_isChoice s paths false).none_iff.mpr (by rw [hnil, List.filter_nil])]
  · have hstays : s.spread paths demand = none := by simp [spread, hfresh]
    rw [select_of_lowestRtt hseveral hstrategy, lowestRtt, hstays, hfresh]
    exact congrArg (Except.ok · , s) ((isChoice_isFaster s paths false).none_iff.mpr hnil)

/-! ### What a selection reads -/

/-- Round robin reads of the paths what they show. -/
theorem roundRobin_congr {s' : Scheduler} {paths' : PathSet} (hquota : s'.quota = s.quota)
    (hfaces : paths'.faces = paths.faces) (retransmission : Bool) :
    s'.roundRobin paths' retransmission = s.roundRobin paths retransmission := by
  have hread : ∀ (s : Scheduler) (paths : PathSet), s.roundRobin paths retransmission =
      (champion (fun f best : Face => s.quota f.id < s.quota best.id) (paths.faces.filter fun f =>
        (!f.isInitial && !f.suspect && (retransmission || f.telemetry.sendingAllowed)) &&
          s.quota f.id < quotaCeiling)).map (·.id) := by
    intro s paths
    rw [PathSet.faces, List.filter_map, champion_map, Option.map_map]
    rfl
  simp only [hread, hfaces, hquota]

/-- So does the lowest round-trip time, unless a piece of a stream is sent again. -/
theorem lowestRtt_congr {s' : Scheduler} {paths' : PathSet} {demand' : Demand}
    (hquota : s'.quota = s.quota) (hfaces : paths'.faces = paths.faces)
    (hre : demand'.retransmission = demand.retransmission) (hstream : demand.stream = false)
    (hstream' : demand'.stream = false) :
    s'.lowestRtt paths' demand' = s.lowestRtt paths demand := by
  have hread : ∀ (s : Scheduler) (paths : PathSet) (demand : Demand), demand.stream = false →
      s.lowestRtt paths demand = (champion (fun f best : Face =>
        if f.isMeasured then !best.isMeasured || f.telemetry.rtt < best.telemetry.rtt
        else !best.isMeasured && s.quota f.id ≤ s.quota best.id) (paths.faces.filter fun f =>
        !f.isInitial && !f.suspect &&
          (demand.retransmission || f.telemetry.sendingAllowed))).map (·.id) := by
    intro s paths demand hstream
    have hspread : s.spread paths demand = none := by simp [spread, hstream]
    rw [lowestRtt, hspread, PathSet.faces, List.filter_map, champion_map, Option.map_map]
    rfl
  rw [hread s' paths' demand' hstream', hread s paths demand hstream, hfaces, hquota, hre]

/-- Unless a piece of a stream is sent again, the selection of either strategy depends on nothing
but the quotas, what the paths show, and whether a packet was taken back. -/
theorem exists_select (hseveral : 2 ≤ paths.size)
    (hstrategy : s.config.strategy = .roundRobin ∨ s.config.strategy = .lowestRtt)
    (retransmission : Bool) : ∃ choice, ∀ {s' : Scheduler} {paths' : PathSet} {demand now},
      s'.config = s.config → s'.quota = s.quota → paths'.faces = paths.faces →
      demand.retransmission = retransmission → demand.stream = false →
      s'.select paths' demand now = (.ok choice, s') := by
  have hsize : ∀ {paths' : PathSet}, paths'.faces = paths.faces → 2 ≤ paths'.size := by
    intro paths' hfaces
    have hlength := congrArg List.length hfaces
    simp only [PathSet.faces, List.length_map] at hlength
    exact hseveral.trans_eq hlength.symm
  rcases hstrategy with hstrategy | hstrategy
  · refine ⟨s.roundRobin paths retransmission, fun hconfig hquota hfaces hre hstream => ?_⟩
    rw [select_of_roundRobin (hsize hfaces) (hconfig ▸ hstrategy), hre,
      roundRobin_congr hquota hfaces]
  · refine ⟨s.lowestRtt paths { retransmission }, fun hconfig hquota hfaces hre hstream => ?_⟩
    have hsame := @lowestRtt_congr s paths { retransmission } _ _ _ hquota hfaces hre rfl hstream
    rw [select_of_lowestRtt (hsize hfaces) (hconfig ▸ hstrategy), hsame]

/-! ### Suspected paths -/

/-- **A path that is suspected to have failed is selected** by round robin and by the lowest
round-trip time in one case only: a returned piece of a stream leaves its unmeasured path, and the
suspected one is the lowest path that has carried fewer packets.  That search asks neither whether
a path has failed nor whether it may send. -/
theorem select_suspect_iff (hseveral : 2 ≤ paths.size)
    (hstrategy : s.config.strategy = .roundRobin ∨ s.config.strategy = .lowestRtt)
    (hp : p ∈ paths) (hsuspect : p.suspect = true) :
    (s.select paths demand now).1 = .ok (some p.id) ↔
      s.config.strategy = .lowestRtt ∧ s.Relieves paths demand p ∧
        ∀ q, s.Relieves paths demand q → ¬ q.id < p.id := by
  have hnot : ∀ {retransmission : Bool} {q : Path}, q ∈ paths.eligible retransmission →
      q.id ≠ p.id := by
    intro retransmission q hq hid
    obtain rfl := PathSet.eq_of_id_eq (PathSet.mem_of_mem_eligible hq) hp hid
    exact absurd (PathSet.mem_eligible.mp hq).2.1 (by simp [hsuspect])
  rcases hstrategy with hstrategy | hstrategy
  · rw [select_of_roundRobin hseveral hstrategy]
    simp only [hstrategy, reduceCtorEq, false_and, iff_false]
    intro hselect
    obtain ⟨q, hnext, hid⟩ := ((roundRobin_isChoice s paths demand.retransmission).some_iff
      p.id).mp (Except.ok.inj hselect)
    exact hnot (List.mem_filter.mp hnext.mem).1 hid
  · rw [select_of_lowestRtt hseveral hstrategy]
    simp only [hstrategy, true_and, Except.ok.injEq]
    have hspread : s.spread paths demand = some p.id ↔ s.Relieves paths demand p ∧
        ∀ q, s.Relieves paths demand q → ¬ q.id < p.id := by
      rw [spread_eq_some_iff]
      refine ⟨fun ⟨q, hq, hleast, hid⟩ => ?_, fun ⟨h, hleast⟩ => ⟨p, h, hleast, rfl⟩⟩
      obtain rfl := PathSet.eq_of_id_eq (PathSet.mem_additional.mp hq.mem).1 hp hid
      exact ⟨hq, hleast⟩
    rw [← hspread, lowestRtt]
    cases s.spread paths demand with
    | some id => exact Iff.rfl
    | none =>
        simp only [reduceCtorEq, iff_false]
        intro hselect
        obtain ⟨q, hfastest, hid⟩ := ((isChoice_isFaster s paths demand.retransmission).some_iff
          p.id).mp hselect
        exact hnot (isFastest_iff.mp hfastest).1 hid

/-- Of two unmeasured additional paths, the second is suspected to have failed. -/
def secondSuspect : PathSet :=
  ((PathSet.empty.insert (.new .initial {} default)).insert (.new .primary {} default)).insert
    ((Path.new ⟨2⟩ {} default).setSuspect true)

/-- A piece of a stream that comes back from the first additional path. -/
def returnedPiece : Demand :=
  { retransmission := true, stream := true, origin := some (.new .primary {} default) }

/-- Once the first path has carried a packet, the second gets the piece that comes back from it. -/
theorem select_secondSuspect :
    (((following .lowestRtt).bumpQuota .primary).select secondSuspect returnedPiece ⟨0⟩).1 =
      .ok (some ⟨2⟩) := by
  have hmem : (Path.new ⟨2⟩ {} default).setSuspect true ∈ secondSuspect :=
    List.mem_cons_of_mem _ (List.mem_cons_of_mem _ List.mem_cons_self)
  refine (select_suspect_iff (by decide) (.inr rfl) hmem rfl).mpr ⟨rfl, ⟨?_, ?_⟩, ?_⟩
  · exact List.mem_cons_of_mem _ List.mem_cons_self
  · exact ⟨_, ⟨rfl, rfl, rfl, rfl⟩, by decide, by decide⟩
  · -- the only other additional path is the one the piece comes back from
    intro q hq hlt
    obtain ⟨origin, hreturns, hne, -⟩ := hq.origin
    obtain rfl := Option.some.inj hreturns.from_origin
    have hmem : ∀ q ∈ secondSuspect.additional, q.id < ⟨2⟩ → q.id = .primary := by decide
    exact hne (hmem q hq.mem hlt)

/-- **Suspected paths are not left alone.**  The search for a path that relieves another one finds
a path that is suspected to have failed. -/
theorem suspect_path_selected :
    ¬ ∀ (s : Scheduler) (paths : PathSet) (demand : Demand) (now : Instant), 2 ≤ paths.size →
      s.config.strategy = .roundRobin ∨ s.config.strategy = .lowestRtt →
      ∀ p ∈ paths, p.suspect = true → (s.select paths demand now).1 ≠ .ok (some p.id) := by
  intro hnever
  have hmem : (Path.new ⟨2⟩ {} default).setSuspect true ∈ secondSuspect :=
    List.mem_cons_of_mem _ (List.mem_cons_of_mem _ List.mem_cons_self)
  exact hnever ((following .lowestRtt).bumpQuota .primary) secondSuspect returnedPiece ⟨0⟩
    (by decide) (.inr rfl) _ hmem rfl rfl

end Scheduler

end Multipath
