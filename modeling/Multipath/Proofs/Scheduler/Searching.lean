import Multipath.Proofs.Scheduler.Choices

/-!
# Searching for the fastest path

The fastest path is found in one pass over the paths, which keeps the best one so far and lists
every unmeasured path it weighs in the tally of quotas.  A path is listed at zero, which is what it
counts as anyway, so the pass finds the fastest path by the quotas it began with.

* `Tally.count_register`: listing a path changes no count.
* `Search.Keeps`, `Search.keeps_step`: after a part of the paths, the search has the champion of
  this part, and the quotas count what they did.
* `Scheduler.seek_eq`: the search finds the fastest path and leaves all else as it is.
-/

namespace Multipath

/-! ### Tallies -/

namespace Tally

/-- Lists a path, at zero unless it is listed already. -/
def register (t : Tally) (id : PathId) : Tally :=
  if t.entries.any (·.1 == id) then t else t.set id 0

/-- Listing a path changes no count. -/
theorem count_register (t : Tally) (id other : PathId) :
    (t.register id).count other = t.count other := by
  unfold register
  split
  · rfl
  · next hnew =>
    rw [count_set]
    split
    · next heq =>
      have hnone : t.entries.find? (·.1 == id) = none :=
        List.find?_eq_none.mpr fun e he hid => hnew (List.any_eq_true.mpr ⟨e, he, hid⟩)
      rw [heq, count, hnone]
    · rfl

end Tally

/-! ### Champions -/

theorem champion_concat {α : Type} (displaces : α → α → Bool) (l : List α) (a : α) :
    champion displaces (l ++ [a]) =
      match champion displaces l with
      | none => some a
      | some best => some (if displaces a best then a else best) := by
  cases l with
  | nil => rfl
  | cons b rest => simp [champion, List.foldl_append]

/-! ### One pass -/

/-- A search for the fastest path. -/
structure Search where
  /-- The best path so far. -/
  best : Option Path
  /-- Its round-trip time; zero without one. -/
  rtt : Duration
  quotas : Tally

namespace Search

/-- Whether the best path so far has carried fewer packets than this one. -/
def isBusier (st : Search) (p : Path) : Bool :=
  match st.best with
  | some best => st.quotas.count best.id < st.quotas.count p.id
  | none => false

/-- Weighs one more path. -/
def step (retransmission : Bool) (st : Search) (p : Path) : Search :=
  if !retransmission && !p.sendingAllowed then st
  else if p.suspect || p.isInitial then st
  else if !st.rtt.isZero && p.rtt.isZero then st
  else
    let st := if p.rtt.isZero then { st with quotas := st.quotas.register p.id } else st
    if p.rtt.isZero && st.isBusier p then st
    else if !p.rtt.isZero && !st.rtt.isZero && st.best.isSome && st.rtt ≤ p.rtt then st
    else { st with best := some p, rtt := p.rtt }

/-- The search has found the fastest of these paths, and no count has changed. -/
structure Keeps (s : Scheduler) (l : List Path) (st : Search) : Prop where
  best : st.best = champion s.isFaster l
  rtt : st.rtt = (st.best.map Path.rtt).getD .zero
  count : ∀ id, st.quotas.count id = s.quota id

variable {s : Scheduler} {l : List Path} {st : Search} {p : Path} {retransmission : Bool}

theorem Keeps.register (h : Keeps s l st) (id : PathId) :
    Keeps s l { st with quotas := st.quotas.register id } where
  best := h.best
  rtt := h.rtt
  count other := (Tally.count_register _ _ _).trans (h.count other)

/-- The best path stays, if the new one does not displace it. -/
theorem Keeps.stay (h : Keeps s l st) {best : Path} (hbest : st.best = some best)
    (hslower : s.isFaster p best = false) : Keeps s (l ++ [p]) st where
  best := by
    rw [champion_concat, ← h.best, hbest]
    simp [hslower]
  rtt := h.rtt
  count := h.count

/-- The new path is the best one, if it displaces all before it. -/
theorem Keeps.displace (h : Keeps s l st)
    (hfaster : ∀ best, st.best = some best → s.isFaster p best = true) :
    Keeps s (l ++ [p]) { st with best := some p, rtt := p.rtt } where
  best := by
    rw [champion_concat, ← h.best]
    cases hbest : st.best with
    | none => rfl
    | some best => simp [hfaster best hbest]
  rtt := rfl
  count := h.count

theorem isZero_rtt (p : Path) : p.rtt.isZero = !p.isMeasured := by
  simp [Path.rtt, Path.isMeasured, Telemetry.isMeasured]

/-- A path that does not come into question is passed over. -/
theorem step_of_not_eligible (h : p.isEligible retransmission = false) :
    st.step retransmission p = st := by
  unfold step
  split
  · rfl
  · next hserves =>
    refine if_pos ?_
    cases hsuspect : p.suspect <;> cases hinitial : p.isInitial <;> cases retransmission <;>
      simp_all [Path.isEligible, Path.serves]

/-- Any other is weighed against the best one so far. -/
theorem keeps_step (h : Keeps s l st) (heligible : p.isEligible retransmission = true) :
    Keeps s (l ++ [p]) (st.step retransmission p) := by
  have hserves : (!retransmission && !p.sendingAllowed) = false := by
    cases retransmission <;> simp_all [Path.isEligible, Path.serves]
  have hsound : (p.suspect || p.isInitial) = false := by
    simp_all [Path.isEligible]
  have hrtt := h.rtt
  have hregistered := h.register p.id
  unfold step
  simp only [hserves, hsound, isZero_rtt, Bool.false_eq_true, if_false, Bool.not_not]
  cases hbest : st.best with
  | none =>
    rw [hbest] at hrtt
    have hzero : st.rtt.isZero = true := by
      rw [hrtt]
      rfl
    cases hp : p.isMeasured with
    | true => simpa [hzero] using h.displace (by simp [hbest])
    | false => simpa [hzero, isBusier, hbest] using hregistered.displace (by simp [hbest])
  | some best =>
    rw [hbest] at hrtt
    have hzero : st.rtt.isZero = !best.isMeasured := by
      rw [hrtt]
      exact isZero_rtt best
    have hsame : st.rtt = best.rtt := hrtt
    cases hp : p.isMeasured with
    | true =>
      cases hb : best.isMeasured with
      | true =>
        by_cases hle : best.rtt ≤ p.rtt
        · have hslower : s.isFaster p best = false := by
            have hlt : ¬ p.rtt < best.rtt := Nat.not_lt.mpr hle
            simp [Scheduler.isFaster, hp, hb, hlt]
          simpa [hsame, isZero_rtt, hb, hbest, hle] using h.stay hbest hslower
        · have hlt : p.rtt < best.rtt := Nat.not_le.mp hle
          simpa [hsame, isZero_rtt, hb, hbest, hle] using
            h.displace (by simp [hbest, Scheduler.isFaster, hp, hlt])
      | false =>
        simpa [hzero, hb, hbest] using h.displace (by simp [hbest, Scheduler.isFaster, hp, hb])
    | false =>
      cases hb : best.isMeasured with
      | true =>
        simpa [hzero, hb] using h.stay hbest (by simp [Scheduler.isFaster, hp, hb])
      | false =>
        -- both are unmeasured, and the quotas decide
        have hcount := hregistered.count
        by_cases hlt : s.quota best.id < s.quota p.id
        · have hslower : s.isFaster p best = false := by
            simp [Scheduler.isFaster, hp, hb, hlt]
          simpa [hzero, hb, isBusier, hbest, hcount, hlt] using hregistered.stay hbest hslower
        · have hfaster : s.isFaster p best = true := by
            simp [Scheduler.isFaster, hp, hb, Nat.not_lt.mp hlt]
          simpa [hzero, hb, isBusier, hbest, hcount, hlt] using
            hregistered.displace (by simpa [hbest] using hfaster)

/-- The whole pass. -/
theorem keeps_foldl (retransmission : Bool) (h : Keeps s l st) (paths : List Path) :
    Keeps s (l ++ paths.filter (·.isEligible retransmission))
      (paths.foldl (step retransmission) st) := by
  induction paths generalizing l st with
  | nil => simpa using h
  | cons p rest ih =>
    rw [List.foldl_cons, List.filter_cons]
    cases heligible : p.isEligible retransmission with
    | true => simpa using ih (keeps_step h heligible)
    | false => simpa [step_of_not_eligible heligible] using ih h

end Search

namespace Scheduler

/-- The path for the next packet, found in one pass unless a returned piece of a stream is spread,
and the scheduler with the paths that were listed on the way. -/
def seek (s : Scheduler) (paths : PathSet) (demand : Demand) : Option PathId × Scheduler :=
  match s.spread paths demand with
  | some id => (some id, s)
  | none =>
    let last := paths.toList.foldl (Search.step demand.retransmission) ⟨none, .zero, s.quotas⟩
    (last.best.map (·.id), { s with quotas := last.quotas })

/-- Two schedulers are the same but for paths that are listed at zero. -/
def Agrees (s s' : Scheduler) : Prop :=
  s' = { s with quotas := s'.quotas } ∧ ∀ id, s'.quota id = s.quota id

theorem Agrees.refl (s : Scheduler) : Agrees s s := ⟨rfl, fun _ => rfl⟩

variable {s s' s'' : Scheduler} {paths : PathSet} {demand : Demand}

theorem Agrees.trans (h : Agrees s s') (h' : Agrees s' s'') : Agrees s s'' :=
  ⟨by rw [h'.1, h.1], fun id => (h'.2 id).trans (h.2 id)⟩

/-- **The search finds the fastest path, and changes nothing that counts.** -/
theorem seek_eq (s : Scheduler) (paths : PathSet) (demand : Demand) :
    (s.seek paths demand).1 = s.lowestRtt paths demand ∧ s.Agrees (s.seek paths demand).2 := by
  unfold seek lowestRtt
  cases s.spread paths demand with
  | some id => exact ⟨rfl, .refl s⟩
  | none =>
    have hstart : Search.Keeps s [] ⟨none, .zero, s.quotas⟩ := ⟨rfl, rfl, fun _ => rfl⟩
    have hlast := Search.keeps_foldl demand.retransmission hstart paths.toList
    exact ⟨congrArg (Option.map (·.id)) hlast.best, rfl, hlast.count⟩

/-- The fastest path does not hang on which paths are listed. -/
theorem lowestRtt_of_agrees (h : s.Agrees s') : s'.lowestRtt paths demand = s.lowestRtt paths demand := by
  have hfaster : s'.isFaster = s.isFaster := by
    funext p best
    simp [isFaster, h.2]
  have hspread : s'.spread paths demand = s.spread paths demand := by
    simp [spread, h.2]
  simp [lowestRtt, hfaster, hspread]

end Scheduler

end Multipath
