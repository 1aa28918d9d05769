import Mathlib.Data.Set.Card
import Multipath.Proofs.Receiver.History

/-!
# Runs of a history

A run begins with an empty history and records and forgets numbers in any order.  After every run
the blocks are separated and no more than the limit allows, and then a history answers as the set
of its members would.

* `Kept`: separated blocks, at most as many as the limit.  `kept_run`: this holds after every run.
* `record_cases`: what recording can do.  A number is there already; or it is entered, because it
  touches a member or a block is still free; or it is refused.
* `record_run`: the answers after a run, in terms of the members.
* `ranges_run`: the blocks after a run.
-/

namespace Multipath

/-- A call on a history. -/
inductive HistoryCall where
  | record (n : PacketNumber)
  | forgetUpTo (n : PacketNumber)
deriving DecidableEq, Repr

namespace History

variable {h h' : History} {l : List AckRange} {m n : PacketNumber}

/-- Makes a call.  A refused number leaves everything as it is. -/
def step (h : History) : HistoryCall → History
  | .record n =>
    match h.record n with
    | .ok (_, h') => h'
    | .error _ => h
  | .forgetUpTo n => h.forgetUpTo n

/-- A run: the calls in their order, on a history in which nothing has been recorded. -/
def run (limit : Nat) (calls : List HistoryCall) : History := calls.foldl step (empty limit)

/-- The numbers that have arrived. -/
def members (h : History) : Set PacketNumber := {n | n ∈ h}

/-- The number before `n` or the number after it is in `S`. -/
def Touches (S : PacketNumber → Prop) (n : PacketNumber) : Prop :=
  ∃ m, S m ∧ (m.val + 1 = n.val ∨ n.val + 1 = m.val)

/-! ### How many blocks there are -/

theorem touches_cons {r : AckRange} (hr : r.first.val ≤ r.last.val) (hn : ¬ r.contains n = true) :
    Touches (Covers (r :: l)) n ↔
      r.last.val + 1 = n.val ∨ n.val + 1 = r.first.val ∨ Touches (Covers l) n := by
  rw [AckRange.contains_iff] at hn
  constructor
  · rintro ⟨m, hm, htouch⟩
    rw [covers_cons] at hm
    rcases hm with hm | hm
    · omega
    · exact .inr (.inr ⟨m, hm, htouch⟩)
  · rintro (hlast | hfirst | ⟨m, hm, htouch⟩)
    · exact ⟨r.last, covers_cons.mpr (.inl ⟨hr, Nat.le_refl _⟩), .inl hlast⟩
    · exact ⟨r.first, covers_cons.mpr (.inl ⟨Nat.le_refl _, hr⟩), .inr hfirst⟩
    · exact ⟨m, covers_cons.mpr (.inr hm), htouch⟩

theorem not_touches_of_lt {b : Nat} (hb : ∀ m, Covers l m → m.val + 1 < b) (hn : b ≤ n.val) :
    ¬ Touches (Covers l) n := by
  rintro ⟨m, hm, htouch⟩
  have := hb m hm
  omega

/-- A number that touches nothing makes a block of its own. -/
theorem length_addTo_of_not_touches (hs : Separated l) (hn : ¬ Covers l n)
    (ht : ¬ Touches (Covers l) n) : (addTo n l).length = l.length + 1 := by
  induction l with
  | nil => rfl
  | cons r rest ih =>
      obtain ⟨hr, -, hrest⟩ := separated_cons.mp hs
      rw [covers_cons, ← AckRange.contains_iff, not_or] at hn
      rw [touches_cons hr hn.1, not_or, not_or] at ht
      obtain ⟨hlast, hfirst, ht⟩ := ht
      unfold addTo
      split
      · rfl
      · rw [List.length_cons, List.length_cons, ih hrest hn.2 ht]

/-- A number that touches a member makes no new block. -/
theorem length_addTo_of_touches (hs : Separated l) (hn : ¬ Covers l n)
    (ht : Touches (Covers l) n) : (addTo n l).length ≤ l.length := by
  fun_induction addTo n l with
  | case1 =>
      obtain ⟨m, hm, -⟩ := ht
      exact absurd hm covers_nil
  | case2 r rest hlt =>
      -- above everything there is nothing to touch
      refine absurd ht (not_touches_of_lt (b := r.last.val + 2) (fun m hm => ?_) hlt)
      rw [covers_cons] at hm
      rcases hm with hm | hm
      · omega
      · have := hs.covered_lt hm
        have := hs.nonempty r (by simp)
        omega
  | case3 => exact Nat.le_refl _
  | case4 => exact Nat.le_refl _
  | case5 => simp
  | case6 => exact Nat.le_refl _
  | case7 r rest hlt heq hnext ih =>
      obtain ⟨hr, -, hrest⟩ := separated_cons.mp hs
      rw [covers_cons, ← AckRange.contains_iff, not_or] at hn
      rw [touches_cons hr hn.1] at ht
      exact Nat.succ_le_succ (ih hrest hn.2 ((ht.resolve_left heq).resolve_left hnext))

/-! ### Recording -/

/-- What every call keeps: the blocks are separated, and the limit allows them. -/
structure Kept (h : History) : Prop where
  separated : Separated h.ranges
  bounded : h.size ≤ h.limit

theorem kept_empty (limit : Nat) : Kept (empty limit) := ⟨separated_nil, Nat.zero_le _⟩

/-- **What recording can do.**  A number is there already, or it is entered, or it is refused. -/
theorem record_cases (hk : Kept h) (n : PacketNumber) :
    (n ∈ h ∧ h.record n = .ok (false, h)) ∨
    (n ∉ h ∧ (Touches (· ∈ h) n ∨ h.size < h.limit) ∧ ∃ h', h.record n = .ok (true, h') ∧
      Kept h' ∧ h'.limit = h.limit ∧ h'.members = insert n h.members) ∨
    (n ∉ h ∧ ¬ Touches (· ∈ h) n ∧ h.limit ≤ h.size ∧
      h.record n = .error (.tooManyRanges h.limit)) := by
  by_cases hn : n ∈ h
  · exact .inl ⟨hn, by rw [record, if_pos hn]⟩
  have hcovers : ¬ Covers h.ranges n := by rwa [← mem_iff]
  have htouches : Touches (· ∈ h) n ↔ Touches (Covers h.ranges) n := by
    simp only [Touches, mem_iff]
  have hbound := hk.bounded
  rw [size] at hbound
  by_cases hroom : h.limit < (addTo n h.ranges).length
  · -- the block that would be one too many is new
    have ht : ¬ Touches (Covers h.ranges) n := fun ht => by
      have := length_addTo_of_touches hk.separated hcovers ht
      omega
    have := length_addTo_of_not_touches hk.separated hcovers ht
    refine .inr (.inr ⟨hn, by rwa [htouches], by rw [size]; omega, ?_⟩)
    rw [record, if_neg hn, if_pos hroom]
  · have hrec : h.record n = .ok (true, { h with ranges := addTo n h.ranges }) := by
      rw [record, if_neg hn, if_neg hroom]
    obtain ⟨-, hs, hlimit, hmem⟩ := record_new hk.separated hrec
    refine .inr (.inl ⟨hn, ?_, _, hrec, ⟨hs, Nat.le_of_not_lt hroom⟩, hlimit, ?_⟩)
    · rw [htouches, or_iff_not_imp_left]
      intro ht
      have := length_addTo_of_not_touches hk.separated hcovers ht
      rw [size]
      omega
    · ext m
      exact hmem m

theorem kept_forgetUpTo (hk : Kept h) (n : PacketNumber) : Kept (h.forgetUpTo n) :=
  ⟨separated_forgetUpTo hk.separated,
    Nat.le_trans (List.length_filterMap_le _ h.ranges) hk.bounded⟩

/-! ### Runs -/

theorem kept_step (hk : Kept h) (call : HistoryCall) :
    Kept (h.step call) ∧ (h.step call).limit = h.limit := by
  cases call with
  | record n =>
      rcases record_cases hk n with ⟨-, hrec⟩ | ⟨-, -, h', hrec, hk', hlimit, -⟩ | ⟨-, -, -, hrec⟩
      all_goals simp only [step, hrec]
      · exact ⟨hk, trivial⟩
      · exact ⟨hk', hlimit⟩
      · exact ⟨hk, trivial⟩
  | forgetUpTo n => exact ⟨kept_forgetUpTo hk n, rfl⟩

/-- Every run keeps the form of the blocks, and the limit. -/
theorem kept_run (limit : Nat) (calls : List HistoryCall) :
    Kept (run limit calls) ∧ (run limit calls).limit = limit := by
  have hfold : ∀ (calls : List HistoryCall) (h : History), Kept h →
      Kept (calls.foldl step h) ∧ (calls.foldl step h).limit = h.limit := by
    intro calls
    induction calls with
    | nil => exact fun h hk => ⟨hk, rfl⟩
    | cons call calls ih =>
        intro h hk
        obtain ⟨hk', hlimit⟩ := kept_step hk call
        obtain ⟨hrun, hrunlimit⟩ := ih _ hk'
        exact ⟨hrun, hrunlimit.trans hlimit⟩
  exact hfold calls (empty limit) (kept_empty limit)

/-- There is one stored block for each maximal block of the members. -/
theorem Kept.size_eq (hk : Kept h) : h.size = {r | IsBlock (· ∈ h) r}.ncard := by
  have hset : {r | IsBlock (· ∈ h) r} = {r | r ∈ h.ranges} := by
    ext r
    exact (mem_ranges_iff hk.separated).symm
  have hnodup : h.ranges.Nodup := by
    refine List.nodup_iff_pairwise_ne.mpr (hk.separated.apart.imp_of_mem ?_)
    rintro high low hhigh - hap rfl
    have := hk.separated.nonempty high hhigh
    omega
  rw [hset, ← List.coe_toFinset, Set.ncard_coe_finset, List.toFinset_card_of_nodup hnodup, size]

/-- **A history answers as the set of its members would.**  After every run, a number is entered
if it is new and touches a member or fewer blocks are stored than the limit allows; it is reported
as known just if it is a member, and refused in the remaining case, and then nothing changes.
Forgetting keeps the members above the given number.  The stored blocks are counted by the set
alone. -/
theorem record_run (limit : Nat) (calls : List HistoryCall) (n : PacketNumber) :
    let h := run limit calls
    ((∃ h', h.record n = .ok (true, h')) ↔
        n ∉ h ∧ (Touches (· ∈ h) n ∨ h.size < limit)) ∧
      (∀ h', h.record n = .ok (true, h') →
        h.step (.record n) = h' ∧ h'.members = insert n h.members) ∧
      (∀ h', h.record n = .ok (false, h') ↔ n ∈ h ∧ h' = h) ∧
      (∀ e, h.record n = .error e ↔
        e = .tooManyRanges limit ∧ n ∉ h ∧ ¬ Touches (· ∈ h) n ∧ limit ≤ h.size) ∧
      (n ∈ h ∨ (∃ e, h.record n = .error e) → h.step (.record n) = h) ∧
      (h.forgetUpTo n).members = {m ∈ h.members | n < m} ∧
      h.size = {r | IsBlock (· ∈ h) r}.ncard := by
  intro h
  obtain ⟨hk, hlimit⟩ := kept_run limit calls
  have hforget : (h.forgetUpTo n).members = {m ∈ h.members | n < m} := by
    ext m
    exact mem_forgetUpTo
  rcases record_cases hk n with ⟨hn, hrec⟩ | ⟨hn, hroom, h', hrec, -, -, hmem⟩ |
    ⟨hn, ht, hfull, hrec⟩
  · refine ⟨?_, ?_, ?_, ?_, ?_, hforget, hk.size_eq⟩ <;> simp [h, step, hrec, hn, eq_comm]
  · rw [hlimit] at hroom
    refine ⟨?_, ?_, ?_, ?_, ?_, hforget, hk.size_eq⟩
    · simp [h, hrec, hn, hroom]
    · rintro h'' hrec'
      obtain rfl : h' = h'' := by simpa [h, hrec] using hrec'
      exact ⟨by simp [h, step, hrec], hmem⟩
    · simp [h, hrec, hn]
    · intro e
      simp only [h, hrec, reduceCtorEq, false_iff]
      rintro ⟨-, -, ht, hfull⟩
      rcases hroom with ht' | hroom
      · exact ht ht'
      · omega
    · simp [h, hrec, hn]
  · rw [hlimit] at hfull hrec
    refine ⟨?_, ?_, ?_, ?_, ?_, hforget, hk.size_eq⟩
    · simp [h, hrec, ht]
      omega
    · simp [h, hrec]
    · simp [h, hrec, hn]
    · simp [h, hrec, hn, ht, hfull, eq_comm]
    · simp [h, step, hrec]

/-- **The blocks of a history.**  After every run no block is empty, the blocks descend with a
number missing between any two, so that they do not overlap, and there are at most as many as the
limit allows.  The block called the highest is the one that reaches up to every member. -/
theorem ranges_run (limit : Nat) (calls : List HistoryCall) :
    let h := run limit calls
    (∀ r ∈ h.ranges, r.first ≤ r.last) ∧
      h.ranges.Pairwise (fun high low => low.first < high.first ∧ low.last < high.last) ∧
      h.ranges.Pairwise (fun high low => low.last.val + 1 < high.first.val) ∧
      (∀ n, ∀ r ∈ h.ranges, ∀ s ∈ h.ranges, r.contains n → s.contains n → r = s) ∧
      h.size ≤ limit ∧
      (∀ r, h.highest? = some r ↔ r ∈ h.ranges ∧ ∀ n ∈ h, n ≤ r.last) := by
  intro h
  obtain ⟨hk, hlimit⟩ := kept_run limit calls
  obtain ⟨hne, hap⟩ := hk.separated
  refine ⟨hne, hap.imp_of_mem fun {high low} hhigh hlow hgap => ?_, hap, ?_, ?_, fun r => ?_⟩
  · have := hne high hhigh
    have := hne low hlow
    rw [PacketNumber.lt_def, PacketNumber.lt_def]
    omega
  · intro n r hr s hs hcr hcs
    rw [AckRange.contains_iff] at hcr hcs
    rcases hk.separated.eq_or_apart hr hs with heq | hgap | hgap
    · exact heq
    · omega
    · omega
  · exact hlimit ▸ hk.bounded
  · constructor
    · exact le_highest hk.separated
    · rintro ⟨hr, htop⟩
      cases hhigh : h.highest? with
      | none => exact absurd hr (by simp [List.head?_eq_none_iff.mp hhigh])
      | some top =>
          -- both blocks reach up to the other's upper end
          obtain ⟨htopmem, hle⟩ := le_highest hk.separated hhigh
          have hmem : ∀ s ∈ h.ranges, s.last ∈ h := fun s hs =>
            mem_iff.mpr ⟨s, hs, AckRange.contains_iff.mpr ⟨hne s hs, Nat.le_refl _⟩⟩
          have h₁ := hle r.last (hmem r hr)
          have h₂ := htop top.last (hmem top htopmem)
          rw [PacketNumber.le_def] at h₂
          have := hne r hr
          have := hne top htopmem
          rcases hk.separated.eq_or_apart hr htopmem with heq | hgap | hgap
          · rw [heq]
          · omega
          · omega

end History

end Multipath
