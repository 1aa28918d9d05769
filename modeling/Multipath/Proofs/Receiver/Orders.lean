import Mathlib.Data.List.Sort
import Multipath.Proofs.Receiver.Recording

/-!
# The order of arrival

Different orders of arrival reach a history by different ways: a number that opens a block in one
order extends a block in another and joins two in a third.  The blocks that result are the same,
because they are the maximal blocks of the members, and a descending list is determined by its
entries.

* `Separated.eq_of_covers`: separated blocks that cover the same numbers are the same blocks.
* `members_recordAll`, `members_forgetAll`: what many arrivals, and many bounds, make of the
  members.  Neither depends on the order.
* `ranges_eq_of_orders`: runs with the same members have the same blocks, whatever their limits,
  and so have two orders of the same arrivals.
-/

namespace Multipath

namespace History

variable {h h' : History} {l l' : List AckRange} {ns : List PacketNumber}

/-! ### One form for each set -/

/-- Separated blocks descend strictly. -/
theorem Separated.descending (hs : Separated l) :
    l.Pairwise fun high low => low.first.val < high.first.val := by
  refine hs.apart.imp_of_mem fun {high low} _ hlow hgap => ?_
  have := hs.nonempty low hlow
  omega

/-- **Separated blocks are determined by what they cover.** -/
theorem Separated.eq_of_covers (hs : Separated l) (hs' : Separated l')
    (hcovers : ∀ n, Covers l n ↔ Covers l' n) : l = l' := by
  -- no block is before itself, and no two are each before the other
  have : Std.Irrefl fun high low : AckRange => low.first.val < high.first.val :=
    ⟨fun r => Nat.lt_irrefl r.first.val⟩
  have : Std.Antisymm fun high low : AckRange => low.first.val < high.first.val :=
    ⟨fun r s hsr hrs => absurd hrs (Nat.lt_asymm hsr)⟩
  refine hs.descending.eq_of_mem_iff hs'.descending fun r => ?_
  have hblock : IsBlock (Covers l) r ↔ IsBlock (Covers l') r := by
    rw [funext fun n => propext (hcovers n)]
  have hmem : r ∈ l ↔ IsBlock (Covers l) r := by
    simpa only [mem_iff] using mem_ranges_iff (h := ⟨l, 0⟩) hs
  have hmem' : r ∈ l' ↔ IsBlock (Covers l') r := by
    simpa only [mem_iff] using mem_ranges_iff (h := ⟨l', 0⟩) hs'
  rw [hmem, hmem', hblock]

/-- Two histories with the same members have the same blocks. -/
theorem Kept.ranges_eq (hk : Kept h) (hk' : Kept h') (hmem : h.members = h'.members) :
    h.ranges = h'.ranges := by
  refine hk.separated.eq_of_covers hk'.separated fun n => ?_
  rw [← mem_iff, ← mem_iff]
  exact Set.ext_iff.mp hmem n

/-! ### Many arrivals, many bounds -/

/-- Records the numbers in turn.  It fails with the first number that is refused. -/
def recordAll (h : History) : List PacketNumber → Except Error History
  | [] => .ok h
  | n :: ns =>
    match h.record n with
    | .error e => .error e
    | .ok (_, h') => h'.recordAll ns

/-- Forgets up to each of the bounds in turn. -/
def forgetAll (h : History) (bounds : List PacketNumber) : History := bounds.foldl forgetUpTo h

/-- Arrivals that are not refused are members from then on. -/
theorem members_recordAll (hk : Kept h) (hrec : h.recordAll ns = .ok h') :
    Kept h' ∧ h'.members = {m | m ∈ h.members ∨ m ∈ ns} := by
  induction ns generalizing h with
  | nil =>
      obtain rfl : h = h' := by simpa [recordAll] using hrec
      exact ⟨hk, by simp⟩
  | cons n ns ih =>
      rcases record_cases hk n with ⟨hn, hone⟩ | ⟨-, -, next, hone, hk', -, hmem⟩ |
        ⟨-, -, -, hone⟩
      all_goals rw [recordAll, hone] at hrec
      · obtain ⟨hkept, hall⟩ := ih hk hrec
        refine ⟨hkept, hall.trans (Set.ext fun m => ?_)⟩
        -- the number was there already
        have : m = n → m ∈ h.members := fun heq => heq ▸ hn
        simp only [Set.mem_ofPred_eq, List.mem_cons]
        tauto
      · obtain ⟨hkept, hall⟩ := ih hk' hrec
        refine ⟨hkept, hall.trans (Set.ext fun m => ?_)⟩
        simp only [hmem, Set.mem_ofPred_eq, Set.mem_insert_iff, List.mem_cons]
        tauto
      · exact absurd hrec (by simp)

/-- What remains lies above every bound. -/
theorem members_forgetAll (hk : Kept h) (bounds : List PacketNumber) :
    Kept (h.forgetAll bounds) ∧
      (h.forgetAll bounds).members = {m | m ∈ h.members ∧ ∀ bound ∈ bounds, bound < m} := by
  induction bounds generalizing h with
  | nil => exact ⟨hk, by simp [forgetAll]⟩
  | cons bound bounds ih =>
      obtain ⟨hkept, hall⟩ := ih (kept_forgetUpTo hk bound)
      refine ⟨hkept, hall.trans (Set.ext fun m => ?_)⟩
      have hone : m ∈ (h.forgetUpTo bound).members ↔ m ∈ h.members ∧ bound < m := mem_forgetUpTo
      simp only [Set.mem_ofPred_eq, hone, List.forall_mem_cons, and_assoc]

/-! ### Two orders -/

/-- **The order of arrival does not matter.**  Two runs that leave the same members leave the same
blocks, even if they allow different numbers of blocks.  So do two orders of the same arrivals, none
of them refused, followed by two orders of the same bounds. -/
theorem ranges_eq_of_orders :
    (∀ (limit limit' : Nat) (calls calls' : List HistoryCall),
      (run limit calls).members = (run limit' calls').members →
        (run limit calls).ranges = (run limit' calls').ranges) ∧
    ∀ (limit limit' : Nat) (ns ns' bounds bounds' : List PacketNumber) (h h' : History),
      ns.Perm ns' → bounds.Perm bounds' →
      (empty limit).recordAll ns = .ok h → (empty limit').recordAll ns' = .ok h' →
        (h.forgetAll bounds).ranges = (h'.forgetAll bounds').ranges := by
  constructor
  · intro limit limit' calls calls' hmem
    exact (kept_run limit calls).1.ranges_eq (kept_run limit' calls').1 hmem
  · intro limit limit' ns ns' bounds bounds' h h' hns hbounds hrec hrec'
    obtain ⟨hk, hmem⟩ := members_recordAll (kept_empty limit) hrec
    obtain ⟨hk', hmem'⟩ := members_recordAll (kept_empty limit') hrec'
    obtain ⟨hleft, hrest⟩ := members_forgetAll hk bounds
    obtain ⟨hleft', hrest'⟩ := members_forgetAll hk' bounds'
    refine hleft.ranges_eq hleft' ?_
    have hstart : (empty limit).members = (empty limit').members := rfl
    rw [hrest, hrest', hmem, hmem', hstart]
    simp only [hns.mem_iff, hbounds.mem_iff]

/-- The numbers 1, 2, 3, 7 and 9 in two orders: the one goes through four blocks, the other through
three at most.  Then the block of 1, 2 and 3 is cut. -/
theorem ranges_eq_of_orders_cut :
    let n (k : Fin 10) : PacketNumber := ⟨k, by omega⟩
    ∃ h h', (empty 4).recordAll [n 1, n 9, n 3, n 7, n 2] = .ok h ∧
      (empty 3).recordAll [n 9, n 1, n 2, n 3, n 7] = .ok h' ∧
      (h.forgetAll [n 2]).ranges = (h'.forgetAll [n 2]).ranges ∧
      (run 2 [.record (n 1), .record (n 3), .record (n 2), .forgetUpTo (n 1)]).ranges =
        (run 1 [.record (n 2), .record (n 3)]).ranges := by
  intro n
  refine ⟨⟨[⟨n 9, n 9⟩, ⟨n 7, n 7⟩, ⟨n 1, n 3⟩], 4⟩, ⟨[⟨n 9, n 9⟩, ⟨n 7, n 7⟩, ⟨n 1, n 3⟩], 3⟩,
    by decide, by decide, ?_, ?_⟩
  · exact ranges_eq_of_orders.2 4 3 [n 1, n 9, n 3, n 7, n 2] [n 9, n 1, n 2, n 3, n 7] _ _ _ _
      (by decide) (.refl _) (by decide) (by decide)
  · exact ranges_eq_of_orders.1 2 1 _ _ (Set.ext fun m => Iff.rfl)

end History

end Multipath
