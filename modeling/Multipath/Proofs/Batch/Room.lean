import Multipath.Proofs.Batch.Limits

/-!
# Room in the windows

Whether a batch fits is decided on a sum of words, which would wrap around if the windows were wide
enough and the paths many enough.  A single path may have room for nearly `2 ^ 64 / 1350` packets,
but no two paths share a number and a number is a byte, so there are fewer than 1350 of them.

* `toNat_foldr_add`, `toNat_foldl_add`: a sum of words that stays below `2 ^ 64` is exact.
* `toNat_packetsInWindow`: the packets that fit into a window, counted without words.
* `PathSet.room`: the packets for which the windows have room, added up exactly.
* `PathSet.length_usable_le`, `PathSet.room_lt`: the numbers of the paths bound it.
* `PathSet.hasRoom_iff`: a batch fits if it is no larger.
* `PathSet.hasRoom_exact`: what fits, from the windows and the bytes in flight.
-/

namespace Multipath

theorem toNat_foldr_add {α : Type} (f : α → UInt64) (l : List α)
    (h : (l.map fun a => (f a).toNat).sum < 2 ^ 64) :
    (l.foldr (fun a sum => f a + sum) 0).toNat = (l.map fun a => (f a).toNat).sum := by
  induction l with
  | nil => rfl
  | cons a l ih =>
    rw [List.map_cons, List.sum_cons] at h ⊢
    rw [List.foldr_cons, UInt64.toNat_add, ih (by omega), Nat.mod_eq_of_lt h]

theorem toNat_foldl_add {α : Type} (f : α → UInt64) (l : List α) (start : UInt64)
    (h : start.toNat + (l.map fun a => (f a).toNat).sum < 2 ^ 64) :
    (l.foldl (fun sum a => sum + f a) start).toNat =
      start.toNat + (l.map fun a => (f a).toNat).sum := by
  induction l generalizing start with
  | nil => rfl
  | cons a l ih =>
    rw [List.map_cons, List.sum_cons] at h ⊢
    have hstep : (start + f a).toNat = start.toNat + (f a).toNat := by
      rw [UInt64.toNat_add, Nat.mod_eq_of_lt (by omega)]
    rw [List.foldl_cons, ih _ (by omega), hstep, Nat.add_assoc]

/-- Whole packets in what is left of a window, which is nothing if it is overcommitted. -/
theorem toNat_packetsInWindow (window inFlight : ByteCount) :
    (packetsInWindow window inFlight).toNat = (window.toNat - inFlight.toNat) / 1350 := by
  unfold packetsInWindow
  split
  · next hle =>
    rw [UInt64.toNat_div, UInt64.toNat_sub_of_le _ _ hle]
    rfl
  · next hle =>
    rw [UInt64.le_iff_toNat_le] at hle
    rw [Nat.sub_eq_zero_of_le (by omega)]
    rfl

theorem toNat_packetsInWindow_le (window inFlight : ByteCount) :
    (packetsInWindow window inFlight).toNat ≤ 2 ^ 64 / 1350 := by
  rw [toNat_packetsInWindow]
  exact Nat.div_le_div_right ((Nat.sub_le _ _).trans window.toNat_lt.le)

namespace PathSet

variable {paths : PathSet}

/-- The packets for which the windows of the usable paths have room. -/
def room (paths : PathSet) : Nat :=
  (paths.usable.map fun p => p.telemetry.remainingPackets.toNat).sum

/-- There are no more paths than numbers for them. -/
theorem length_usable_le (paths : PathSet) : paths.usable.length ≤ 256 := by
  have hdistinct : (paths.usable.map (·.id.number.toNat)).Nodup :=
    List.pairwise_map.mpr (paths.pairwise_usable.imp fun {p q} hne heq =>
      hne (congrArg PathId.mk (UInt8.toNat_inj.mp heq)))
  have hbytes : paths.usable.map (·.id.number.toNat) ⊆ List.range 256 := fun n hn => by
    obtain ⟨p, -, rfl⟩ := List.mem_map.mp hn
    exact List.mem_range.mpr p.id.number.toNat_lt
  simpa using (hdistinct.subperm hbytes).length_le

theorem room_lt (paths : PathSet) : paths.room < 2 ^ 64 := by
  have hpath : ∀ n ∈ paths.usable.map fun p => p.telemetry.remainingPackets.toNat,
      n ≤ 2 ^ 64 / 1350 := fun n hn => by
    obtain ⟨p, -, rfl⟩ := List.mem_map.mp hn
    exact toNat_packetsInWindow_le _ _
  calc paths.room ≤ paths.usable.length * (2 ^ 64 / 1350) := by
        simpa [room] using List.sum_le_card_nsmul _ _ hpath
    _ ≤ 256 * (2 ^ 64 / 1350) := Nat.mul_le_mul_right _ paths.length_usable_le
    _ < 2 ^ 64 := by norm_num

/-- A batch fits if it has no more packets than there is room for. -/
theorem hasRoom_iff {packets : Nat} : paths.hasRoom packets = true ↔ packets ≤ paths.room := by
  rw [hasRoom, decide_eq_true_iff, toNat_foldr_add _ _ paths.room_lt, room]

theorem usable_eq_filter (paths : PathSet) : paths.usable = paths.toList.filter fun p =>
    p.id ≠ .initial ∧ p.telemetry.inFlight ≤ p.telemetry.window := by
  rw [usable, additional, List.filter_filter]
  refine List.filter_congr fun p _ => ?_
  simp [Path.isCommitted, Path.isInitial, PathId.isInitial, Bool.and_comm, beq_eq_decide]

/-- **Room is counted exactly.**  Whatever the windows and the bytes in flight, the packets for which
the usable paths have room are fewer than `2 ^ 64`.  So adding them up in words, path by path, is
exact at each step, and a batch fits just if it has no more packets than the windows of the paths,
other than the initial one and those that are overcommitted, have whole packets left. -/
theorem hasRoom_exact (paths : PathSet) (packets : Nat) :
    (paths.usable.map fun p => p.telemetry.remainingPackets.toNat).sum < 2 ^ 64 ∧
    (∀ first : List Path, first <+: paths.usable →
      (first.foldl (fun sum p => sum + p.telemetry.remainingPackets) (0 : UInt64)).toNat =
        (first.map fun p => p.telemetry.remainingPackets.toNat).sum) ∧
    (paths.hasRoom packets = true ↔
      packets ≤ ((paths.toList.filter fun p =>
        p.id ≠ .initial ∧ p.telemetry.inFlight ≤ p.telemetry.window).map fun p =>
          (p.telemetry.window.toNat - p.telemetry.inFlight.toNat) / 1350).sum) := by
  refine ⟨paths.room_lt, fun first hfirst => ?_, ?_⟩
  · -- what has been added up so far is no more than what there is in the end
    have hle : (first.map fun p => p.telemetry.remainingPackets.toNat).sum ≤ paths.room := by
      obtain ⟨rest, hrest⟩ := hfirst
      rw [room, ← hrest, List.map_append, List.sum_append]
      exact Nat.le_add_right _ _
    have hexact := toNat_foldl_add (fun p : Path => p.telemetry.remainingPackets) first 0
      (by simpa using hle.trans_lt paths.room_lt)
    simpa using hexact
  · rw [hasRoom_iff, room, usable_eq_filter]
    simp only [Telemetry.remainingPackets, toNat_packetsInWindow]

end PathSet

end Multipath
