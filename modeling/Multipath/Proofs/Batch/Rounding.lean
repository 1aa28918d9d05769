import Multipath.Batch.Rounding
import Multipath.Proofs.Decimal.Scaling

/-!
# Greedy rounding, row by row

What greedy rounding does with a row is settled before any coin is tossed: the row is dropped, sent
for sure or left to a single coin.  So every row has its own draw, or none, and the draw that it
gets does not depend on the draws before.

* `Choice`, `choice`: what is settled about a row.
* `greedyRow_eq`, `greedy_eq`: greedy rounding in closed form.
* `choice_sure`, `choice_tossed`: what the settled path has a share of.
-/

namespace Multipath.Rounding

/-- What is settled about a row before a coin is tossed. -/
inductive Choice where
  | dropped
  | sure (j : Nat)
  | tossed (share : Float) (j : Nat)

namespace Choice

/-- How many coins are tossed. -/
def tosses : Choice → Nat
  | tossed _ _ => 1
  | _ => 0

/-- What becomes of the row; a coin that is tossed shows this draw. -/
def outcome : Choice → UInt64 → Option Nat
  | dropped, _ => none
  | sure j, _ => some j
  | tossed share j, draw => if draw < (share * Draws.scale).toUInt64 then some j else none

end Choice

/-- The first of some ranked shares that is full or counts. -/
def choose : List (Float × Nat) → Choice
  | [] => .dropped
  | (share, j) :: rest =>
    if isFull share then .sure j else if counts share then .tossed share j else choose rest

/-- What is settled about a row. -/
def choice (row : List Float) : Choice := choose (ranked row)

/-- How many coins are tossed for some rows. -/
def tosses (rows : List (List Float)) : Nat := (rows.map fun row => (choice row).tosses).sum

/-! ### Certain coins -/

theorem toRat?_full :
    Binary.toRat? (1.0 - tolerance) = some (9007199245733793 / 9007199254740992) := by
  decide +kernel

theorem toRat?_tolerance :
    Binary.toRat? tolerance = some (4835703278458517 / 4835703278458516698824704) := by
  decide +kernel

theorem toRat?_one : Binary.toRat? 1.0 = some 1 := by decide +kernel

theorem isFull_iff {share : Float} {q : Rat} (h : Binary.toRat? share = some q) :
    isFull share = true ↔ 9007199245733793 / 9007199254740992 ≤ q := by
  rw [isFull, decide_eq_true_iff, Binary.le_iff toRat?_full h]

theorem counts_iff {share : Float} {q : Rat} (h : Binary.toRat? share = some q) :
    counts share = true ↔ 4835703278458517 / 4835703278458516698824704 < q := by
  rw [counts, decide_eq_true_iff, Binary.lt_iff toRat?_tolerance h]

/-- A share that is not full is not certain. -/
theorem not_certain {share : Float} (h : isFull share = false) : (share == 1.0) = false := by
  refine Bool.eq_false_iff.mpr fun hone => ?_
  have hfull := (isFull_iff (Binary.toRat?_of_beq toRat?_one hone)).mpr (by norm_num)
  rw [h] at hfull
  cases hfull

/-- As many draws win the coin for a share as the share is worth of all draws. -/
theorem toNat_chance {share : Float} {q : Rat} (h : Binary.toRat? share = some q)
    (hfull : isFull share = false) (hcounts : counts share = true) :
    (share * Draws.scale).toUInt64.toNat = ⌊q * 2 ^ 64⌋₊ := by
  rw [counts_iff h] at hcounts
  rw [← Bool.not_eq_true, isFull_iff h, not_le] at hfull
  have hnormal : (2 : Rat) ^ (-1022 : Int) ≤ q :=
    calc (2 : Rat) ^ (-1022 : Int) ≤ 2 ^ (-64 : Int) :=
          zpow_le_zpow_right₀ (by norm_num) (by norm_num)
      _ ≤ 4835703278458517 / 4835703278458516698824704 := by norm_num
      _ ≤ q := hcounts.le
  exact Binary.toNat_threshold h hnormal (hfull.trans (by norm_num))

/-- A coin that is tossed for a share is won with no more than its probability. -/
theorem chance_le {share : Float} {q : Rat} (h : Binary.toRat? share = some q)
    (hfull : isFull share = false) (hcounts : counts share = true) :
    ((share * Draws.scale).toUInt64.toNat : Rat) / 2 ^ 64 ≤ q := by
  have hpos : 0 ≤ q := by
    rw [counts_iff h] at hcounts
    linarith
  rw [toNat_chance h hfull hcounts, div_le_iff₀ (by norm_num)]
  exact Nat.floor_le (by positivity)

/-! ### Closed forms -/

theorem takeRanked_eq (l : List (Float × Nat)) (d : Draws) : takeRanked l d =
    ((choose l).outcome (d.stream d.used), { d with used := d.used + (choose l).tosses }) := by
  induction l with
  | nil => rfl
  | cons e rest ih =>
    obtain ⟨share, j⟩ := e
    rw [takeRanked, choose]
    by_cases hfull : isFull share = true
    · simp [hfull, Choice.outcome, Choice.tosses]
    · by_cases hcounts : counts share = true
      · have hcoin := not_certain (Bool.not_eq_true _ ▸ hfull)
        by_cases hwon : d.stream d.used < (share * Draws.scale).toUInt64 <;>
          simp [hfull, hcounts, Draws.coin, Draws.take, hcoin, Choice.outcome, Choice.tosses, hwon]
      · simpa [hfull, hcounts] using ih

theorem greedyRow_eq (row : List Float) (d : Draws) : greedyRow row d =
    ((choice row).outcome (d.stream d.used), { d with used := d.used + (choice row).tosses }) :=
  takeRanked_eq _ d

/-- Greedy rounding in closed form: each row that needs one has a draw of its own. -/
theorem greedy_eq (rows : List (List Float)) (d : Draws) : greedy rows d =
    ((List.range rows.length).map fun i =>
      (choice (rows.getD i [])).outcome (d.stream (d.used + tosses (rows.take i))),
      { d with used := d.used + tosses rows }) := by
  induction rows generalizing d with
  | nil => rfl
  | cons row rows ih =>
    rw [greedy, greedyRow_eq]
    simp only [ih]
    simp [List.range_succ_eq_map, tosses, Nat.add_assoc, Function.comp_def]

/-! ### What is settled -/

theorem choose_sure {l : List (Float × Nat)} {j : Nat} (h : choose l = .sure j) :
    ∃ share, (share, j) ∈ l ∧ isFull share = true := by
  induction l with
  | nil => cases h
  | cons e rest ih =>
    obtain ⟨share, j'⟩ := e
    rw [choose] at h
    split at h
    · next hfull =>
      cases h
      exact ⟨share, List.mem_cons_self, hfull⟩
    · split at h
      · cases h
      · obtain ⟨share', hmem, hfull⟩ := ih h
        exact ⟨share', List.mem_cons_of_mem _ hmem, hfull⟩

theorem choose_tossed {l : List (Float × Nat)} {share : Float} {j : Nat}
    (h : choose l = .tossed share j) :
    (share, j) ∈ l ∧ isFull share = false ∧ counts share = true := by
  induction l with
  | nil => cases h
  | cons e rest ih =>
    obtain ⟨share', j'⟩ := e
    rw [choose] at h
    split at h
    · cases h
    · next hfull =>
      split at h
      · next hcounts =>
        cases h
        exact ⟨List.mem_cons_self, Bool.eq_false_iff.mpr hfull, hcounts⟩
      · obtain ⟨hmem, hrest⟩ := ih h
        exact ⟨List.mem_cons_of_mem _ hmem, hrest⟩

theorem mem_ranked {row : List Float} {share : Float} {j : Nat} :
    (share, j) ∈ ranked row ↔ row[j]? = some share := by
  rw [ranked, (Ranking.perm_rank _ _).mem_iff, List.mk_mem_zipIdx_iff_getElem?]

/-- A row is sent for sure only on a path that has a full share. -/
theorem choice_sure {row : List Float} {j : Nat} (h : choice row = .sure j) :
    ∃ share, row[j]? = some share ∧ isFull share = true := by
  obtain ⟨share, hmem, hfull⟩ := choose_sure h
  exact ⟨share, mem_ranked.mp hmem, hfull⟩

/-- A coin is tossed only for a path whose share counts and is not full. -/
theorem choice_tossed {row : List Float} {share : Float} {j : Nat}
    (h : choice row = .tossed share j) :
    row[j]? = some share ∧ isFull share = false ∧ counts share = true := by
  obtain ⟨hmem, hrest⟩ := choose_tossed h
  exact ⟨mem_ranked.mp hmem, hrest⟩

end Multipath.Rounding
