import Multipath.Proofs.Batch.Rounding
import Multipath.Proofs.Decimal.Levels

/-!
# What decides a row

Greedy rounding ranks the shares of a row and goes down the ranking until a share is full or counts.
It never gets past the first one: if the largest share does not count, none does.  So a row is
decided by its largest share and, if that is split, by one coin of its own.  Where no share is split
and no row has two full ones there is no coin, and whatever comes first in the row is what comes
first in the ranking.

* `greedyRow_whole`, `greedy_eq_direct`: without split shares both ways of rounding agree.
* `IsLargest`, `largest?`: the largest share of a row and the first path that has it.
* `choice_eq`, `DecidedBy`: it decides the row.
* `greedy_byLargest`: what becomes of all rows, and which draw each of them gets.
-/

namespace Multipath.Rounding

open Binary

variable {share : Float} {row : List Float}

/-! ### Thresholds -/

theorem isNaN_tolerance : tolerance.isNaN = false := by decide +kernel

theorem isNaN_full : (1.0 - tolerance).isNaN = false := by decide +kernel

/-- The thresholds for what counts and what is full lie apart, and both among the positive
numbers. -/
theorem level_thresholds : 0 < level tolerance ∧ level tolerance < level (1.0 - tolerance) ∧
    level (1.0 - tolerance) < infiniteCount := by
  decide +kernel

section Numbers

variable (h : share.isNaN = false)
include h

theorem counts_iff_level : counts share = true ↔ level tolerance < level share := by
  rw [counts, decide_eq_true_iff, lt_iff_level isNaN_tolerance h]

theorem isFull_iff_level : isFull share = true ↔ level (1.0 - tolerance) ≤ level share := by
  rw [isFull, decide_eq_true_iff, le_iff_level isNaN_full h]

theorem le_tolerance_iff : share ≤ tolerance ↔ counts share = false := by
  rw [← Bool.not_eq_true, counts_iff_level h, not_lt, le_iff_level h isNaN_tolerance]

theorem lt_full_iff : share < 1.0 - tolerance ↔ isFull share = false := by
  rw [← Bool.not_eq_true, isFull_iff_level h, not_le, lt_iff_level h isNaN_full]

end Numbers

theorem counts_of_isFull (h : isFull share = true) : counts share = true := by
  have hnumber := (isNaN_of_le (of_decide_eq_true h)).2
  have hthresholds := level_thresholds
  rw [isFull_iff_level hnumber] at h
  rw [counts_iff_level hnumber]
  omega

theorem isFull_of_counts (h : counts share = false) : isFull share = false :=
  Bool.eq_false_iff.mpr fun hfull => Bool.eq_false_iff.mp h (counts_of_isFull hfull)

/-- A share that is not split counts only if it is full. -/
theorem counts_eq_isFull (h : share ≤ tolerance ∨ 1.0 - tolerance ≤ share) :
    counts share = isFull share := by
  rcases h with hnone | hfull
  · have hcounts := (le_tolerance_iff (isNaN_of_le hnone).1).mp hnone
    rw [hcounts, isFull_of_counts hcounts]
  · have hfull : isFull share = true := decide_eq_true hfull
    rw [hfull, counts_of_isFull hfull]

/-! ### Rows without a split share -/

/-- If no share is split, the first full one is taken, and nothing is left to a coin. -/
theorem choose_whole {l : List (Float × Nat)} (h : ∀ e ∈ l, counts e.1 = isFull e.1) :
    choose l = (l.find? fun e => isFull e.1).elim .dropped fun e => .sure e.2 := by
  induction l with
  | nil => rfl
  | cons e rest ih =>
    obtain ⟨share, j⟩ := e
    have hshare : counts share = isFull share := h (share, j) List.mem_cons_self
    have hrest := ih fun e he => h e (List.mem_cons_of_mem _ he)
    rw [choose]
    by_cases hfull : isFull share = true
    · simp [hfull]
    · simp [hfull, hshare, hrest]

/-- Shares that do not count leave nothing to take. -/
theorem choose_dropped {l : List (Float × Nat)} (h : ∀ e ∈ l, counts e.1 = false) :
    choose l = .dropped := by
  have hfull : ∀ e ∈ l, isFull e.1 = false := fun e he => isFull_of_counts (h e he)
  rw [choose_whole fun e he => (h e he).trans (hfull e he).symm,
    List.find?_eq_none.mpr fun e he => Bool.eq_false_iff.mp (hfull e he)]
  rfl

theorem eq_of_perm_of_length_le_one {α : Type} {l l' : List α} (h : l.Perm l')
    (hlength : l'.length ≤ 1) : l = l' := by
  match l', hlength with
  | [], _ => exact h.eq_nil
  | [a], _ => exact List.perm_singleton.mp h

/-- A full share that is the only one comes first in any order. -/
theorem find?_ranked (hone : row.countP isFull ≤ 1) :
    (ranked row).find? (fun e => isFull e.1) = row.zipIdx.find? fun e => isFull e.1 := by
  have hlength : (row.zipIdx.filter fun e => isFull e.1).length ≤ 1 := by
    rwa [← List.zipIdx_map_fst 0 row, List.countP_map, List.countP_eq_length_filter] at hone
  rw [← List.head?_filter, ← List.head?_filter]
  exact congrArg List.head?
    (eq_of_perm_of_length_le_one ((Ranking.perm_rank _ row.zipIdx).filter _) hlength)

/-- Without split shares, and with one full share at most, a row is rounded as it is directly. -/
theorem greedyRow_whole (hwhole : ∀ share ∈ row, share ≤ tolerance ∨ 1.0 - tolerance ≤ share)
    (hone : row.countP isFull ≤ 1) (draws : Draws) :
    greedyRow row draws = (row.findIdx? isFull, draws) ∧ directRow row = row.findIdx? isFull := by
  have hsame : ∀ share ∈ row, counts share = isFull share := fun share hshare =>
    counts_eq_isFull (hwhole share hshare)
  have hranked : ∀ e ∈ ranked row, counts e.1 = isFull e.1 := fun ⟨share, j⟩ he =>
    hsame share (List.mem_of_getElem? (mem_ranked.mp he))
  have hchoice : choice row = (row.findIdx? isFull).elim .dropped .sure := by
    rw [choice, choose_whole hranked, find?_ranked hone, List.findIdx?_eq_fst_find?_zipIdx]
    cases row.zipIdx.find? fun e => isFull e.1 <;> rfl
  constructor
  · rw [greedyRow_eq, hchoice]
    cases row.findIdx? isFull <;> rfl
  · rw [directRow, List.findIdx?_eq_fst_find?_zipIdx, List.findIdx?_eq_fst_find?_zipIdx]
    exact congrArg _ (List.find?_congr fun e he => hsame e.1 (List.fst_mem_of_mem_zipIdx he))

/-- **Without split shares both ways of rounding agree.**  If each share is next to nothing or as
good as everything, and no row has two of the latter, greedy rounding takes no draw and returns what
direct rounding returns: for each row the place of the share that is as good as everything. -/
theorem greedy_eq_direct {rows : List (List Float)}
    (hwhole : ∀ row ∈ rows, ∀ share ∈ row, share ≤ 1e-9 ∨ 1.0 - 1e-9 ≤ share)
    (hone : ∀ row ∈ rows, row.countP (fun share => 1.0 - 1e-9 ≤ share) ≤ 1) (draws : Draws) :
    greedy rows draws = (direct rows, draws) ∧
      direct rows = rows.map (List.findIdx? fun share => 1.0 - 1e-9 ≤ share) := by
  induction rows with
  | nil => exact ⟨rfl, rfl⟩
  | cons row rows ih =>
    obtain ⟨hgreedy, hdirect⟩ := greedyRow_whole (hwhole row List.mem_cons_self)
      (hone row List.mem_cons_self) draws
    obtain ⟨hgreedy', hdirect'⟩ := ih (fun row hrow => hwhole row (List.mem_cons_of_mem _ hrow))
      fun row hrow => hone row (List.mem_cons_of_mem _ hrow)
    constructor
    · rw [greedy, hgreedy, ← hdirect]
      simp only [hgreedy']
      rfl
    · exact congrArg₂ List.cons hdirect hdirect'

/-- Rows whose shares are whole up to the tolerance, or beyond any share. -/
def wholeRows : List (List Float) :=
  [[0.0, 1.0], [5e-10, 0.9999999995, -1.0 / 0.0], [], [1e-9, -0.0], [0.0, 0.0, 1.0 / 0.0]]

/-- They are rounded alike, and no draw is taken. -/
theorem greedy_eq_direct_wholeRows :
    (∀ row ∈ wholeRows, ∀ share ∈ row, share ≤ 1e-9 ∨ 1.0 - 1e-9 ≤ share) ∧
    (∀ row ∈ wholeRows, row.countP (fun share => 1.0 - 1e-9 ≤ share) ≤ 1) ∧
    greedy wholeRows (.ofList [7]) = (direct wholeRows, .ofList [7]) ∧
    direct wholeRows = [some 1, some 1, none, none, some 2] := by
  have hwhole : ∀ row ∈ wholeRows, ∀ share ∈ row, share ≤ 1e-9 ∨ 1.0 - 1e-9 ≤ share := by
    decide +kernel
  have hone : ∀ row ∈ wholeRows, row.countP (fun share => 1.0 - 1e-9 ≤ share) ≤ 1 := by
    decide +kernel
  obtain ⟨hgreedy, hdirect⟩ := greedy_eq_direct hwhole hone (.ofList [7])
  exact ⟨hwhole, hone, hgreedy, hdirect.trans (by decide +kernel)⟩

/-! ### The largest share -/

/-- What stands at an earlier place of a list stands before in the list of its places. -/
theorem mem_before {α : Type} {l : List α} {before after : List (α × Nat)} {a b : α} {j k : Nat}
    (h : l.zipIdx = before ++ (a, j) :: after) (hk : k < j) (hb : l[k]? = some b) :
    (b, k) ∈ before := by
  have ha : l.zipIdx[before.length]? = some (a, j) := by
    rw [h, List.getElem?_append_right (le_refl _), Nat.sub_self]
    rfl
  rw [List.getElem?_zipIdx, Nat.zero_add] at ha
  obtain ⟨_, -, heq⟩ := Option.map_eq_some_iff.mp ha
  have hj : before.length = j := (Prod.mk.inj heq).2
  have hb' : l.zipIdx[k]? = some (b, k) := by simp [List.getElem?_zipIdx, hb]
  rw [h, List.getElem?_append_left (hj ▸ hk)] at hb'
  exact List.mem_of_getElem? hb'

/-- A row has its largest share at place `j`, and at none before. -/
structure IsLargest (row : List Float) (share : Float) (j : Nat) : Prop where
  place : row[j]? = some share
  le : ∀ other ∈ row, other ≤ share
  lt : ∀ k < j, ∀ other, row[k]? = some other → other < share

/-- The largest share of a row and the first place where it stands. -/
def largest? : List Float → Option (Float × Nat)
  | [] => none
  | share :: row =>
    match largest? row with
    | none => some (share, 0)
    | some (best, j) => if share < best then some (best, j + 1) else some (share, 0)

theorem largest?_eq_none : largest? row = none ↔ row = [] := by
  cases row with
  | nil => simp [largest?]
  | cons share row =>
    simp only [largest?, reduceCtorEq, iff_false]
    split
    · simp
    · split <;> simp

namespace IsLargest

variable {share' : Float} {j j' : Nat}

theorem mem (h : IsLargest row share j) : share ∈ row := List.mem_of_getElem? h.place

/-- A share is the largest of the row that it leads, if no other is larger. -/
theorem head (h : ∀ other ∈ share :: row, other ≤ share) : IsLargest (share :: row) share 0 :=
  ⟨rfl, h, fun _ hk => absurd hk (Nat.not_lt_zero _)⟩

/-- The largest share of a row stays it behind a smaller one. -/
theorem cons {first : Float} (h : IsLargest row share j) (hle : first ≤ share)
    (hlt : first < share) : IsLargest (first :: row) share (j + 1) where
  place := h.place
  le other hother := by
    rcases List.mem_cons.mp hother with rfl | hother
    · exact hle
    · exact h.le other hother
  lt k hk other hother := by
    cases k with
    | zero => exact Option.some.inj hother ▸ hlt
    | succ k => exact h.lt k (Nat.lt_of_succ_lt_succ hk) other hother

section Numbers

variable (hnumbers : ∀ share ∈ row, share.isNaN = false)
include hnumbers

theorem not_lt (h : IsLargest row share j) (h' : IsLargest row share' j') : ¬ j < j' := by
  intro hj
  have hshare := hnumbers share h.mem
  have hshare' := hnumbers share' h'.mem
  have hless := (lt_iff_level hshare hshare').mp (h'.lt j hj share h.place)
  have hmost := (le_iff_level hshare' hshare).mp (h.le share' h'.mem)
  omega

/-- There is but one first place of the largest share. -/
theorem unique (h : IsLargest row share j) (h' : IsLargest row share' j') :
    share = share' ∧ j = j' := by
  obtain rfl : j = j' := Nat.le_antisymm (Nat.not_lt.mp (h'.not_lt hnumbers h))
    (Nat.not_lt.mp (h.not_lt hnumbers h'))
  exact ⟨Option.some.inj (h.place.symm.trans h'.place), rfl⟩

end Numbers

end IsLargest

section Numbers

variable (hnumbers : ∀ share ∈ row, share.isNaN = false)
include hnumbers

theorem isLargest_of_largest? {j : Nat} (h : largest? row = some (share, j)) :
    IsLargest row share j := by
  induction row generalizing share j with
  | nil => cases h
  | cons first row ih =>
    have hfirst := hnumbers first List.mem_cons_self
    have hrest : ∀ share ∈ row, share.isNaN = false := fun share hshare =>
      hnumbers share (List.mem_cons_of_mem _ hshare)
    have hself : first ≤ first := (le_iff_level hfirst hfirst).mpr (le_refl _)
    rw [largest?] at h
    cases hlargest : largest? row with
    | none =>
      obtain rfl := largest?_eq_none.mp hlargest
      rw [hlargest] at h
      obtain ⟨rfl, rfl⟩ : first = share ∧ 0 = j := by simpa using h
      exact .head fun other hother => List.mem_singleton.mp hother ▸ hself
    | some found =>
      obtain ⟨best, i⟩ := found
      have hbest := ih hrest hlargest
      have hnumber := hrest best hbest.mem
      simp only [hlargest] at h
      split at h
      · next hless =>
        obtain ⟨rfl, rfl⟩ : best = share ∧ i + 1 = j := by simpa using h
        refine hbest.cons ?_ hless
        rw [le_iff_level hfirst hnumber]
        exact ((lt_iff_level hfirst hnumber).mp hless).le
      · next hless =>
        obtain ⟨rfl, rfl⟩ : first = share ∧ 0 = j := by simpa using h
        refine .head fun other hother => ?_
        rcases List.mem_cons.mp hother with rfl | hother
        · exact hself
        · have hother' := hrest other hother
          have hle := (le_iff_level hother' hnumber).mp (hbest.le other hother)
          rw [lt_iff_level hfirst hnumber, Int.not_lt] at hless
          exact (le_iff_level hother' hfirst).mpr (hle.trans hless)

/-- No share stands above the first one of the ranking. -/
theorem level_le_of_ranked {first : Float × Nat} {rest : List (Float × Nat)}
    (h : ranked row = first :: rest) : ∀ share ∈ row, level share ≤ level first.1 := by
  have hfirst : first.1 ∈ row := by
    refine List.mem_of_getElem? (i := first.2) (mem_ranked.mp ?_)
    rw [h]
    exact List.mem_cons_self
  intro share hshare
  obtain ⟨i, hi⟩ := List.getElem?_of_mem hshare
  have hmem : (share, i) ∈ ranked row := mem_ranked.mpr hi
  have hordered := Ranking.pairwise_rank (fun share => orderKey share.1) row.zipIdx
  rw [← ranked, h, List.pairwise_cons] at hordered
  rw [h] at hmem
  rcases List.mem_cons.mp hmem with rfl | hmem
  · exact le_refl _
  · exact level_le_of_orderKey_le (hnumbers share hshare) (hnumbers _ hfirst)
      (hordered.1 _ hmem)

/-- The first one of the ranking is the largest share, if it counts.  (Below that a ranking tells
zeros apart, which a comparison does not.) -/
theorem isLargest_of_ranked {j : Nat} {rest : List (Float × Nat)}
    (h : ranked row = (share, j) :: rest) (hcounts : counts share = true) :
    IsLargest row share j := by
  have hplace : row[j]? = some share := mem_ranked.mp (h ▸ List.mem_cons_self)
  have hshare := hnumbers share (List.mem_of_getElem? hplace)
  have hpos : 0 < level share := by
    rw [counts_iff_level hshare] at hcounts
    exact level_thresholds.1.trans hcounts
  obtain ⟨before, after, hsplit, hbefore⟩ := Ranking.exists_split_of_rank _ h
  refine ⟨hplace, fun other hother => ?_, fun k hk other hother => ?_⟩
  · rw [le_iff_level (hnumbers other hother) hshare]
    exact level_le_of_ranked hnumbers h other hother
  · have hother' := hnumbers other (List.mem_of_getElem? hother)
    rw [lt_iff_level hother' hshare]
    exact level_lt_of_orderKey_lt hother' hshare hpos (hbefore _ (mem_before hsplit hk hother))

/-! ### What it decides -/

/-- The largest share is all that counts in a row. -/
theorem choice_eq : choice row = match largest? row with
    | none => .dropped
    | some (share, j) =>
      if isFull share then .sure j else if counts share then .tossed share j else .dropped := by
  cases hranked : ranked row with
  | nil =>
    have hempty : row = [] := by
      refine List.eq_nil_iff_forall_not_mem.mpr fun share hshare => ?_
      obtain ⟨i, hi⟩ := List.getElem?_of_mem hshare
      have := mem_ranked.mpr hi
      simp [hranked] at this
    subst hempty
    rfl
  | cons first rest =>
    obtain ⟨share, j⟩ := first
    have hplace : row[j]? = some share := mem_ranked.mp (hranked ▸ List.mem_cons_self)
    have hshare := hnumbers share (List.mem_of_getElem? hplace)
    cases hlargest : largest? row with
    | none => simp [largest?_eq_none.mp hlargest] at hplace
    | some found =>
      obtain ⟨best, i⟩ := found
      have hbest := isLargest_of_largest? hnumbers hlargest
      rw [choice, hranked]
      by_cases hcounts : counts share = true
      · obtain ⟨rfl, rfl⟩ :=
          (isLargest_of_ranked hnumbers hranked hcounts).unique hnumbers hbest
        simp [choose, hcounts]
      · -- below what counts nothing is taken, whichever of the shares comes first
        have hnone : ∀ other ∈ row, counts other = false := fun other hother => by
          have hle : level other ≤ level share := level_le_of_ranked hnumbers hranked other hother
          rw [counts_iff_level hshare] at hcounts
          rw [← Bool.not_eq_true, counts_iff_level (hnumbers other hother)]
          omega
        have hbest' := hnone best hbest.mem
        rw [← hranked, choose_dropped fun e he =>
          hnone e.1 (List.mem_of_getElem? (mem_ranked.mp he))]
        simp [hbest', isFull_of_counts hbest']

end Numbers

/-- Whether the largest share of a row is split: it counts, and is not full. -/
def isSplit (row : List Float) : Bool :=
  (largest? row).any fun largest => counts largest.1 && !isFull largest.1

/-- What becomes of a row, for each draw that its coin may show, is decided by its largest share:
the share is taken if it is full, dropped if it does not count, and tossed for otherwise, where as
many draws win as its value is worth of all draws. -/
structure DecidedBy (row : List Float) (share : Float) (j : Nat) (outcome : UInt64 → Option Nat) :
    Prop where
  largest : IsLargest row share j
  taken : 1.0 - 1e-9 ≤ share → ∀ draw, outcome draw = some j
  dropped : share ≤ 1e-9 → ∀ draw, outcome draw = none
  tossed : 1e-9 < share → share < 1.0 - 1e-9 → ∃ q, toRat? share = some q ∧
    ∀ draw, outcome draw = if draw.toNat < ⌊q * 2 ^ 64⌋₊ then some j else none

/-- A share that is split has a value. -/
theorem exists_toRat?_of_split (h : share.isNaN = false) (hcounts : counts share = true)
    (hfull : isFull share = false) : ∃ q, toRat? share = some q := by
  obtain ⟨hpos, -, hfinite⟩ := level_thresholds
  rw [counts_iff_level h] at hcounts
  rw [← Bool.not_eq_true, isFull_iff_level h] at hfull
  exact exists_toRat?_of_level h (by omega) (by omega)

section Decided

variable (hnumbers : ∀ share ∈ row, share.isNaN = false)
include hnumbers

theorem tosses_choice : (choice row).tosses = if isSplit row then 1 else 0 := by
  have hchoice := choice_eq hnumbers
  cases hlargest : largest? row with
  | none =>
    simp only [hlargest] at hchoice
    simp [hchoice, isSplit, hlargest, Choice.tosses]
  | some found =>
    obtain ⟨share, j⟩ := found
    simp only [hlargest] at hchoice
    rw [hchoice, isSplit, hlargest, Option.any_some]
    cases isFull share <;> cases counts share <;> simp [Choice.tosses]

theorem decidedBy_choice {j : Nat} (h : largest? row = some (share, j)) :
    DecidedBy row share j (choice row).outcome := by
  have hlargest := isLargest_of_largest? hnumbers h
  have hshare := hnumbers share hlargest.mem
  have hchoice := choice_eq hnumbers
  simp only [h] at hchoice
  refine ⟨hlargest, fun hfull draw => ?_, fun hnone draw => ?_, fun hcounts hpart => ?_⟩
  · have hfull : isFull share = true := decide_eq_true hfull
    rw [hchoice, if_pos hfull]
    rfl
  · have hnone := (le_tolerance_iff hshare).mp hnone
    simp [hchoice, isFull_of_counts hnone, hnone, Choice.outcome]
  · have hcounts : counts share = true := decide_eq_true hcounts
    have hfull : isFull share = false := (lt_full_iff hshare).mp hpart
    obtain ⟨q, hq⟩ := exists_toRat?_of_split hshare hcounts hfull
    refine ⟨q, hq, fun draw => ?_⟩
    simp [hchoice, hfull, hcounts, Choice.outcome, UInt64.lt_iff_toNat_lt,
      toNat_chance hq hfull hcounts]

end Decided

theorem tosses_eq {rows : List (List Float)}
    (hnumbers : ∀ row ∈ rows, ∀ share ∈ row, share.isNaN = false) :
    tosses rows = rows.countP isSplit := by
  induction rows with
  | nil => rfl
  | cons row rows ih =>
    have hrow := tosses_choice (hnumbers row List.mem_cons_self)
    have hrest := ih fun row hrow => hnumbers row (List.mem_cons_of_mem _ hrow)
    rw [tosses] at hrest ⊢
    rw [List.map_cons, List.sum_cons, hrow, hrest, List.countP_cons, Nat.add_comm]

/-- **The largest share decides a row, and each split row has a draw of its own.**  Rounding rows
without NaN greedily, what becomes of a row is a function of the row and of one draw, the one after
those of the split rows before.  An empty row is dropped.  Any other goes by the first place of its
largest share: the packet is sent there if the share is full, dropped if the share does not count,
and otherwise sent there if the draw is below the share's part of all draws, and else dropped.  Draws
are taken for split rows only, one for each. -/
theorem greedy_byLargest {rows : List (List Float)}
    (hnumbers : ∀ row ∈ rows, ∀ share ∈ row, share.isNaN = false) (draws : Draws) :
    greedy rows draws =
      (rows.mapIdx fun i row =>
        (choice row).outcome (draws.stream (draws.used + (rows.take i).countP isSplit)),
        { draws with used := draws.used + rows.countP isSplit }) ∧
    ∀ row ∈ rows, row = [] ∧ (∀ draw, (choice row).outcome draw = none) ∨
      ∃ share j, largest? row = some (share, j) ∧ DecidedBy row share j (choice row).outcome := by
  refine ⟨?_, fun row hrow => ?_⟩
  · rw [greedy_eq, tosses_eq hnumbers]
    refine Prod.ext (List.ext_getElem (by simp) fun i hi hi' => ?_) rfl
    have htake : tosses (rows.take i) = (rows.take i).countP isSplit :=
      tosses_eq fun row hrow => hnumbers row (List.mem_of_mem_take hrow)
    have hi : i < rows.length := by simpa using hi
    simp [htake, hi]
  · cases hlargest : largest? row with
    | none =>
      obtain rfl := largest?_eq_none.mp hlargest
      exact .inl ⟨rfl, fun _ => rfl⟩
    | some found => exact .inr ⟨_, _, rfl, decidedBy_choice (hnumbers row hrow) hlargest⟩

/-- Two split rows, among them one with two largest shares, and rows that need no coin. -/
def mixedRows : List (List Float) :=
  [[0.3, 0.6, 0.6], [], [0.25, 1.0], [-0.0, 0.0], [0.5, 0.4]]

/-- Draws from the middle. -/
def middle : Draws := .ofList [9223372036854775808, 9223372036854775808]

/-- Of two coins for the split rows the first is won and the second lost. -/
theorem greedy_byLargest_mixedRows :
    (∀ row ∈ mixedRows, ∀ share ∈ row, share.isNaN = false) ∧
    greedy mixedRows middle =
      ([some 1, none, some 1, none, none], { middle with used := middle.used + 2 }) ∧
    DecidedBy [0.3, 0.6, 0.6] 0.6 1 (choice [0.3, 0.6, 0.6]).outcome := by
  have hnumbers : ∀ row ∈ mixedRows, ∀ share ∈ row, share.isNaN = false := by decide +kernel
  have hlargest : largest? [0.3, 0.6, 0.6] = some (0.6, 1) := by decide +kernel
  obtain ⟨hgreedy, hdecided⟩ := greedy_byLargest hnumbers middle
  refine ⟨hnumbers, hgreedy.trans (Prod.ext (by decide +kernel) rfl), ?_⟩
  rcases hdecided [0.3, 0.6, 0.6] (by simp [mixedRows]) with ⟨hempty, -⟩ | ⟨share, j, h, hdecidedBy⟩
  · cases hempty
  · obtain ⟨rfl, rfl⟩ : 0.6 = share ∧ 1 = j := by simpa using hlargest.symm.trans h
    exact hdecidedBy

end Multipath.Rounding
