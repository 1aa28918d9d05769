import Multipath.Batch.Assignment
import Multipath.Proofs.Config.Bounds
import Multipath.Proofs.Time.Millis

/-!
# Drawn deadlines and their range

Both bounds of the settings are cut to whole milliseconds before a deadline is drawn between them.
What is drawn stays below the upper bound, but falls short of the lower one by what was cut off from
it, unless more than the least number is drawn.

* `Draws.exists_below`: every number below a bound is drawn by some draw.
* `BatchConfig.CanDraw`, `exists_drawDeadline_iff`: the whole numbers that the generator draws.
* `BatchConfig.Allows`: the deadlines that the settings allow.
* `Scheduler.fresh_allowed_iff`: which settings keep the generator to what they allow.
-/

namespace Multipath

/-! ### Draws -/

namespace Draws

/-- A draw that is scaled to `m`. -/
theorem exists_below {m n : Nat} (hm : m < n) (hn : n ≤ 2 ^ 64) :
    ∃ d : Draws, (d.below n).1 = m := by
  -- the least draw that is scaled to no less than `m`
  obtain ⟨w, hw⟩ : ∃ w, w = (m * 2 ^ 64 + (n - 1)) / n := ⟨_, rfl⟩
  have hlow : m * 2 ^ 64 ≤ w * n := by
    have := Nat.div_add_mod' (m * 2 ^ 64 + (n - 1)) n
    have := Nat.mod_lt (m * 2 ^ 64 + (n - 1)) (Nat.zero_lt_of_lt hm)
    rw [hw]
    omega
  have hhigh : w * n < (m + 1) * 2 ^ 64 := by
    have := Nat.div_mul_le_self (m * 2 ^ 64 + (n - 1)) n
    rw [hw]
    omega
  have hword : w < 2 ^ 64 := by
    have : (m + 1) * 2 ^ 64 ≤ 2 ^ 64 * n := by
      rw [Nat.mul_comm]
      exact Nat.mul_le_mul_left _ hm
    exact Nat.lt_of_mul_lt_mul_right (hhigh.trans_le this)
  refine ⟨⟨fun _ => UInt64.ofNat w, 0⟩, ?_⟩
  change ((UInt64.ofNat w).toNat * n) >>> 64 = m
  rw [UInt64.toNat_ofNat_of_lt' hword, Nat.shiftRight_eq_div_pow]
  exact Nat.div_eq_of_lt_le hlow hhigh

section Times

variable {α : Type} {f : Draws → α × Draws}

theorem length_times (n : Nat) (d : Draws) : (times n f d).1.length = n := by
  induction n generalizing d with
  | zero => rfl
  | succ n ih => exact congrArg (· + 1) (ih (f d).2)

theorem exists_of_mem_times {n : Nat} {d : Draws} {a : α} (h : a ∈ (times n f d).1) :
    ∃ d', (f d').1 = a := by
  induction n generalizing d with
  | zero => cases h
  | succ n ih =>
    rcases List.mem_cons.mp h with rfl | hrest
    · exact ⟨d, rfl⟩
    · exact ih hrest

end Times

end Draws

/-! ### Ranges -/

namespace BatchConfig

/-- The whole numbers of milliseconds that can be drawn: up to the upper bound, without it, or else
the lower bound. -/
def CanDraw (b : BatchConfig) (n : UInt64) : Prop :=
  b.minDeadline.wholeMillis ≤ n ∧
    (n < b.maxDeadline.wholeMillis ∨
      n = b.minDeadline.wholeMillis ∧ b.maxDeadline.wholeMillis ≤ b.minDeadline.wholeMillis)

/-- A deadline between the bounds of the settings. -/
def Allows (b : BatchConfig) (x : Float) : Prop :=
  ∃ q, Binary.toRat? x = some q ∧ b.minDeadline.inMillis ≤ q ∧ q ≤ b.maxDeadline.inMillis

variable {b : BatchConfig}

/-- The least number can be drawn. -/
theorem canDraw_least : b.CanDraw b.minDeadline.wholeMillis := by
  refine ⟨UInt64.le_refl _, ?_⟩
  rcases UInt64.lt_or_le b.minDeadline.wholeMillis b.maxDeadline.wholeMillis with hlt | hle
  · exact .inl hlt
  · exact .inr ⟨rfl, hle⟩

/-- **What the generator draws.**  A deadline is drawn exactly if it is the double for one of the
numbers between the bounds. -/
theorem exists_drawDeadline_iff {x : Float} :
    (∃ draws, (Scheduler.drawDeadline b draws).1 = x) ↔ ∃ n, b.CanDraw n ∧ n.toFloat = x := by
  unfold Scheduler.drawDeadline CanDraw
  generalize b.minDeadline.wholeMillis = least
  generalize b.maxDeadline.wholeMillis = greatest
  by_cases hempty : greatest ≤ least
  · -- no choice
    have hlast : ∀ n, (least ≤ n ∧ (n < greatest ∨ n = least ∧ greatest ≤ least)) ↔ n = least := by
      intro n
      refine ⟨fun ⟨hle, h⟩ => h.elim (fun hlt => ?_) (·.1), ?_⟩
      · exact absurd (UInt64.lt_of_lt_of_le hlt hempty) (UInt64.not_lt.mpr hle)
      · rintro rfl
        exact ⟨UInt64.le_refl _, .inr ⟨rfl, hempty⟩⟩
    simp only [hlast]
    simp [hempty]
  · have hlt : least.toNat < greatest.toNat := UInt64.lt_iff_toNat_lt.mp (UInt64.not_le.mp hempty)
    have hwidth : (greatest - least).toNat = greatest.toNat - least.toNat :=
      UInt64.toNat_sub_of_le _ _ (UInt64.le_iff_toNat_le.mpr hlt.le)
    have hbound := greatest.toNat_lt
    have hsum : ∀ k < greatest.toNat - least.toNat,
        (least + UInt64.ofNat k).toNat = least.toNat + k := by
      intro k hk
      rw [UInt64.toNat_add, UInt64.toNat_ofNat_of_lt' (show k < 2 ^ 64 by omega),
        Nat.mod_eq_of_lt (by omega)]
    simp only [hempty, if_false, hwidth, and_false, or_false, UInt64.le_iff_toNat_le,
      UInt64.lt_iff_toNat_lt]
    refine ⟨?_, ?_⟩
    · rintro ⟨draws, rfl⟩
      have hk := Draws.below_lt (show 0 < greatest.toNat - least.toNat by omega) draws
      exact ⟨_, ⟨by rw [hsum _ hk]; omega, by rw [hsum _ hk]; omega⟩, rfl⟩
    · rintro ⟨n, ⟨hlow, hhigh⟩, rfl⟩
      obtain ⟨draws, hdraws⟩ := Draws.exists_below
        (show n.toNat - least.toNat < greatest.toNat - least.toNat by omega) (by omega)
      refine ⟨draws, congrArg UInt64.toFloat (UInt64.toNat_inj.mp ?_)⟩
      rw [hdraws, hsum _ (by omega)]
      omega

/-- The bounds of what is drawn, if the upper one is no longer than a double is exact. -/
theorem CanDraw.bounds {n : UInt64} (h : b.CanDraw n)
    (hle : b.minDeadline.nanos ≤ b.maxDeadline.nanos)
    (hmax : b.maxDeadline.nanos < 2 ^ 53 * 1000000) :
    b.minDeadline.nanos / 1000000 ≤ n.toNat ∧ n.toNat ≤ b.maxDeadline.nanos / 1000000 ∧
      Binary.toRat? n.toFloat = some (n.toNat : Rat) := by
  obtain ⟨hlow, hhigh⟩ := h
  have hcut : b.minDeadline.nanos / 1000000 ≤ b.maxDeadline.nanos / 1000000 :=
    Nat.div_le_div_right hle
  have hbits : b.maxDeadline.nanos / 1000000 < 2 ^ 53 :=
    (Nat.div_lt_iff_lt_mul (by decide)).mpr hmax
  rw [UInt64.le_iff_toNat_le, Duration.toNat_wholeMillis (by omega)] at hlow
  have hupper : n.toNat ≤ b.maxDeadline.nanos / 1000000 := by
    rcases hhigh with hlt | ⟨rfl, -⟩
    · rw [UInt64.lt_iff_toNat_lt, Duration.toNat_wholeMillis (by omega)] at hlt
      exact hlt.le
    · rw [Duration.toNat_wholeMillis (by omega)]
      exact hcut
  exact ⟨hlow, hupper, Binary.toRat?_toFloat (hupper.trans_lt hbits)⟩

end BatchConfig

/-! ### Batches -/

namespace Scheduler

/-- The deadlines of a batch that are drawn for it, which come first. -/
def freshDeadlines (s : Scheduler) (size : Nat) (now : Instant) : List Float :=
  (s.drawDeadlines size now).1.take (size - s.waiting.length)

theorem freshDeadlines_eq (s : Scheduler) (size : Nat) (now : Instant) :
    s.freshDeadlines size now =
      (Draws.times (size - s.waiting.length) (drawDeadline s.batch) s.draws).1 :=
  List.take_left' (Draws.length_times _ _)

/-- **Drawn deadlines stay in their range if it begins with a whole millisecond.**  Of what the
settings allow, a fresh deadline may miss less than a millisecond at the lower bound and nothing at
the upper one, and no outcome of the draws misses anything exactly if nothing is drawn or nothing is
cut off from the lower bound. -/
theorem fresh_allowed_iff {c : Config} (hvalid : c.validate = .ok ())
    (hmax : c.batch.maxDeadline.nanos < 2 ^ 53 * 1000000) {s : Scheduler}
    (hbatch : s.batch = c.batch) (size : Nat) (now : Instant) :
    (∀ draws, ∀ x ∈ { s with draws }.freshDeadlines size now,
      ∃ q, Binary.toRat? x = some q ∧
        c.batch.minDeadline.inMillis - 1 < q ∧ q ≤ c.batch.maxDeadline.inMillis) ∧
    ((∀ draws, ∀ x ∈ { s with draws }.freshDeadlines size now, c.batch.Allows x) ↔
      size ≤ s.waiting.length ∨ 1000000 ∣ c.batch.minDeadline.nanos) := by
  have hle := Config.deadlines_of_validate hvalid
  have hdrawn : ∀ draws, ∀ x ∈ { s with draws }.freshDeadlines size now, ∃ n : UInt64,
      n.toFloat = x ∧ c.batch.minDeadline.nanos / 1000000 ≤ n.toNat ∧
        n.toNat ≤ c.batch.maxDeadline.nanos / 1000000 ∧
        Binary.toRat? x = some (n.toNat : Rat) := by
    intro draws x hx
    rw [freshDeadlines_eq] at hx
    obtain ⟨n, hn, rfl⟩ :=
      BatchConfig.exists_drawDeadline_iff.mp (Draws.exists_of_mem_times hx)
    rw [hbatch] at hn
    exact ⟨n, rfl, hn.bounds hle hmax⟩
  have hupper : ∀ n : Nat, n ≤ c.batch.maxDeadline.nanos / 1000000 →
      (n : Rat) ≤ c.batch.maxDeadline.inMillis := fun n hn =>
    (Nat.cast_le.mpr hn).trans c.batch.maxDeadline.floor_le_inMillis
  refine ⟨fun draws x hx => ?_, fun hall => ?_, fun hwhole draws x hx => ?_⟩
  · obtain ⟨n, -, hlow, hhigh, hvalue⟩ := hdrawn draws x hx
    refine ⟨_, hvalue, ?_, hupper _ hhigh⟩
    have hcast : ((c.batch.minDeadline.nanos / 1000000 : Nat) : Rat) ≤ (n.toNat : Rat) :=
      Nat.cast_le.mpr hlow
    linarith [c.batch.minDeadline.inMillis_lt_floor]
  · -- the draw of the least number is the one to look at
    refine or_iff_not_imp_left.mpr fun hsize => ?_
    obtain ⟨k, hk⟩ : ∃ k, size - s.waiting.length = k + 1 :=
      ⟨size - s.waiting.length - 1, by omega⟩
    obtain ⟨draws, hleast⟩ :=
      BatchConfig.exists_drawDeadline_iff.mpr ⟨_, BatchConfig.canDraw_least (b := s.batch), rfl⟩
    have hmem : s.batch.minDeadline.wholeMillis.toFloat ∈
        { s with draws }.freshDeadlines size now := by
      rw [freshDeadlines_eq]
      change _ ∈ (Draws.times (size - s.waiting.length) (drawDeadline s.batch) draws).1
      rw [hk, ← hleast]
      exact List.mem_cons_self
    obtain ⟨q, hq, hlow, -⟩ := hall draws _ hmem
    obtain ⟨-, -, hvalue⟩ := (BatchConfig.canDraw_least (b := c.batch)).bounds hle hmax
    rw [hbatch, hvalue, Duration.toNat_wholeMillis (by omega)] at hq
    obtain rfl := Option.some.inj hq
    exact Duration.inMillis_le_floor_iff.mp hlow
  · obtain ⟨n, -, hlow, hhigh, hvalue⟩ := hdrawn draws x hx
    refine ⟨_, hvalue, ?_, hupper _ hhigh⟩
    rcases hwhole with hnone | hdvd
    · rw [freshDeadlines_eq] at hx
      change x ∈ (Draws.times (size - s.waiting.length) (drawDeadline s.batch) draws).1 at hx
      rw [Nat.sub_eq_zero_of_le hnone] at hx
      cases hx
    · exact (Duration.inMillis_le_floor_iff.mpr hdvd).trans (Nat.cast_le.mpr hlow)

/-- Settings that leave deadlines no choice, and no whole millisecond. -/
def halfMillisecond : Config where
  batch := { minDeadline := ⟨10500000⟩, maxDeadline := ⟨10500000⟩ }

theorem validate_halfMillisecond : halfMillisecond.validate = .ok () :=
  Config.validate_eq_ok.mpr (Option.isNone_iff_eq_none.mp (by decide +kernel))

/-- A scheduler with these settings. -/
def hasty : Scheduler := .new {} halfMillisecond.batch ⟨1⟩ ⟨0⟩ none default (.ofList [])

/-- It keeps to its upper bound, and does not always keep to its lower one. -/
theorem fresh_allowed_iff_hasty :
    halfMillisecond.validate = .ok () ∧
    halfMillisecond.batch.maxDeadline.nanos < 2 ^ 53 * 1000000 ∧
    hasty.batch = halfMillisecond.batch ∧
    (∀ draws, ∀ x ∈ { hasty with draws }.freshDeadlines 1 ⟨0⟩,
      ∃ q, Binary.toRat? x = some q ∧
        halfMillisecond.batch.minDeadline.inMillis - 1 < q ∧
          q ≤ halfMillisecond.batch.maxDeadline.inMillis) ∧
    ¬ ∀ draws, ∀ x ∈ { hasty with draws }.freshDeadlines 1 ⟨0⟩, halfMillisecond.batch.Allows x := by
  have hmax : halfMillisecond.batch.maxDeadline.nanos < 2 ^ 53 * 1000000 := by decide
  obtain ⟨hrange, hiff⟩ := fresh_allowed_iff validate_halfMillisecond hmax (s := hasty) rfl 1 ⟨0⟩
  exact ⟨validate_halfMillisecond, hmax, rfl, hrange, fun hall => absurd (hiff.mp hall) (by decide)⟩

/-- What it draws is ten milliseconds, half a millisecond less than the settings allow. -/
theorem fresh_below_least :
    halfMillisecond.validate = .ok () ∧ hasty.batch = halfMillisecond.batch ∧
    hasty.freshDeadlines 1 ⟨0⟩ = [10.0] ∧ Binary.toRat? 10.0 = some 10 ∧
    ¬ halfMillisecond.batch.Allows 10.0 := by
  have hten : Binary.toRat? 10.0 = some 10 := by decide +kernel
  refine ⟨validate_halfMillisecond, rfl, by decide +kernel, hten, ?_⟩
  rintro ⟨q, hq, hlow, -⟩
  obtain rfl := Option.some.inj (hten.symm.trans hq)
  norm_num [halfMillisecond, Duration.inMillis] at hlow

end Scheduler

end Multipath
