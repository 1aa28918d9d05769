import Mathlib.Data.FinEnum
import Mathlib.Algebra.BigOperators.Field
import Mathlib.Algebra.BigOperators.Fin
import Multipath.Proofs.Batch.Rounding

/-!
# Greedy rounding on average

A mean over all sequences of as many draws as there are packets.  Each row has at most one draw,
and no two rows share one, so the mean of a sum over the rows is a sum of means over one draw.

* `Draws.mean`, `Draws.mean_word`: means over draws, and over one of them.
* `Choice.mean`: what a row is worth on average.
* `mean_greedy`: what a rounded matrix is worth on average.
-/

namespace Multipath

open Finset

namespace Draws

/-- The mean over all sequences of `n` draws. -/
def mean (n : Nat) (f : Draws → Rat) : Rat :=
  (∑ w : Fin n → UInt64, f (.ofList (List.ofFn w))) / (2 ^ 64) ^ n

theorem card_toNat_lt {m : Nat} (h : m ≤ 2 ^ 64) : #{a : UInt64 | a.toNat < m} = m := by
  conv_rhs => rw [← card_range m]
  refine card_bij (fun a _ => a.toNat) (fun a ha => ?_) (fun a _ b _ hab => ?_) fun k hk => ?_
  · exact mem_range.mpr (mem_filter.mp ha).2
  · exact UInt64.toNat_inj.mp hab
  · have hk : k < m := mem_range.mp hk
    have hnat : (UInt64.ofNat k).toNat = k := UInt64.toNat_ofNat_of_lt' (lt_of_lt_of_le hk h)
    exact ⟨.ofNat k, mem_filter.mpr ⟨mem_univ _, by rwa [hnat]⟩, hnat⟩

theorem card_word : Fintype.card UInt64 = 2 ^ 64 := by
  rw [← card_univ, ← card_toNat_lt (le_refl (2 ^ 64)), filter_true_of_mem]
  exact fun a _ => a.toNat_lt

theorem card_lt (t : UInt64) : #{a : UInt64 | a < t} = t.toNat := by
  simp only [UInt64.lt_iff_toNat_lt]
  exact card_toNat_lt t.toNat_lt.le

theorem mean_congr {n : Nat} {f g : Draws → Rat}
    (h : ∀ w : Fin n → UInt64, f (.ofList (List.ofFn w)) = g (.ofList (List.ofFn w))) :
    mean n f = mean n g := by
  rw [mean, mean, sum_congr rfl fun w _ => h w]

theorem mean_sum (n : Nat) {ι : Type} (s : Finset ι) (f : ι → Draws → Rat) :
    mean n (fun d => ∑ i ∈ s, f i d) = ∑ i ∈ s, mean n (f i) := by
  simp only [mean]
  rw [sum_comm, sum_div]

theorem stream_ofFn {n : Nat} (w : Fin n → UInt64) {k : Nat} (hk : k < n) :
    (Draws.ofList (List.ofFn w)).stream k = w ⟨k, hk⟩ := by
  simp [Draws.ofList, hk]

/-- What depends on one draw only has the mean over that draw. -/
theorem mean_word {n k : Nat} (hk : k < n) (g : UInt64 → Rat) :
    mean n (fun d => g (d.stream k)) = (∑ a, g a) / 2 ^ 64 := by
  -- The other draws contribute a factor of 1 each.
  have hword : ∀ w : Fin n → UInt64, g ((ofList (List.ofFn w)).stream k)
      = ∏ i, if i = ⟨k, hk⟩ then g (w i) else 1 := by
    intro w
    rw [stream_ofFn w hk, prod_ite_eq' univ (⟨k, hk⟩ : Fin n) fun i => g (w i)]
    simp
  have hfactor : ∀ i : Fin n, (∑ a : UInt64, if i = ⟨k, hk⟩ then g a else 1) / 2 ^ 64
      = if i = ⟨k, hk⟩ then (∑ a, g a) / 2 ^ 64 else 1 := by
    intro i
    split
    · rfl
    · rw [sum_const, card_univ, card_word]
      norm_num
  calc mean n (fun d => g (d.stream k))
      = (∏ i : Fin n, ∑ a : UInt64, if i = ⟨k, hk⟩ then g a else 1) / (2 ^ 64) ^ n := by
        rw [mean, sum_congr rfl fun w _ => hword w, Fintype.prod_sum]
    _ = ∏ i : Fin n, (∑ a : UInt64, if i = ⟨k, hk⟩ then g a else 1) / 2 ^ 64 := by
        rw [prod_div_distrib, prod_const, card_univ, Fintype.card_fin]
    _ = (∑ a, g a) / 2 ^ 64 := by
        rw [prod_congr rfl fun i _ => hfactor i, prod_ite_eq']
        simp

end Draws

namespace Rounding

/-- What a row is worth on average, if a packet on path `j` is worth `f j`. -/
def Choice.mean (f : Nat → Rat) : Choice → Rat
  | dropped => 0
  | sure j => f j
  | tossed share j => ((share * Draws.scale).toUInt64.toNat : Rat) / 2 ^ 64 * f j

theorem sum_outcome (c : Choice) (f : Nat → Rat) :
    (∑ draw, (c.outcome draw).elim 0 f) / 2 ^ 64 = c.mean f := by
  have hconst : ∀ q : Rat, (∑ _a : UInt64, q) / 2 ^ 64 = q := by
    intro q
    rw [sum_const, card_univ, Draws.card_word, nsmul_eq_mul]
    push_cast
    exact mul_div_cancel_left₀ q (by norm_num)
  cases c with
  | dropped => exact hconst 0
  | sure j => exact hconst (f j)
  | tossed share j =>
    have hsum : ∑ draw, ((Choice.tossed share j).outcome draw).elim 0 f
        = (share * Draws.scale).toUInt64.toNat * f j := by
      rw [← Draws.card_lt, ← nsmul_eq_mul, ← sum_const, sum_filter]
      refine sum_congr rfl fun draw _ => ?_
      rw [Choice.outcome]
      split <;> rfl
    rw [hsum, Choice.mean]
    ring

end Rounding

namespace Policy

/-- What a policy is worth, if a packet on path `j` is worth `f j`. -/
def worth (f : Nat → Rat) (policy : Policy) : Rat := (policy.map fun c => c.elim 0 f).sum

end Policy

namespace Rounding

/-- No more coins are tossed than there are rows. -/
theorem tosses_le (rows : List (List Float)) : tosses rows ≤ rows.length := by
  induction rows with
  | nil => exact le_refl 0
  | cons row rows ih =>
    have hrow : (choice row).tosses ≤ 1 := by cases choice row <;> simp [Choice.tosses]
    simp only [tosses, List.map_cons, List.sum_cons, List.length_cons] at ih ⊢
    omega

/-- A rounded matrix is worth on average what its rows are. -/
theorem mean_greedy (f : Nat → Rat) (rows : List (List Float)) {n : Nat} (hn : rows.length ≤ n) :
    Draws.mean n (fun d => Policy.worth f (greedy rows d).1)
      = ∑ i ∈ range rows.length, (choice (rows.getD i [])).mean f := by
  have hlist : ∀ (m : Nat) (g : Nat → Rat), ((List.range m).map g).sum = ∑ i ∈ range m, g i := by
    intro m g
    rw [← List.sum_toFinset g List.nodup_range, List.toFinset_range]
  calc Draws.mean n (fun d => Policy.worth f (greedy rows d).1)
      = Draws.mean n fun d => ∑ i ∈ range rows.length,
          ((choice (rows.getD i [])).outcome (d.stream (tosses (rows.take i)))).elim 0 f := by
        refine Draws.mean_congr fun w => ?_
        rw [greedy_eq, Policy.worth, List.map_map, hlist]
        simp only [Function.comp_apply, Draws.ofList, Nat.zero_add]
    _ = ∑ i ∈ range rows.length, (choice (rows.getD i [])).mean f := by
        rw [Draws.mean_sum]
        refine sum_congr rfl fun i hi => ?_
        have htosses := tosses_le (rows.take i)
        have hi : i < rows.length := mem_range.mp hi
        rw [List.length_take] at htosses
        rw [Draws.mean_word (by omega) fun draw =>
          ((choice (rows.getD i [])).outcome draw).elim 0 f, sum_outcome]

end Rounding

end Multipath
