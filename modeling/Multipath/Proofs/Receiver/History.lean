import Mathlib.Data.List.Pairwise
import Multipath.Receiver.History

/-!
# The receive history as a set

A history stands for the set of numbers its blocks cover.  `Separated` is the form in which the
blocks are kept: none is empty, they descend, and between two of them at least one number is
missing.

* `covers_addTo`, `separated_addTo`: adding a new number adds just that number, and keeps the form.
* `mem_forgetUpTo`, `separated_forgetUpTo`: forgetting keeps the members above the limit, and the
  form.
* `mem_ranges_iff`: separated blocks are the maximal blocks of the set they cover, so the set
  determines them.
* `lowest_le`, `le_highest`: the ends of the list are the ends of the set.
-/

namespace Multipath

namespace PacketNumber

theorem val_inj {a b : PacketNumber} : a.val = b.val ↔ a = b :=
  ⟨ext, fun h => h ▸ rfl⟩

/-- There is a packet number for every natural number below some packet number. -/
theorem exists_val {m : Nat} {n : PacketNumber} (h : m ≤ n.val) : ∃ k : PacketNumber, k.val = m :=
  ⟨⟨m, Nat.lt_of_le_of_lt h n.bounded⟩, rfl⟩

end PacketNumber

/-- `n` lies in `r`. -/
theorem AckRange.contains_iff {r : AckRange} {n : PacketNumber} :
    r.contains n = true ↔ r.first.val ≤ n.val ∧ n.val ≤ r.last.val := by
  simp [AckRange.contains, PacketNumber.le_def]

/-- `r` is a maximal block of `S`: not empty, inside `S`, and without a neighbour in `S`. -/
structure IsBlock (S : PacketNumber → Prop) (r : AckRange) : Prop where
  nonempty : r.first.val ≤ r.last.val
  inside : ∀ n, r.contains n → S n
  below : ∀ n : PacketNumber, n.val + 1 = r.first.val → ¬ S n
  above : ∀ n : PacketNumber, r.last.val + 1 = n.val → ¬ S n

namespace History

variable {l : List AckRange} {h h' : History} {m n : PacketNumber}

/-! ### The numbers blocks cover -/

/-- Some block of the list contains `n`. -/
def Covers (l : List AckRange) (n : PacketNumber) : Prop := ∃ r ∈ l, r.contains n = true

theorem covers_nil : ¬ Covers [] n := by
  rintro ⟨r, hr, -⟩
  exact List.not_mem_nil hr

theorem covers_cons {r : AckRange} :
    Covers (r :: l) n ↔ (r.first.val ≤ n.val ∧ n.val ≤ r.last.val) ∨ Covers l n := by
  simp only [Covers, List.mem_cons, exists_eq_or_imp, AckRange.contains_iff]

theorem mem_iff : n ∈ h ↔ Covers h.ranges n := by
  show h.contains n = true ↔ _
  simp only [contains, List.any_eq_true, Covers]

/-- Blocks in descending order, none of them empty, with a number missing between any two. -/
structure Separated (l : List AckRange) : Prop where
  nonempty : ∀ r ∈ l, r.first.val ≤ r.last.val
  apart : l.Pairwise fun high low => low.last.val + 1 < high.first.val

theorem separated_nil : Separated [] := ⟨by simp, .nil⟩

theorem separated_cons {r : AckRange} :
    Separated (r :: l) ↔
      r.first.val ≤ r.last.val ∧ (∀ s ∈ l, s.last.val + 1 < r.first.val) ∧ Separated l := by
  constructor
  · rintro ⟨hne, hap⟩
    obtain ⟨hr, hl⟩ := List.pairwise_cons.mp hap
    exact ⟨hne r (by simp), hr, ⟨fun s hs => hne s (by simp [hs]), hl⟩⟩
  · rintro ⟨hr, hap, hl⟩
    refine ⟨fun s hs => ?_, List.pairwise_cons.mpr ⟨hap, hl.apart⟩⟩
    rcases List.mem_cons.mp hs with rfl | hs
    · exact hr
    · exact hl.nonempty s hs

/-- Below a separated list's first block everything covered is at least two below its lower
end. -/
theorem Separated.covered_lt {r : AckRange} (hs : Separated (r :: l)) (hn : Covers l n) :
    n.val + 1 < r.first.val := by
  obtain ⟨-, hap, -⟩ := separated_cons.mp hs
  obtain ⟨s, hsl, hc⟩ := hn
  have := hap s hsl
  have := (AckRange.contains_iff.mp hc).2
  omega

/-- Blocks whose members are all two or more below `b` lie two or more below `b`. -/
theorem Separated.last_lt {b : Nat} (hs : Separated l)
    (hb : ∀ m, Covers l m → m.val + 1 < b) : ∀ r ∈ l, r.last.val + 1 < b := by
  intro r hr
  exact hb r.last ⟨r, hr, AckRange.contains_iff.mpr ⟨hs.nonempty r hr, Nat.le_refl _⟩⟩

/-! ### Adding a number -/

/-- A number that is added is covered, and so is what was covered before; nothing else is. -/
theorem covers_addTo (hs : Separated l) (hn : ¬ Covers l n) :
    Covers (addTo n l) m ↔ m = n ∨ Covers l m := by
  rw [← PacketNumber.val_inj]
  fun_induction addTo n l with
  | case1 => simp [AckRange.single, covers_cons, covers_nil]; omega
  | case2 r rest hlt => grind [covers_cons, AckRange.single]
  | case3 r rest hlt heq => grind [covers_cons, separated_cons]
  | case4 r hlt heq hnext => grind [covers_cons, covers_nil, separated_cons]
  | case5 r hlt heq hnext s below hs' => grind [covers_cons, separated_cons]
  | case6 r hlt heq hnext s below hs' => grind [covers_cons, separated_cons]
  | case7 r rest hlt heq hnext ih =>
      obtain ⟨-, -, hs'⟩ := separated_cons.mp hs
      rw [covers_cons, not_or] at hn
      rw [covers_cons, covers_cons, ih hs' hn.2, or_left_comm]

theorem separated_addTo (hs : Separated l) (hn : ¬ Covers l n) : Separated (addTo n l) := by
  fun_induction addTo n l with
  | case1 => exact separated_cons.mpr ⟨Nat.le_refl _, by simp, separated_nil⟩
  | case2 r rest hlt =>
      obtain ⟨hr, hap, -⟩ := separated_cons.mp hs
      refine separated_cons.mpr ⟨Nat.le_refl _, fun t ht => ?_, hs⟩
      rcases List.mem_cons.mp ht with rfl | ht
      · exact hlt
      · have := hap t ht
        simp only [AckRange.single]
        omega
  | case3 r rest hlt heq =>
      -- `n` extends the block upwards
      obtain ⟨hr, hap, hs⟩ := separated_cons.mp hs
      exact separated_cons.mpr ⟨by simp only; omega, hap, hs⟩
  | case4 r hlt heq hnext =>
      obtain ⟨hr, -, -⟩ := separated_cons.mp hs
      exact separated_cons.mpr ⟨by simp only; omega, by simp, separated_nil⟩
  | case5 r hlt heq hnext s below hs' =>
      -- `n` closes the gap to the block below
      obtain ⟨hr, hap, hs⟩ := separated_cons.mp hs
      obtain ⟨hle, hap', hs⟩ := separated_cons.mp hs
      have := hap s (by simp)
      exact separated_cons.mpr ⟨by simp only; omega, hap', hs⟩
  | case6 r hlt heq hnext s below hs' =>
      obtain ⟨hr, hap, hs⟩ := separated_cons.mp hs
      obtain ⟨hle, hap', -⟩ := separated_cons.mp hs
      have := hap s (by simp)
      refine separated_cons.mpr ⟨by simp only; omega, fun t ht => ?_, hs⟩
      rcases List.mem_cons.mp ht with rfl | ht
      · simp only; omega
      · have := hap' t ht
        simp only
        omega
  | case7 r rest hlt heq hnext ih =>
      obtain ⟨hr, hap, hs'⟩ := separated_cons.mp hs
      rw [covers_cons, not_or] at hn
      have hrest := ih hs' hn.2
      refine separated_cons.mpr ⟨hr, hrest.last_lt fun m hm => ?_, hrest⟩
      -- what the rest covers now is `n` itself or was covered before
      rcases (covers_addTo hs' hn.2).mp hm with rfl | hm
      · omega
      · exact hs.covered_lt hm

/-! ### Recording -/

/-- A recorded packet is one more member, and only a new one is recorded. -/
theorem record_new (hs : Separated h.ranges) (hrec : h.record n = .ok (true, h')) :
    n ∉ h ∧ Separated h'.ranges ∧ h'.limit = h.limit ∧ ∀ m, m ∈ h' ↔ m = n ∨ m ∈ h := by
  unfold record at hrec
  split at hrec
  · simp at hrec
  · rename_i hn
    rw [mem_iff] at hn
    simp only at hrec
    split at hrec
    · simp at hrec
    · simp only [Except.ok.injEq, Prod.mk.injEq, true_and] at hrec
      subst hrec
      refine ⟨by rwa [mem_iff], separated_addTo hs hn, rfl, fun m => ?_⟩
      rw [mem_iff, mem_iff]
      exact covers_addTo hs hn

/-! ### Forgetting -/

/-- Clipping keeps a block that reaches beyond `n`, with the part above `n`. -/
theorem clip?_eq_some {r s : AckRange} :
    clip? n r = some s ↔
      n.val < r.last.val ∧ s.first.val = max r.first.val (n.val + 1) ∧ s.last = r.last := by
  rw [clip?]
  split <;> rename_i hlast
  · rw [PacketNumber.le_def] at hlast
    simp only [reduceCtorEq, false_iff]
    omega
  · -- there is a number after `n`, for the block goes on beyond `n`
    have hlt : n < r.last := Nat.lt_of_not_le hlast
    have hnext := PacketNumber.next_val hlt
    cases s with
    | mk first last =>
      rw [PacketNumber.lt_def] at hlt
      split <;> rename_i hfirst <;> rw [PacketNumber.le_def] at hfirst
      · simp only [Option.some.injEq, AckRange.mk.injEq, ← PacketNumber.val_inj, hnext]
        omega
      · cases r
        simp only [Option.some.injEq, AckRange.mk.injEq, ← PacketNumber.val_inj] at *
        omega

theorem mem_forgetUpTo : m ∈ h.forgetUpTo n ↔ m ∈ h ∧ n.val < m.val := by
  simp only [mem_iff, forgetUpTo, Covers, List.mem_filterMap, AckRange.contains_iff, clip?_eq_some]
  constructor
  · rintro ⟨s, ⟨r, hr, -, hfirst, hlast⟩, hm⟩
    rw [hfirst, hlast] at hm
    exact ⟨⟨r, hr, by omega⟩, by omega⟩
  · rintro ⟨⟨r, hr, hm⟩, hlt⟩
    obtain ⟨first, hfirst⟩ : ∃ k : PacketNumber, k.val = max r.first.val (n.val + 1) :=
      PacketNumber.exists_val (n := m) (by omega)
    exact ⟨⟨first, r.last⟩, ⟨r, hr, by omega, hfirst, rfl⟩, by simp only; omega⟩

theorem separated_forgetUpTo (hs : Separated h.ranges) : Separated (h.forgetUpTo n).ranges := by
  constructor
  · intro s hsm
    obtain ⟨r, hr, hclip⟩ := List.mem_filterMap.mp hsm
    obtain ⟨hlt, hfirst, hlast⟩ := clip?_eq_some.mp hclip
    have := hs.nonempty r hr
    rw [hfirst, hlast]
    omega
  · refine List.pairwise_filterMap.mpr (hs.apart.imp fun {high low} hgap s hs' t ht => ?_)
    obtain ⟨-, hfirst, -⟩ := clip?_eq_some.mp hs'
    obtain ⟨-, -, hlast⟩ := clip?_eq_some.mp ht
    rw [hfirst, hlast]
    omega

/-! ### Blocks and ends -/

/-- Two blocks of a separated list are the same or have a number missing between them. -/
theorem Separated.eq_or_apart {r s : AckRange} (hs : Separated l) (hr : r ∈ l) (hs' : s ∈ l) :
    r = s ∨ s.last.val + 1 < r.first.val ∨ r.last.val + 1 < s.first.val := by
  induction l with
  | nil => exact absurd hr List.not_mem_nil
  | cons t l ih =>
      obtain ⟨-, hap, hl⟩ := separated_cons.mp hs
      rcases List.mem_cons.mp hr with rfl | hrl <;> rcases List.mem_cons.mp hs' with rfl | hsl
      · exact .inl rfl
      · exact .inr (.inl (hap s hsl))
      · exact .inr (.inr (hap r hrl))
      · exact ih hl hrl hsl

/-- **The blocks of a history.**  Separated blocks are the maximal blocks of the set they
cover. -/
theorem mem_ranges_iff (hs : Separated h.ranges) {r : AckRange} :
    r ∈ h.ranges ↔ IsBlock (· ∈ h) r := by
  constructor
  · intro hr
    have hne := hs.nonempty r hr
    refine ⟨hne, fun n hn => mem_iff.mpr ⟨r, hr, hn⟩, fun n hn hmem => ?_, fun n hn hmem => ?_⟩
    all_goals
      obtain ⟨s, hs', hc⟩ := mem_iff.mp hmem
      have hc := AckRange.contains_iff.mp hc
      rcases hs.eq_or_apart hr hs' with rfl | hap | hap <;> omega
  · intro hb
    have hne := hb.nonempty
    -- the stored block that holds the first number of `r` is `r`
    obtain ⟨s, hs', hc⟩ := mem_iff.mp
      (hb.inside r.first (AckRange.contains_iff.mpr ⟨Nat.le_refl _, hne⟩))
    have hc := AckRange.contains_iff.mp hc
    have hfirst : r.first.val = s.first.val := by
      by_contra hlt
      obtain ⟨k, hk⟩ := PacketNumber.exists_val (m := r.first.val - 1) (n := r.first) (by omega)
      refine hb.below k (by omega) (mem_iff.mpr ⟨s, hs', AckRange.contains_iff.mpr ?_⟩)
      omega
    have hlast : r.last.val = s.last.val := by
      rcases Nat.lt_trichotomy r.last.val s.last.val with hlt | heq | hgt
      · obtain ⟨k, hk⟩ := PacketNumber.exists_val (m := r.last.val + 1) (n := s.last) hlt
        refine absurd (mem_iff.mpr ⟨s, hs', AckRange.contains_iff.mpr ?_⟩) (hb.above k hk.symm)
        omega
      · exact heq
      · obtain ⟨k, hk⟩ := PacketNumber.exists_val (m := s.last.val + 1) (n := r.last) hgt
        obtain ⟨t, ht, hc'⟩ := mem_iff.mp (hb.inside k (AckRange.contains_iff.mpr (by omega)))
        have hc' := AckRange.contains_iff.mp hc'
        have := hs.nonempty t ht
        rcases hs.eq_or_apart hs' ht with rfl | hap | hap <;> omega
    have heq : r = s := by
      cases r; cases s
      simp only [AckRange.mk.injEq, ← PacketNumber.val_inj]
      exact ⟨hfirst, hlast⟩
    exact heq ▸ hs'

theorem isEmpty_iff (hs : Separated h.ranges) : h.isEmpty = true ↔ ∀ n, n ∉ h := by
  simp only [isEmpty, List.isEmpty_iff, mem_iff]
  constructor
  · intro hnil n
    rw [hnil]
    exact covers_nil
  · intro hnone
    refine List.eq_nil_iff_forall_not_mem.mpr fun r hr => ?_
    exact hnone r.first ⟨r, hr, AckRange.contains_iff.mpr ⟨Nat.le_refl _, hs.nonempty r hr⟩⟩

/-- The highest block reaches up to the greatest member. -/
theorem le_highest (hs : Separated h.ranges) {r : AckRange} (hr : h.highest? = some r) :
    r ∈ h.ranges ∧ ∀ n, n ∈ h → n.val ≤ r.last.val := by
  obtain ⟨l, hl⟩ : ∃ l, h.ranges = r :: l := List.head?_eq_some_iff.mp hr
  refine ⟨by simp [hl], fun n hn => ?_⟩
  rw [mem_iff, hl, covers_cons] at hn
  rw [hl] at hs
  rcases hn with hn | hn
  · exact hn.2
  · have := hs.covered_lt hn
    have := hs.nonempty r (by simp)
    omega

/-- The lowest block begins with the least member. -/
theorem lowest_le (hs : Separated h.ranges) {r : AckRange} (hr : h.ranges.getLast? = some r) :
    r ∈ h.ranges ∧ ∀ n, n ∈ h → r.first.val ≤ n.val := by
  obtain ⟨l, hl⟩ : ∃ l, h.ranges = l ++ [r] := List.getLast?_eq_some_iff.mp hr
  refine ⟨by simp [hl], fun n hn => ?_⟩
  obtain ⟨s, hs', hc⟩ := mem_iff.mp hn
  have hc := (AckRange.contains_iff.mp hc).1
  rw [hl] at hs'
  rcases List.mem_append.mp hs' with hs' | hs'
  · have := (List.pairwise_append.mp (hl ▸ hs.apart)).2.2 s hs' r (by simp)
    have := hs.nonempty r (by simp [hl])
    omega
  · rw [List.mem_singleton] at hs'
    exact hs' ▸ hc

/-- A history of several blocks lacks some number between two of its members. -/
theorem exists_gap (hs : Separated h.ranges) (hsize : 1 < h.size) :
    ∃ a b n : PacketNumber, a ∈ h ∧ b ∈ h ∧ a.val < n.val ∧ n.val < b.val ∧ n ∉ h := by
  obtain ⟨high, low, l, hl⟩ : ∃ high low l, h.ranges = high :: low :: l := by
    match hr : h.ranges, hsize with
    | high :: low :: l, _ => exact ⟨high, low, l, rfl⟩
    | [_], hsize | [], hsize => simp [size, hr] at hsize
  have hhigh := (mem_ranges_iff hs).mp (show high ∈ h.ranges by simp [hl])
  have hlow := (mem_ranges_iff hs).mp (show low ∈ h.ranges by simp [hl])
  have hap := (List.pairwise_cons.mp (hl ▸ hs.apart)).1 low (by simp)
  obtain ⟨n, hn⟩ := PacketNumber.exists_val (m := low.last.val + 1) (n := high.first) (by omega)
  refine ⟨low.last, high.first, n, ?_, ?_, by omega, by omega, hlow.above n hn.symm⟩
  · exact hlow.inside _ (AckRange.contains_iff.mpr ⟨hlow.nonempty, Nat.le_refl _⟩)
  · exact hhigh.inside _ (AckRange.contains_iff.mpr ⟨Nat.le_refl _, hhigh.nonempty⟩)

end History

end Multipath
