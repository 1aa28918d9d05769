import Multipath.Proofs.Receiver.Recording
import Multipath.Proofs.Receiver.Runs

/-!
# Recording in place

A receiver is changed in place, by one assignment after the other, and an operation that fails
leaves behind what was assigned until then.  `History.record` and `Receiver.receive` do not say what
that is, for they return nothing if they fail.  Here both are spelled out with their assignments.
They come to the same, because every check that can fail comes before the first assignment.

* `History.recordInPlace`: the search for the place of a number, from the lowest block on, and what
  is changed there.  `addTo_joined`, `addTo_lowered`, `addTo_append`: each change is the one that
  `History.addTo` makes from the highest block on.
* `History.recordInPlace_eq`, `Receiver.receiveInPlace_eq`: the results, and what is left behind.
-/

namespace Multipath

/-- The result of an operation that leaves everything as it was if it fails. -/
def undone {α β : Type} (a : α) : Except Error (β × α) → EStateM.Result Error α β
  | .ok (answer, a') => .ok answer a'
  | .error e => .error e a

section Statements

variable {α β : Type} {a : α}

theorem look_bind {k : α → EStateM Error α β} : (do let a ← get; k a) a = k a a := rfl

theorem modify_bind {f : α → α} {k : EStateM Error α β} : (do modify f; k) a = k (f a) := rfl

end Statements

namespace History

variable {h : History} {l low up above below : List AckRange} {r : AckRange} {n : PacketNumber}
  {i : Nat}

/-! ### The assignments -/

/-- The blocks, lowest first. -/
def rising (h : History) : List AckRange := h.ranges.reverse

/-- The history with these blocks, lowest first. -/
def risen (h : History) (l : List AckRange) : History := { h with ranges := l.reverse }

/-- Rewrites the blocks, lowest first. -/
def changeRising (f : List AckRange → List AckRange) : EStateM Error History Unit :=
  modify fun h => h.risen (f h.rising)

/-- Opens a block for `n` at place `i`, if there may be one more. -/
def openBlock (n : PacketNumber) (i : Nat) : EStateM Error History Bool := do
  let h ← get
  if h.limit ≤ h.size then throw (.tooManyRanges h.limit)
  changeRising (·.insertIdx i (.single n))
  return true

/-- Extends block `r` at place `i` up to `n`, and joins it with the next one if that follows. -/
def extendUp (n : PacketNumber) (i : Nat) (r : AckRange) : EStateM Error History Bool := do
  changeRising (·.set i ⟨r.first, n⟩)
  if let some s := (← get).rising[i + 1]? then
    if n.val + 1 = s.first.val then
      changeRising (·.eraseIdx (i + 1))
      changeRising (·.set i ⟨r.first, s.last⟩)
  return true

/-- Extends block `r` at place `i` down to `n`. -/
def extendDown (n : PacketNumber) (i : Nat) (r : AckRange) : EStateM Error History Bool := do
  changeRising (·.set i ⟨n, r.last⟩)
  return true

/-- The place of `n` among blocks, lowest first: that of the first one which ends just below `n` or
higher. -/
def place (n : PacketNumber) (l : List AckRange) : Nat :=
  (l.takeWhile fun r => decide (r.last.val + 1 < n.val)).length

/-- Records packet `n`, whose place is that of block `r`, at `i`. -/
def recordAt (n : PacketNumber) (i : Nat) (r : AckRange) : EStateM Error History Bool :=
  if r.contains n then return false
  else if r.last.val + 1 = n.val then extendUp n i r
  else if n.val + 1 = r.first.val then extendDown n i r
  else openBlock n i

/-- Records the arrival of packet `n`. -/
def recordInPlace (n : PacketNumber) : EStateM Error History Bool := do
  let h ← get
  let i := place n h.rising
  match h.rising[i]? with
  | none => openBlock n i
  | some r => recordAt n i r

@[simp]
theorem rising_risen : (h.risen l).rising = l := List.reverse_reverse l

@[simp]
theorem risen_risen {l' : List AckRange} : (h.risen l').risen l = h.risen l := rfl

theorem changeRising_bind {β : Type} {f : List AckRange → List AckRange}
    {k : EStateM Error History β} : (do changeRising f; k) h = k (h.risen (f h.rising)) := rfl

/-! ### The place of a number -/

theorem exists_place (n : PacketNumber) (l : List AckRange) :
    ∃ low rest, l = low ++ rest ∧ place n l = low.length ∧
      (∀ r ∈ low, r.last.val + 1 < n.val) ∧ ∀ r ∈ rest.head?, n.val ≤ r.last.val + 1 := by
  induction l with
  | nil => exact ⟨[], [], rfl, rfl, by simp, by simp⟩
  | cons r l ih =>
      by_cases hlast : r.last.val + 1 < n.val
      · obtain ⟨low, rest, rfl, hplace, hlow, hrest⟩ := ih
        refine ⟨r :: low, rest, rfl, ?_, List.forall_mem_cons.mpr ⟨hlast, hlow⟩, hrest⟩
        rw [place, List.takeWhile_cons_of_pos (by simpa using hlast)]
        exact congrArg (· + 1) hplace
      · refine ⟨[], r :: l, rfl, ?_, by simp, fun s hs => ?_⟩
        · rw [place, List.takeWhile_cons_of_neg (by simpa using hlast)]
        · obtain rfl : r = s := by simpa using hs
          exact Nat.le_of_not_lt hlast

theorem insertIdx_length (r : AckRange) (l m : List AckRange) :
    (l ++ m).insertIdx l.length r = l ++ r :: m := by
  induction l with
  | nil => rfl
  | cons s l ih => simpa using ih

/-- Above block `r` of separated blocks. -/
theorem Separated.around (hs : Separated (above ++ r :: below)) :
    r.first.val ≤ r.last.val ∧
      ∀ t ∈ above, r.last.val + 1 < t.first.val ∧ t.first.val ≤ t.last.val :=
  ⟨hs.nonempty r (by simp), fun t ht =>
    ⟨(List.pairwise_append.mp hs.apart).2.2 t ht r List.mem_cons_self,
      hs.nonempty t (List.mem_append_left _ ht)⟩⟩

/-- Block `r` alone decides about a number that lies above the blocks below `r`, and not beyond the
number after `r`. -/
theorem Separated.covers_around (hs : Separated (above ++ r :: below))
    (hle : n.val ≤ r.last.val + 1) (hbelow : ∀ s ∈ below, s.last.val + 1 < n.val) :
    Covers (above ++ r :: below) n ↔ r.contains n = true := by
  refine ⟨fun ⟨t, ht, hc⟩ => ?_, fun hc => ⟨r, by simp, hc⟩⟩
  obtain ⟨hfirst, hlast⟩ := AckRange.contains_iff.mp hc
  rcases List.mem_append.mp ht with ht | ht
  · have := (hs.around.2 t ht).1
    omega
  · rcases List.mem_cons.mp ht with rfl | ht
    · exact hc
    · have := hbelow t ht
      omega

/-! ### What is changed there -/

/-- Blocks that begin more than one above `n` are passed over. -/
theorem addTo_append (habove : ∀ r ∈ above, n.val + 1 < r.first.val ∧ r.first.val ≤ r.last.val) :
    addTo n (above ++ l) = above ++ addTo n l := by
  induction above with
  | nil => rfl
  | cons r above ih =>
      obtain ⟨hfirst, hlast⟩ := habove r List.mem_cons_self
      have ih := ih fun s hs => habove s (List.mem_cons_of_mem _ hs)
      rw [List.cons_append, List.cons_append, ← ih, addTo.eq_def]
      simp only
      rw [if_neg (by omega), if_neg (by omega), if_neg (by omega)]

theorem addTo_of_below (hbelow : ∀ r ∈ below, r.last.val + 1 < n.val) :
    addTo n below = .single n :: below := by
  cases below with
  | nil => rfl
  | cons r below =>
      unfold addTo
      exact if_pos (hbelow r List.mem_cons_self)

/-- The blocks from `r` on, lowest first, once `r` is extended up to `n`. -/
def joined (n : PacketNumber) (r : AckRange) : List AckRange → List AckRange
  | [] => [⟨r.first, n⟩]
  | s :: up => if n.val + 1 = s.first.val then ⟨r.first, s.last⟩ :: up else ⟨r.first, n⟩ :: s :: up

theorem length_joined_le (up : List AckRange) : (joined n r up).length ≤ up.length + 1 := by
  cases up with
  | nil => exact Nat.le_refl _
  | cons s up =>
      rw [joined]
      split <;> simp

/-- Extending the block just below `n`. -/
theorem addTo_joined (hs : Separated (up.reverse ++ r :: below)) (hlast : r.last.val + 1 = n.val) :
    addTo n (up.reverse ++ r :: below) = (joined n r up).reverse ++ below := by
  obtain ⟨hr, habove⟩ := hs.around
  have hgrown : addTo n (r :: below) = ⟨r.first, n⟩ :: below := by
    unfold addTo
    rw [if_neg (by omega), if_pos hlast]
  cases up with
  | nil => exact hgrown
  | cons s up =>
      rw [List.reverse_cons, List.append_assoc, List.singleton_append] at hs
      obtain ⟨hs', habove'⟩ := hs.around
      by_cases htouch : n.val + 1 = s.first.val
      · have hmerged : addTo n (s :: r :: below) = ⟨r.first, s.last⟩ :: below := by
          rw [addTo, if_neg (by omega), if_neg (by omega), if_pos htouch]
          exact if_pos hlast
        have hpassed : ∀ t ∈ up.reverse, n.val + 1 < t.first.val ∧ t.first.val ≤ t.last.val := by
          intro t ht
          have := habove' t ht
          omega
        rw [List.reverse_cons, List.append_assoc, List.singleton_append, addTo_append hpassed,
          hmerged, joined, if_pos htouch]
        simp
      · have hpassed : ∀ t ∈ (s :: up).reverse,
            n.val + 1 < t.first.val ∧ t.first.val ≤ t.last.val := by
          intro t ht
          have hnext := (habove s (by simp)).1
          refine ⟨?_, (habove t ht).2⟩
          rcases List.mem_cons.mp (List.mem_reverse.mp ht) with rfl | ht
          · omega
          · have := (habove' t (List.mem_reverse.mpr ht)).1
            omega
        rw [addTo_append hpassed, hgrown, joined, if_neg htouch]
        simp

/-- Extending the block just above `n`. -/
theorem addTo_lowered (hs : Separated (above ++ r :: below)) (hfirst : n.val + 1 = r.first.val)
    (hbelow : ∀ s ∈ below, s.last.val + 1 < n.val) :
    addTo n (above ++ r :: below) = above ++ ⟨n, r.last⟩ :: below := by
  obtain ⟨hr, habove⟩ := hs.around
  have hlowered : addTo n (r :: below) = ⟨n, r.last⟩ :: below := by
    cases below with
    | nil => rw [addTo, if_neg (by omega), if_neg (by omega), if_pos hfirst]
    | cons s below =>
        have := hbelow s List.mem_cons_self
        rw [addTo, if_neg (by omega), if_neg (by omega), if_pos hfirst]
        exact if_neg (by omega)
  have hpassed : ∀ t ∈ above, n.val + 1 < t.first.val ∧ t.first.val ≤ t.last.val := by
    intro t ht
    have := habove t ht
    omega
  rw [addTo_append hpassed, hlowered]

/-- Opening a block between `r` and those below it. -/
theorem addTo_between (hs : Separated (above ++ r :: below)) (hfirst : n.val + 1 < r.first.val)
    (hbelow : ∀ s ∈ below, s.last.val + 1 < n.val) :
    addTo n (above ++ r :: below) = above ++ r :: .single n :: below := by
  obtain ⟨hr, habove⟩ := hs.around
  have hpassed : ∀ t ∈ above ++ [r], n.val + 1 < t.first.val ∧ t.first.val ≤ t.last.val := by
    intro t ht
    rcases List.mem_append.mp ht with ht | ht
    · have := habove t ht
      omega
    · obtain rfl := List.mem_singleton.mp ht
      omega
  rw [List.append_cons, addTo_append hpassed, addTo_of_below hbelow, List.append_assoc,
    List.singleton_append]

/-! ### Recording -/

theorem record_risen (hk : Kept h) (hn : n ∉ h) (hadd : addTo n h.ranges = l.reverse)
    (hlength : l.length ≤ h.rising.length) : h.record n = .ok (true, h.risen l) := by
  have hbound : h.ranges.length ≤ h.limit := hk.bounded
  rw [rising, List.length_reverse] at hlength
  rw [record, if_neg hn]
  simp only [hadd, List.length_reverse]
  rw [if_neg (by omega), risen]

theorem openBlock_eq (hn : n ∉ h) (hi : i ≤ h.rising.length)
    (hadd : addTo n h.ranges = (h.rising.insertIdx i (.single n)).reverse) :
    openBlock n i h = undone h (h.record n) := by
  have hlength : (addTo n h.ranges).length = h.size + 1 := by
    rw [hadd, List.length_reverse, List.length_insertIdx_of_le_length hi, rising,
      List.length_reverse, size]
  rw [openBlock, look_bind, record, if_neg hn]
  simp only [hlength, Nat.lt_succ_iff]
  by_cases hfull : h.limit ≤ h.size
  · simp only [if_pos hfull]
    rfl
  · simp only [if_neg hfull, hadd]
    rfl

theorem extendUp_eq (hrising : h.rising = low ++ r :: up) :
    extendUp n low.length r h = .ok true (h.risen (low ++ joined n r up)) := by
  have hset : h.rising.set low.length ⟨r.first, n⟩ = low ++ ⟨r.first, n⟩ :: up := by
    simp [hrising]
  rw [extendUp, changeRising_bind, look_bind, rising_risen, hset]
  cases up with
  | nil =>
      have hget : (low ++ [⟨r.first, n⟩])[low.length + 1]? = none := by simp
      simp only [hget]
      rfl
  | cons s up =>
      have hget : (low ++ ⟨r.first, n⟩ :: s :: up)[low.length + 1]? = some s := by simp
      by_cases htouch : n.val + 1 = s.first.val
      · have hjoin : ((low ++ ⟨r.first, n⟩ :: s :: up).eraseIdx (low.length + 1)).set low.length
            ⟨r.first, s.last⟩ = low ++ ⟨r.first, s.last⟩ :: up := by
          simp [List.eraseIdx_append_of_length_le]
        simp only [hget, if_pos htouch, changeRising_bind, joined, rising_risen, risen_risen, hjoin]
        rfl
      · simp only [hget, if_neg htouch, joined]
        rfl

theorem extendDown_eq (hrising : h.rising = low ++ r :: up) :
    extendDown n low.length r h = .ok true (h.risen (low ++ ⟨n, r.last⟩ :: up)) := by
  have hset : h.rising.set low.length ⟨n, r.last⟩ = low ++ ⟨n, r.last⟩ :: up := by simp [hrising]
  rw [extendDown, changeRising_bind, hset]
  rfl

theorem ranges_of_rising (hrising : h.rising = l) : h.ranges = l.reverse := by
  rw [← hrising, rising, List.reverse_reverse]

/-- Where every block lies below the number, a block is opened above them. -/
theorem openBlock_above (hrising : h.rising = low) (hlow : ∀ r ∈ low, r.last.val + 1 < n.val) :
    openBlock n low.length h = undone h (h.record n) := by
  have hranges := ranges_of_rising hrising
  have hbelow : ∀ r ∈ low.reverse, r.last.val + 1 < n.val := fun r hr =>
    hlow r (List.mem_reverse.mp hr)
  have hn : n ∉ h := by
    rw [mem_iff, hranges]
    rintro ⟨r, hr, hc⟩
    have := hbelow r hr
    have := (AckRange.contains_iff.mp hc).2
    omega
  refine openBlock_eq hn (by rw [hrising]) ?_
  have hinsert := insertIdx_length (.single n) low []
  rw [List.append_nil] at hinsert
  rw [hranges, addTo_of_below hbelow, hrising, hinsert]
  simp

theorem recordAt_eq (hk : Kept h) (hrising : h.rising = low ++ r :: up)
    (hlow : ∀ s ∈ low, s.last.val + 1 < n.val) (hle : n.val ≤ r.last.val + 1) :
    recordAt n low.length r h = undone h (h.record n) := by
  have hbelow : ∀ s ∈ low.reverse, s.last.val + 1 < n.val := fun s hs =>
    hlow s (List.mem_reverse.mp hs)
  have hranges : h.ranges = up.reverse ++ r :: low.reverse := by
    rw [ranges_of_rising hrising]
    simp
  have hs : Separated (up.reverse ++ r :: low.reverse) := hranges ▸ hk.separated
  have hmem : n ∈ h ↔ r.contains n = true := by
    rw [mem_iff, hranges]
    exact hs.covers_around hle hbelow
  unfold recordAt
  by_cases hin : r.contains n = true
  · rw [if_pos hin, record, if_pos (hmem.mpr hin)]
    rfl
  have hn : n ∉ h := mt hmem.mp hin
  rw [if_neg hin]
  by_cases hlast : r.last.val + 1 = n.val
  · have hadd : addTo n h.ranges = (low ++ joined n r up).reverse := by
      rw [hranges, addTo_joined hs hlast, List.reverse_append]
    have hlength : (low ++ joined n r up).length ≤ h.rising.length := by
      have := length_joined_le (n := n) (r := r) up
      simp only [hrising, List.length_append, List.length_cons]
      omega
    rw [if_pos hlast, extendUp_eq hrising, record_risen hk hn hadd hlength]
    rfl
  rw [if_neg hlast]
  by_cases hfirst : n.val + 1 = r.first.val
  · have hadd : addTo n h.ranges = (low ++ ⟨n, r.last⟩ :: up).reverse := by
      rw [hranges, addTo_lowered hs hfirst hbelow]
      simp
    rw [if_pos hfirst, extendDown_eq hrising, record_risen hk hn hadd (by simp [hrising])]
    rfl
  · have hlt : n.val + 1 < r.first.val := by
      rw [AckRange.contains_iff] at hin
      omega
    rw [if_neg hfirst]
    refine openBlock_eq hn (by simp [hrising]) ?_
    rw [hranges, addTo_between hs hlt hbelow, hrising, insertIdx_length]
    simp

/-- **A number that is refused leaves the history as it was**, and any other one is recorded as
`record` does it. -/
theorem recordInPlace_eq (hk : Kept h) (n : PacketNumber) :
    recordInPlace n h = undone h (h.record n) := by
  obtain ⟨low, rest, hrising, hplace, hlow, hrest⟩ := exists_place n h.rising
  rw [recordInPlace, look_bind, hplace]
  cases rest with
  | nil =>
      have hget : h.rising[low.length]? = none := by simp [hrising]
      simp only [hget]
      exact openBlock_above (hrising.trans (List.append_nil low)) hlow
  | cons r up =>
      have hget : h.rising[low.length]? = some r := by simp [hrising]
      simp only [hget]
      exact recordAt_eq hk hrising hlow (hrest r rfl)

end History

/-! ### Taking in packets -/

namespace Receiver

variable {r : Receiver}

/-- Works on the history alone. -/
def onHistory {β : Type} (x : EStateM Error History β) : EStateM Error Receiver β := fun r =>
  match x r.history with
  | .ok answer history => .ok answer { r with history }
  | .error e history => .error e { r with history }

/-- Enters packet `n` into the books, but for the history. -/
def enterInPlace (n : PacketNumber) (asks : Bool) (now : Instant) :
    EStateM Error Receiver Unit := do
  modify fun r =>
    { r with statistics := { r.statistics with packets := r.statistics.packets + 1 } }
  if (← get).largest < n then
    modify fun r => { r with largest := n, largestAt := some now }
  modify fun r => { r with unacked := r.unacked + 1 }
  if asks then
    modify fun r => { r with unackedAsking := r.unackedAsking + 1 }

/-- Takes in packet `n`. -/
def receiveInPlace (n : PacketNumber) (asks : Bool) (now : Instant) :
    EStateM Error Receiver Unit := do
  if n = .zero then throw (.invalidPacketNumber n)
  if n ≤ (← get).floor then return
  let isNew ← onHistory (History.recordInPlace n)
  if isNew then
    enterInPlace n asks now
    modify (·.settle n asks now)

theorem enterInPlace_eq (n : PacketNumber) (asks : Bool) (now : Instant) (history : History) :
    enterInPlace n asks now { r with history } = .ok () (r.enter history n asks now) := by
  rw [enterInPlace, modify_bind, look_bind, enter]
  by_cases hlargest : r.largest < n
  · simp only [if_pos hlargest]
    cases asks <;> rfl
  · simp only [if_neg hlargest]
    cases asks <;> rfl

section Statements

variable {β : Type} {x : EStateM Error History β} {k : β → EStateM Error Receiver Unit}
  {history : History}

theorem onHistory_bind_of_ok {answer : β} (h : x r.history = .ok answer history) :
    (do let answer ← onHistory x; k answer) r = k answer { r with history } := by
  simp only [bind, EStateM.bind, onHistory, h]

theorem onHistory_bind_of_error {e : Error} (h : x r.history = .error e history) :
    (do let answer ← onHistory x; k answer) r = .error e { r with history } := by
  simp only [bind, EStateM.bind, onHistory, h]

end Statements

/-- **A packet that is refused leaves the receiver as it was**, and any other one is taken in as
`receive` does it. -/
theorem receiveInPlace_eq (hk : History.Kept r.history) (n : PacketNumber) (asks : Bool)
    (now : Instant) :
    receiveInPlace n asks now r = undone r ((r.receive n asks now).map ((), ·)) := by
  unfold receive
  by_cases hzero : n = .zero
  · rw [receiveInPlace, if_pos hzero, if_pos hzero]
    rfl
  by_cases hfloor : n ≤ r.floor
  · simp only [receiveInPlace, if_neg hzero, look_bind, if_pos hfloor]
    rfl
  simp only [receiveInPlace, if_neg hzero, look_bind, if_neg hfloor]
  have hrecord := History.recordInPlace_eq hk n
  -- what is recorded decides, and nothing after that fails
  rcases History.record_cases hk n with ⟨-, hrec⟩ | ⟨-, -, history, hrec, -⟩ | ⟨-, -, -, hrec⟩
  all_goals rw [hrec] at hrecord; simp only [hrec]
  · rw [onHistory_bind_of_ok hrecord]
    rfl
  · rw [onHistory_bind_of_ok hrecord]
    simp only [if_true, bind, EStateM.bind, enterInPlace_eq]
    rfl
  · rw [onHistory_bind_of_error hrecord]
    rfl

end Receiver

end Multipath
