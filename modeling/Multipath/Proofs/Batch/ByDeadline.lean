import Multipath.Batch.Assignment
import Multipath.Linear.DualSimplex
import Multipath.Proofs.Scheduler.Searching

/-!
# Batches by deadline

Packets in the order of their deadlines each go to the path that is fastest then.  But a choice says
nothing about the packets that were placed before it: no packet counts towards a quota until it is
sent, and the search lists paths only at zero.  So every packet gets the choice of the first one,
and the deadlines decide nothing.

* `Scheduler.assignOneByOne`: the assignment packet by packet, with a search for each of them.
* `Scheduler.assignOneByOne_eq`, `Scheduler.assignByDeadline_eq`: one choice for all packets.
* `Scheduler.byDeadline_collapses`: what this makes of an assignment.
-/

namespace Multipath

/-! ### Writing one value everywhere -/

theorem getElem?_foldl_set {α : Type} (c : α) (places : List Nat) (l : List α) (i : Nat) :
    (places.foldl (fun l place => l.set place c) l)[i]? =
      if i ∈ places ∧ i < l.length then some c else l[i]? := by
  induction places generalizing l with
  | nil => simp
  | cons place places ih =>
    rw [List.foldl_cons, ih, List.length_set, List.getElem?_set]
    by_cases hi : i = place <;> by_cases hlt : i < l.length <;> by_cases hmem : i ∈ places <;>
      simp_all [eq_comm]

/-- If every place is written, nothing else is left. -/
theorem foldl_set_replicate {α : Type} (c d : α) {n : Nat} {places : List Nat}
    (h : ∀ i < n, i ∈ places) :
    places.foldl (fun l place => l.set place c) (List.replicate n d) = List.replicate n c := by
  refine List.ext_getElem? fun i => ?_
  rw [getElem?_foldl_set, List.length_replicate, List.getElem?_replicate, List.getElem?_replicate]
  by_cases hi : i < n <;> simp [hi, h]

namespace Scheduler

/-! ### One choice for all -/

/-- The packets with their places, in the order of their deadlines. -/
def inOrder (deadlines : List Float) : List (Float × Nat) :=
  Ranking.rank (fun deadline => -Binary.orderKey deadline.1) deadlines.zipIdx

/-- Every place comes up. -/
theorem mem_inOrder {deadlines : List Float} {i : Nat} (hi : i < deadlines.length) :
    i ∈ (inOrder deadlines).map (·.2) := by
  refine List.mem_map.mpr ⟨(deadlines[i], i), ?_, rfl⟩
  exact (Ranking.perm_rank _ _).mem_iff.mpr
    (List.mk_mem_zipIdx_iff_getElem?.mpr (List.getElem?_eq_getElem hi))

/-- Places the next packet, after a search of its own. -/
def placeNext (paths : PathSet) (demand : Demand) (placed : Assignment × Scheduler)
    (packet : Float × Nat) : Assignment × Scheduler :=
  let (choice, s) := placed.2.seek paths demand
  (placed.1.set packet.2 choice, s)

/-- Places the packets one by one in the order of their deadlines. -/
def assignOneByOne (s : Scheduler) (paths : PathSet) (deadlines : List Float) (demand : Demand) :
    Assignment × Scheduler :=
  (inOrder deadlines).foldl (placeNext paths demand) (List.replicate deadlines.length none, s)

variable {s s' : Scheduler}

/-- Whatever was placed before, the next packets get the choice of the first one. -/
theorem foldl_placeNext (paths : PathSet) (demand : Demand) (h : s.Agrees s')
    (packets : List (Float × Nat)) (a : Assignment) :
    (packets.foldl (placeNext paths demand) (a, s')).1 =
        (packets.map (·.2)).foldl (fun a place => a.set place (s.lowestRtt paths demand)) a ∧
      s.Agrees (packets.foldl (placeNext paths demand) (a, s')).2 := by
  induction packets generalizing a s' with
  | nil => exact ⟨rfl, h⟩
  | cons packet packets ih =>
    obtain ⟨hchoice, hagrees⟩ := s'.seek_eq paths demand
    rw [lowestRtt_of_agrees h] at hchoice
    have hplaced : placeNext paths demand (a, s') packet =
        (a.set packet.2 (s.lowestRtt paths demand), (s'.seek paths demand).2) := by
      rw [← hchoice]
      rfl
    rw [List.foldl_cons, List.map_cons, List.foldl_cons, hplaced]
    exact ih (h.trans hagrees) _

theorem assignOneByOne_eq (s : Scheduler) (paths : PathSet) (deadlines : List Float)
    (demand : Demand) :
    (s.assignOneByOne paths deadlines demand).1 =
        List.replicate deadlines.length (s.lowestRtt paths demand) ∧
      s.Agrees (s.assignOneByOne paths deadlines demand).2 := by
  obtain ⟨hplaced, hagrees⟩ := foldl_placeNext paths demand (.refl s) (inOrder deadlines)
    (List.replicate deadlines.length none)
  exact ⟨hplaced.trans (foldl_set_replicate _ _ fun i hi => mem_inOrder hi), hagrees⟩

theorem assignByDeadline_eq (s : Scheduler) (paths : PathSet) (deadlines : List Float)
    (demand : Demand) :
    s.assignByDeadline paths deadlines demand =
      List.replicate deadlines.length (s.lowestRtt paths demand) := by
  refine List.eq_replicate_iff.mpr ⟨by simp [assignByDeadline], fun choice hchoice => ?_⟩
  obtain ⟨i, hi, rfl⟩ := List.mem_map.mp hchoice
  obtain ⟨packet, hpacket, rfl⟩ := List.mem_map.mp (mem_inOrder (List.mem_range.mp hi))
  cases hfound : ((inOrder deadlines).map fun packet => (packet.2, s.lowestRtt paths demand)).find?
      (·.1 == packet.2) with
  | none =>
    exact absurd (List.mem_map_of_mem hpacket) fun hmem =>
      List.find?_eq_none.mp hfound _ hmem (beq_self_eq_true _)
  | some found =>
    obtain ⟨_, -, rfl⟩ := List.mem_map.mp (List.mem_of_find?_eq_some hfound)
    exact congrArg (Option.bind · (·.2)) hfound

/-- **By deadline, all packets go one way.**  With several paths every packet gets the choice for a
single packet, in whatever order the deadlines stand and whatever they are, no quota changes, and so
it is as well when a search is made for each packet. -/
theorem byDeadline_collapses {α : Type} [Linear.Number α] (solver : Linear.Solver Relaxation.Pair α)
    {s : Scheduler} (hstrategy : s.batch.strategy = .earliestDeadlineFirst) {paths : PathSet}
    (hpaths : 2 ≤ paths.size) (deadlines : List Float) (demand : Demand) :
    (s.assign solver paths deadlines demand).1 =
        some (List.replicate deadlines.length (s.seek paths demand).1) ∧
    (∀ permuted, permuted.Perm deadlines →
      (s.assign solver paths permuted demand).1 = (s.assign solver paths deadlines demand).1) ∧
    (∀ id, (s.assign solver paths deadlines demand).2.quota id = s.quota id) ∧
    some (s.assignOneByOne paths deadlines demand).1 =
        (s.assign solver paths deadlines demand).1 ∧
    s.Agrees (s.assignOneByOne paths deadlines demand).2 := by
  have hassign : ∀ deadlines, s.assign solver paths deadlines demand =
      (some (List.replicate deadlines.length (s.lowestRtt paths demand)), s) := by
    intro deadlines
    rw [assign, if_neg (by omega), hstrategy]
    exact congrArg (fun a => (some a, s)) (s.assignByDeadline_eq paths deadlines demand)
  obtain ⟨hone, hagrees⟩ := s.assignOneByOne_eq paths deadlines demand
  rw [hassign, (s.seek_eq paths demand).1, hone]
  refine ⟨rfl, fun permuted hperm => ?_, fun _ => rfl, rfl, hagrees⟩
  rw [hassign, hperm.length_eq]

/-- Two paths that have not been measured. -/
def freshPair : PathSet where
  toList := [.new ⟨1⟩ {} default, .new ⟨2⟩ {} default]
  ascending := List.pairwise_pair.mpr (show (1 : UInt8) < 2 by decide)

/-- A scheduler that goes by deadlines. -/
def punctual : Scheduler :=
  .new {} { strategy := .earliestDeadlineFirst } ⟨1⟩ ⟨0⟩ none default (.ofList [])

/-- With four packets, one of them past its deadline and one without a number for it, all go the
same way. -/
theorem byDeadline_collapses_punctual :
    punctual.batch.strategy = .earliestDeadlineFirst ∧ 2 ≤ freshPair.size ∧
    (punctual.assign Linear.DualSimplex.solve freshPair [30.0, -5.0, 30.0, 0.0 / 0.0] {}).1 =
      some [some ⟨2⟩, some ⟨2⟩, some ⟨2⟩, some ⟨2⟩] ∧
    (∀ permuted, permuted.Perm [30.0, -5.0, 30.0, 0.0 / 0.0] →
      (punctual.assign Linear.DualSimplex.solve freshPair permuted {}).1 =
        some [some ⟨2⟩, some ⟨2⟩, some ⟨2⟩, some ⟨2⟩]) ∧
    (∀ id, (punctual.assignOneByOne freshPair [30.0, -5.0, 30.0, 0.0 / 0.0] {}).2.quota id =
      punctual.quota id) := by
  have hsize : 2 ≤ freshPair.size := Nat.le_refl 2
  obtain ⟨hassign, hpermuted, -, -, -, hquota⟩ := byDeadline_collapses Linear.DualSimplex.solve
    (s := punctual) rfl hsize [30.0, -5.0, 30.0, 0.0 / 0.0] {}
  have hchoice : (punctual.seek freshPair {}).1 = some ⟨2⟩ := by decide +kernel
  rw [hchoice] at hassign
  exact ⟨rfl, hsize, hassign, fun permuted hperm => (hpermuted permuted hperm).trans hassign, hquota⟩

end Scheduler

end Multipath
