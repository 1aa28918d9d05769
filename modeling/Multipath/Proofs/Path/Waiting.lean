import Multipath.Proofs.Path.Queues

/-!
# The packets that wait, as one list

The packets to send again wait in the queues of their paths.  They are taken in one order: the
lowest path first, and of each path the oldest packet first.

* `waiting`: all of them with their paths, in that order.
* `without`: the paths when some of them are gone, each from the front of its queue.
* `dequeue?_eq_none_iff`, `waiting_of_dequeue?`, `eq_without_of_dequeue?`: a packet is taken from
  the front of the list, and nothing else happens to the paths.
* `waiting_without`: what is left when the first packets are gone.
-/

namespace Multipath

namespace PathSet

variable {s s' : PathSet} {id : PathId} {packet : Packet}

theorem ext_toList (h : s.toList = s'.toList) : s = s' := by
  cases s
  cases s'
  cases h
  rfl

/-- The packets that wait to be sent again with their paths, in the order in which they are
taken. -/
def waiting (s : PathSet) : List (PathId × Packet) :=
  s.toList.flatMap fun p => p.queue.map (p.id, ·)

theorem waiting_eq_nil_iff : s.waiting = [] ↔ ∀ p ∈ s, p.queue = [] := by
  simp only [waiting, List.flatMap_eq_nil_iff, List.map_eq_nil_iff]
  rfl

theorem waiting_ne_nil_iff : s.waiting ≠ [] ↔ ∃ p ∈ s, p.queue ≠ [] := by
  simp only [ne_eq, waiting_eq_nil_iff, Classical.not_forall, exists_prop]

/-! ### Paths without some of their packets -/

/-- How many of these packets are those of a path. -/
def share (taken : List (PathId × Packet)) (id : PathId) : Nat := taken.countP (·.1 == id)

/-- The paths when these packets are gone: each queue has lost its share of them from its front,
and nothing else about a path has changed. -/
def without (s : PathSet) (taken : List (PathId × Packet)) : PathSet :=
  s.updateAll fun p => { p with queue := p.queue.drop (share taken p.id) }

theorem without_nil : s.without [] = s := by
  refine ext_toList ?_
  simp [without, updateAll, share]

theorem without_append (taken taken' : List (PathId × Packet)) :
    s.without (taken ++ taken') = (s.without taken).without taken' := by
  refine ext_toList ?_
  simp [without, updateAll, share, List.countP_append, List.drop_drop]

/-! ### Taking a packet -/

theorem dequeue?_eq_none_iff : s.dequeue? = none ↔ s.waiting = [] := by
  rw [waiting_eq_nil_iff]
  constructor
  · intro h
    cases hfind : s.toList.find? (!·.queue.isEmpty) with
    | none => exact fun p hp => by simpa using List.find?_eq_none.mp hfind p hp
    | some q =>
        have hq := List.find?_some hfind
        simp only [dequeue?, hfind, Option.bind_some, Option.map_eq_none_iff,
          List.head?_eq_none_iff] at h
        simp [h] at hq
  · intro h
    have hfind : s.toList.find? (!·.queue.isEmpty) = none :=
      List.find?_eq_none.mpr fun p hp => by simp [h p hp]
    simp [dequeue?, hfind]

theorem waiting_of_dequeue? (h : s.dequeue? = some (id, packet, s')) :
    s.waiting = (id, packet) :: s'.waiting := by
  obtain ⟨before, p, after, rest, hsplit, hempty, rfl, hqueue, rfl⟩ := dequeue?_eq_some h
  have hnone : before.flatMap (fun p => p.queue.map (p.id, ·)) = [] :=
    List.flatMap_eq_nil_iff.mpr fun q hq => by simp [hempty q hq]
  unfold waiting
  rw [toList_update hsplit, hsplit]
  simp [hnone, hqueue]

theorem dequeue?_of_waiting {rest : List (PathId × Packet)}
    (h : s.waiting = (id, packet) :: rest) :
    ∃ s', s.dequeue? = some (id, packet, s') ∧ s'.waiting = rest := by
  cases hdequeue : s.dequeue? with
  | none =>
      rw [dequeue?_eq_none_iff, h] at hdequeue
      cases hdequeue
  | some taken =>
      obtain ⟨id', packet', s'⟩ := taken
      rw [waiting_of_dequeue? hdequeue] at h
      cases h
      exact ⟨s', rfl, rfl⟩

theorem eq_without_of_dequeue? (h : s.dequeue? = some (id, packet, s')) :
    s' = s.without [(id, packet)] := by
  obtain ⟨-, -, -, -, -, -, -, -, rfl⟩ := dequeue?_eq_some h
  refine ext_toList (List.map_congr_left fun p _ => ?_)
  by_cases hp : p.id = id
  · simp [hp, share]
  · simp [hp, share, Ne.symm hp]

/-- When the packets that wait first are gone, the others wait. -/
theorem waiting_without {taken rest : List (PathId × Packet)} (h : s.waiting = taken ++ rest) :
    (s.without taken).waiting = rest := by
  induction taken generalizing s with
  | nil => rwa [without_nil]
  | cons e taken ih =>
      obtain ⟨s', hdequeue, hrest⟩ := dequeue?_of_waiting h
      rw [← List.singleton_append, without_append, ← eq_without_of_dequeue? hdequeue]
      exact ih hrest

end PathSet

end Multipath
