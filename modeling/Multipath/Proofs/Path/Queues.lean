import Multipath.Proofs.Connection.Actions

/-!
# The paths of a set and their queues

A path set holds at most one path for each number, so a change of one path is a change at one
place of the list.

* `get_of_mem`, `get_mem`: a path and its number determine each other.
* `toList_update`: what a change does to the list.
* `dequeue?_eq_some`, `queued_of_dequeue?`: a packet taken to be sent again is the oldest of its
  path, and the first of all that wait.
* `map_update`: what a change keeps about the path is the same all over the set.
* `faces`, `queues`: what the selection of a path reads of the paths, and what taking back reads.
-/

namespace Multipath

namespace PathSet

variable {s s' : PathSet} {p q : Path} {id : PathId} {f : Path → Path}
  {k : ∀ p, (f p).id = p.id} {packet : Packet}

/-! ### Paths and numbers -/

theorem eq_of_id_eq (hp : p ∈ s) (hq : q ∈ s) (h : p.id = q.id) : p = q := by
  have hirrefl : ∀ r : Path, ¬ r.id < r.id := fun r => UInt8.lt_irrefl _
  have hpair := s.ascending
  change p ∈ s.toList at hp
  change q ∈ s.toList at hq
  generalize s.toList = l at hpair hp hq
  induction l with
  | nil => exact absurd hp List.not_mem_nil
  | cons r rest ih =>
      obtain ⟨hlt, hrest⟩ := List.pairwise_cons.mp hpair
      rcases List.mem_cons.mp hp with rfl | hp' <;> rcases List.mem_cons.mp hq with rfl | hq'
      · rfl
      · exact absurd (h ▸ hlt q hq') (hirrefl q)
      · exact absurd (h ▸ hlt p hp') (hirrefl p)
      · exact ih hrest hp' hq'

theorem get?_of_mem (hp : p ∈ s) : s.get? p.id = some p := by
  cases hfind : s.get? p.id with
  | none =>
      have hother := List.find?_eq_none.mp hfind p hp
      simp at hother
  | some q =>
      have hq : q ∈ s := List.mem_of_find?_eq_some hfind
      rw [eq_of_id_eq hq hp (id_of_get? hfind)]

theorem mem_of_get? (h : s.get? id = some p) : p ∈ s := List.mem_of_find?_eq_some h

theorem get_of_mem (hp : p ∈ s) : s.get p.id = p := by
  rw [get, get?_of_mem hp, Option.getD_some]

theorem mem_ids : id ∈ s.ids ↔ ∃ p, p ∈ s ∧ p.id = id := List.mem_map

theorem get_mem (h : id ∈ s.ids) : s.get id ∈ s := by
  obtain ⟨p, hp, rfl⟩ := mem_ids.mp h
  rwa [get_of_mem hp]

/-! ### Changing a path -/

/-- What the change of a path keeps about it is the same all over the set. -/
theorem map_update {α : Type} {g : Path → α} (hg : ∀ p ∈ s, p.id = id → g (f p) = g p) :
    (s.update id f k).toList.map g = s.toList.map g := by
  unfold update
  rw [List.map_map]
  refine List.map_congr_left fun p hp => ?_
  simp only [Function.comp]
  split
  · exact hg p hp ‹_›
  · rfl

theorem map_updateAll {α : Type} {g : Path → α} (hg : ∀ p ∈ s, g (f p) = g p) :
    (s.updateAll f k).toList.map g = s.toList.map g := by
  unfold updateAll
  rw [List.map_map]
  exact List.map_congr_left hg

theorem ids_update : (s.update id f k).ids = s.ids := map_update fun p _ _ => k p

/-- A change of a path is a change at its place in the list. -/
theorem toList_update {before after : List Path} (h : s.toList = before ++ p :: after) :
    (s.update p.id f k).toList = before ++ f p :: after := by
  have hothers : ∀ q ∈ before ++ after, ¬ q.id = p.id := by
    intro q hq hid
    have hpair := s.ascending
    rw [h, List.pairwise_append, List.pairwise_cons] at hpair
    obtain ⟨-, ⟨hafter, -⟩, hbefore⟩ := hpair
    rcases List.mem_append.mp hq with hq | hq
    · exact UInt8.lt_irrefl _ (hid ▸ hbefore q hq p List.mem_cons_self)
    · exact UInt8.lt_irrefl _ (hid ▸ hafter q hq)
  have hsame : ∀ l : List Path, (∀ q ∈ l, ¬ q.id = p.id) →
      l.map (fun q => if q.id = p.id then f q else q) = l := fun l hl =>
    (List.map_congr_left fun q hq => if_neg (hl q hq)).trans (List.map_id' l)
  show s.toList.map (fun q => if q.id = p.id then f q else q) = _
  rw [h, List.map_append, List.map_cons, if_pos rfl,
    hsame before fun q hq => hothers q (List.mem_append_left _ hq),
    hsame after fun q hq => hothers q (List.mem_append_right _ hq)]

/-- A change of a path that is not there is none. -/
theorem toList_update_of_not_mem (h : id ∉ s.ids) : (s.update id f k).toList = s.toList := by
  have hothers : ∀ p ∈ s.toList, ¬ p.id = id := fun p hp hid => h (mem_ids.mpr ⟨p, hp, hid⟩)
  exact (List.map_congr_left fun p hp => if_neg (hothers p hp)).trans (List.map_id' s.toList)

theorem get_update_of_mem (h : id ∈ s.ids) : (s.update id f k).get id = f (s.get id) := by
  obtain ⟨p, hp, rfl⟩ := mem_ids.mp h
  rw [get_of_mem hp, get, get?_update, get?_of_mem hp, Option.map_some, Option.getD_some,
    if_pos rfl]

/-! ### Packets to send again -/

theorem dequeue?_eq_some (h : s.dequeue? = some (id, packet, s')) :
    ∃ before p after rest, s.toList = before ++ p :: after ∧ (∀ q ∈ before, q.queue = []) ∧
      p.id = id ∧ p.queue = packet :: rest ∧
      s' = s.update id fun q => { q with queue := q.queue.tail } := by
  unfold dequeue? at h
  obtain ⟨p, hfind, hhead⟩ := Option.bind_eq_some_iff.mp h
  obtain ⟨packet', hqueue, heq⟩ := Option.map_eq_some_iff.mp hhead
  obtain ⟨-, before, after, hsplit, hempty⟩ := List.find?_eq_some_iff_append.mp hfind
  obtain ⟨rest, hrest⟩ := List.head?_eq_some_iff.mp hqueue
  cases heq
  exact ⟨before, p, after, rest, hsplit, fun q hq => by simpa using hempty q hq, rfl, hrest, rfl⟩

/-- The packet that is taken is the first of those that wait. -/
theorem queued_of_dequeue? (h : s.dequeue? = some (id, packet, s')) :
    s.queued = packet :: s'.queued := by
  obtain ⟨before, p, after, rest, hsplit, hempty, rfl, hqueue, rfl⟩ := dequeue?_eq_some h
  have hnone : before.flatMap (·.queue) = [] := List.flatMap_eq_nil_iff.mpr hempty
  unfold queued
  rw [toList_update hsplit, hsplit]
  simp [hnone, hqueue]

theorem ids_of_dequeue? (h : s.dequeue? = some (id, packet, s')) : s'.ids = s.ids := by
  obtain ⟨before, p, after, rest, -, -, -, -, rfl⟩ := dequeue?_eq_some h
  exact ids_update

theorem mem_ids_of_dequeue? (h : s.dequeue? = some (id, packet, s')) : id ∈ s.ids := by
  obtain ⟨before, p, after, rest, hsplit, -, rfl, -, -⟩ := dequeue?_eq_some h
  exact mem_ids.mpr ⟨p, show p ∈ s.toList from hsplit ▸ by simp, rfl⟩

/-- The queue of its path loses the packet, and the other queues nothing. -/
theorem queue_of_dequeue? (h : s.dequeue? = some (id, packet, s')) :
    (s.get id).queue = packet :: (s'.get id).queue ∧
      ∀ {j}, j ≠ id → (s'.get j).queue = (s.get j).queue := by
  obtain ⟨before, p, after, rest, hsplit, -, rfl, hqueue, rfl⟩ := dequeue?_eq_some h
  have hp : p ∈ s := show p ∈ s.toList from hsplit ▸ by simp
  refine ⟨?_, fun hne => by rw [get_update_ne hne]⟩
  rw [get_update_of_mem (mem_ids.mpr ⟨p, hp, rfl⟩), get_of_mem hp, hqueue]
  rfl

end PathSet

/-! ### What the paths show -/

/-- What the selection of a path reads of the path. -/
structure Face where
  id : PathId
  telemetry : Telemetry
  suspect : Bool

namespace Face

def isInitial (f : Face) : Bool := f.id.isInitial

def isMeasured (f : Face) : Bool := f.telemetry.isMeasured

/-- An additional path that may send. -/
def isTarget (f : Face) : Bool := !f.isInitial && f.telemetry.sendingAllowed

end Face

/-- What the path shows. -/
def Path.face (p : Path) : Face := ⟨p.id, p.telemetry, p.suspect⟩

namespace PathSet

variable {s s' : PathSet} {p : Path} {id : PathId} {f : Path → Path}

/-- What the selection of a path reads of the paths. -/
def faces (s : PathSet) : List Face := s.toList.map Path.face

/-- The packets to send again, path by path. -/
def queues (s : PathSet) : List (PathId × List Packet) := s.toList.map fun p => (p.id, p.queue)

theorem faces_update (hf : ∀ p ∈ s, p.id = id → (f p).face = p.face := by intro p _ _; rfl)
    (k : ∀ p, (f p).id = p.id := by intro p; rfl) : (s.update id f k).faces = s.faces :=
  map_update hf

theorem queues_update (hf : ∀ p, (f p).queue = p.queue := by intro p; rfl)
    (k : ∀ p, (f p).id = p.id := by intro p; rfl) : (s.update id f k).queues = s.queues :=
  map_update fun p _ _ => Prod.ext (k p) (hf p)

theorem faces_updateAll (hf : ∀ p, (f p).face = p.face := by intro p; rfl)
    (k : ∀ p, (f p).id = p.id := by intro p; rfl) : (s.updateAll f k).faces = s.faces :=
  map_updateAll fun p _ => hf p

theorem queues_updateAll (hf : ∀ p, (f p).queue = p.queue := by intro p; rfl)
    (k : ∀ p, (f p).id = p.id := by intro p; rfl) : (s.updateAll f k).queues = s.queues :=
  map_updateAll fun p _ => Prod.ext (k p) (hf p)

theorem ids_eq_map_queues : s.ids = s.queues.map (·.1) := by
  simp only [ids, queues, List.map_map]
  rfl

theorem queued_eq_flatMap_queues : s.queued = s.queues.flatMap (·.2) := by
  simp only [queued, queues, List.flatMap_map]

theorem mem_faces {face : Face} : face ∈ s.faces ↔ ∃ p ∈ s, p.face = face := List.mem_map

/-- No two paths show the same number. -/
theorem pairwise_faces : s.faces.Pairwise (·.id ≠ ·.id) := by
  refine List.pairwise_map.mpr (s.ascending.imp fun {p q} hlt heq => ?_)
  have heq : p.id = q.id := heq
  exact UInt8.lt_irrefl _ (heq ▸ hlt)

theorem queue_get_of_mem (h : s.queues = s'.queues) (hid : id ∈ s.ids) :
    (s.get id).queue = (s'.get id).queue := by
  have hmem : (id, (s.get id).queue) ∈ s'.queues := by
    rw [← h]
    exact List.mem_map.mpr ⟨s.get id, get_mem hid, by rw [get_id]⟩
  obtain ⟨q, hq, heq⟩ := List.mem_map.mp hmem
  obtain ⟨rfl, hqueue⟩ := Prod.mk.inj heq
  rw [get_of_mem hq, hqueue]

end PathSet

end Multipath
