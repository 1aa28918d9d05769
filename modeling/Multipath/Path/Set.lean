import Multipath.Path.Basic

/-!
# Path sets

The paths of a connection, at most one for each number and in ascending order of the numbers.
The order is the one in which paths are scanned, so it belongs to the type: whatever goes
through a `PathSet` from the front meets the lowest number first.

* `insert`, `remove`, `update`: replace, drop or change one path.
* `dequeue?`: the packet to send again that comes first, by path number and then by age.
-/

namespace Multipath

/-- Paths in strictly ascending order of their numbers. -/
structure PathSet where
  toList : List Path
  ascending : toList.Pairwise (·.id < ·.id)

namespace PathSet

def empty : PathSet := ⟨[], .nil⟩

instance : Inhabited PathSet := ⟨empty⟩

instance : Membership Path PathSet := ⟨fun s p => p ∈ s.toList⟩

def size (s : PathSet) : Nat := s.toList.length

def isEmpty (s : PathSet) : Bool := s.toList.isEmpty

/-- The numbers of the paths, ascending. -/
def ids (s : PathSet) : List PathId := s.toList.map (·.id)

/-- The path with this number. -/
def get? (s : PathSet) (id : PathId) : Option Path := s.toList.find? (·.id == id)

/-- The path with this number, or a fresh one. -/
def get (s : PathSet) (id : PathId) : Path := (s.get? id).getD (.new id {} default)

/-- The paths that may carry fresh data while there are several. -/
def additional (s : PathSet) : List Path := s.toList.filter (!·.isInitial)

/-! ### Changing single paths -/

/-- Puts `p` in its place, over any path with the same number. -/
def insertInto (p : Path) : List Path → List Path
  | [] => [p]
  | q :: rest =>
    if p.id < q.id then p :: q :: rest
    else if p.id = q.id then p :: rest
    else q :: insertInto p rest

theorem mem_insertInto {p q : Path} {l : List Path} (h : q ∈ insertInto p l) :
    q = p ∨ q ∈ l := by
  induction l with
  | nil => simpa [insertInto] using h
  | cons r rest ih =>
    unfold insertInto at h
    split at h
    · simpa using h
    · split at h
      · rcases List.mem_cons.1 h with h | h
        · exact .inl h
        · exact .inr (List.mem_cons_of_mem _ h)
      · rcases List.mem_cons.1 h with h | h
        · exact .inr (h ▸ List.mem_cons_self)
        · rcases ih h with h | h
          · exact .inl h
          · exact .inr (List.mem_cons_of_mem _ h)

theorem lt_trans {a b c : PathId} (h : a < b) (h' : b < c) : a < c :=
  UInt8.lt_trans h h'

theorem lt_of_not_lt_of_ne {a b : PathId} (h : ¬ a < b) (hne : a ≠ b) : b < a := by
  have hne : a.number ≠ b.number := fun e => hne (by cases a; cases b; cases e; rfl)
  exact UInt8.lt_of_le_of_ne (UInt8.not_lt.1 h) (Ne.symm hne)

theorem pairwise_insertInto (p : Path) {l : List Path} (h : l.Pairwise (·.id < ·.id)) :
    (insertInto p l).Pairwise (·.id < ·.id) := by
  induction l with
  | nil => simp [insertInto]
  | cons q rest ih =>
    obtain ⟨hq, hrest⟩ := List.pairwise_cons.1 h
    unfold insertInto
    split
    · rename_i hlt
      refine List.pairwise_cons.2 ⟨fun r hr => ?_, h⟩
      rcases List.mem_cons.1 hr with rfl | hr
      · exact hlt
      · exact lt_trans hlt (hq r hr)
    · split
      · rename_i heq
        exact List.pairwise_cons.2 ⟨fun r hr => heq ▸ hq r hr, hrest⟩
      · rename_i hlt hne
        refine List.pairwise_cons.2 ⟨fun r hr => ?_, ih hrest⟩
        rcases mem_insertInto hr with rfl | hr
        · exact lt_of_not_lt_of_ne hlt hne
        · exact hq r hr

/-- Adds a path, in place of any path with its number. -/
def insert (s : PathSet) (p : Path) : PathSet :=
  ⟨insertInto p s.toList, pairwise_insertInto p s.ascending⟩

/-- Drops the path with this number. -/
def remove (s : PathSet) (id : PathId) : PathSet :=
  ⟨s.toList.filter (·.id != id), s.ascending.filter _⟩

/-- Changes the path with this number, if it exists, to another state of the same path. -/
def update (s : PathSet) (id : PathId) (f : Path → Path)
    (keepsId : ∀ p, (f p).id = p.id := by intro p; rfl) : PathSet :=
  ⟨s.toList.map fun p => if p.id = id then f p else p, by
    refine List.Pairwise.map _ (fun p q h => ?_) s.ascending
    have hid : ∀ r : Path, (if r.id = id then f r else r).id = r.id := fun r => by
      split
      · exact keepsId r
      · rfl
    rwa [hid, hid]⟩

/-- Changes every path to another state of the same path. -/
def updateAll (s : PathSet) (f : Path → Path)
    (keepsId : ∀ p, (f p).id = p.id := by intro p; rfl) : PathSet :=
  ⟨s.toList.map f, by
    refine List.Pairwise.map _ (fun p q h => ?_) s.ascending
    rwa [keepsId, keepsId]⟩

/-! ### Packets to send again -/

/-- The packets waiting to be sent again, in the order in which they are taken. -/
def queued (s : PathSet) : List Packet := s.toList.flatMap (·.queue)

/-- How many packets wait to be sent again. -/
def pending (s : PathSet) : Nat := s.queued.length

/-- The oldest packet of the lowest path that has one to send again, with that path's number and
the set without the packet. -/
def dequeue? (s : PathSet) : Option (PathId × Packet × PathSet) :=
  (s.toList.find? (!·.queue.isEmpty)).bind fun p =>
    p.queue.head?.map fun packet =>
      (p.id, packet, s.update p.id fun q => { q with queue := q.queue.tail })

end PathSet

end Multipath
