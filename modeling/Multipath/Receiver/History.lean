import Multipath.Error
import Multipath.Frame

/-!
# Receive history

The set of packet numbers that have arrived on a path, kept as its maximal blocks, highest
first: the order in which acknowledgements list them. The number of blocks is bounded, so a
packet that would open one block too many is refused.

* `record`: a number is new, already there, or refused; a refused number changes nothing.
* `forgetUpTo`: drops every number up to a limit, and with it the part of a block below it.
-/

namespace Multipath

/-- Received packet numbers, as blocks that neither overlap nor touch. -/
structure History where
  /-- The blocks, highest first. -/
  ranges : List AckRange
  /-- How many blocks there may be. -/
  limit : Nat
deriving DecidableEq, Repr

namespace History

/-- The number of blocks kept per path. -/
def maxRanges : Nat := 1000

/-- Nothing received yet. -/
def empty (limit : Nat) : History := ⟨[], limit⟩

instance : Inhabited History := ⟨empty maxRanges⟩

/-- Whether packet `n` has arrived. -/
def contains (h : History) (n : PacketNumber) : Bool := h.ranges.any (·.contains n)

instance : Membership PacketNumber History := ⟨fun h n => h.contains n = true⟩

instance (n : PacketNumber) (h : History) : Decidable (n ∈ h) :=
  inferInstanceAs (Decidable (h.contains n = true))

def isEmpty (h : History) : Bool := h.ranges.isEmpty

/-- The number of blocks. -/
def size (h : History) : Nat := h.ranges.length

/-- The highest block. -/
def highest? (h : History) : Option AckRange := h.ranges.head?

/-- Adds a number that no block holds: to a block it touches, joining two blocks if it touches
both, and as a block of its own otherwise. -/
def addTo (n : PacketNumber) : List AckRange → List AckRange
  | [] => [.single n]
  | r :: rest =>
    if r.last.val + 1 < n.val then .single n :: r :: rest
    else if r.last.val + 1 = n.val then ⟨r.first, n⟩ :: rest
    else if n.val + 1 = r.first.val then
      match rest with
      | [] => [⟨n, r.last⟩]
      | s :: below =>
        if s.last.val + 1 = n.val then ⟨s.first, r.last⟩ :: below
        else ⟨n, r.last⟩ :: s :: below
    else r :: addTo n rest

/-- Records the arrival of packet `n`. The answer says whether the number is new. -/
def record (h : History) (n : PacketNumber) : Except Error (Bool × History) :=
  if n ∈ h then .ok (false, h)
  else
    let ranges := addTo n h.ranges
    if h.limit < ranges.length then .error (.tooManyRanges h.limit)
    else .ok (true, { h with ranges })

/-- What is left of a block once every number up to `n` is forgotten. -/
def clip? (n : PacketNumber) (r : AckRange) : Option AckRange :=
  if r.last ≤ n then none
  else if r.first ≤ n then some ⟨n.next, r.last⟩
  else some r

/-- Forgets every packet number up to `n`. -/
def forgetUpTo (h : History) (n : PacketNumber) : History :=
  { h with ranges := h.ranges.filterMap (clip? n) }

end History

end Multipath
