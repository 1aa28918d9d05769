/-!
# Identifiers

The numbers by which a multipath connection names its parts, each a type of its own.

* `PathId`, `StreamId`, `ConnectionId`, `Version`: fixed-width numbers that are only compared
  and shown.
* `PacketNumber`: a natural number below `2 ^ 64`; `next` and `prev` stop at the ends, so that
  neighbours can be compared as plain naturals.
* `EncryptionLevel`: what a packet was sealed with; everything before the last level is
  handshake traffic.
-/

namespace Multipath

/-- Congestion windows, bytes in flight, packet lengths and stream offsets. -/
abbrev ByteCount := UInt64

/-- The size of a full packet; windows are also counted in packets of this size. -/
def maxPacketSize : ByteCount := 1350

/-- The segment size congestion windows are measured in when the learned policy looks at them. -/
def defaultSegmentSize : ByteCount := 1460

/-- Whole packets that still fit into a congestion window. -/
def packetsInWindow (window inFlight : ByteCount) : UInt64 :=
  if inFlight ≤ window then (window - inFlight) / maxPacketSize else 0

/-- Hexadecimal digits, lower case, without leading zeros. -/
def hexDigits (n : Nat) : String := String.ofList (Nat.toDigits 16 n)

/-! ### Paths -/

/-- The number of a path within its connection. -/
structure PathId where
  number : UInt8
deriving DecidableEq, Repr, Inhabited

namespace PathId

/-- The path a connection starts on. It carries the handshake, and fresh data only as long as
no other path exists. -/
def initial : PathId := ⟨0⟩

/-- The first additional path. -/
def primary : PathId := ⟨1⟩

def isInitial (id : PathId) : Bool := id == initial

instance : LT PathId := ⟨fun a b => a.number < b.number⟩

instance (a b : PathId) : Decidable (a < b) :=
  inferInstanceAs (Decidable (a.number < b.number))

instance : ToString PathId := ⟨fun id => toString id.number.toNat⟩

end PathId

/-! ### Packets -/

/-- The number of a packet on its path. Zero is never sent. -/
structure PacketNumber where
  val : Nat
  bounded : val < 18446744073709551616
deriving DecidableEq, Repr

namespace PacketNumber

/-- The number no packet has. -/
def zero : PacketNumber := ⟨0, by decide⟩

/-- The number of a path's first packet. -/
def one : PacketNumber := ⟨1, by decide⟩

instance : Inhabited PacketNumber := ⟨zero⟩

/-- The packet number with this value, if there is one. -/
def ofNat? (n : Nat) : Option PacketNumber :=
  if h : n < 18446744073709551616 then some ⟨n, h⟩ else none

/-- The following number; the greatest one is its own successor. -/
def next (n : PacketNumber) : PacketNumber :=
  if h : n.val + 1 < 18446744073709551616 then ⟨n.val + 1, h⟩ else n

/-- The preceding number; zero is its own predecessor. -/
def prev (n : PacketNumber) : PacketNumber :=
  ⟨n.val - 1, Nat.lt_of_le_of_lt (Nat.sub_le _ _) n.bounded⟩

instance : LT PacketNumber := ⟨fun a b => a.val < b.val⟩

instance : LE PacketNumber := ⟨fun a b => a.val ≤ b.val⟩

instance (a b : PacketNumber) : Decidable (a < b) := inferInstanceAs (Decidable (a.val < b.val))

instance (a b : PacketNumber) : Decidable (a ≤ b) := inferInstanceAs (Decidable (a.val ≤ b.val))

instance : ToString PacketNumber := ⟨fun n => "0x" ++ hexDigits n.val⟩

theorem ext {a b : PacketNumber} (h : a.val = b.val) : a = b := by
  cases a; cases b; cases h; rfl

theorem lt_def {a b : PacketNumber} : a < b ↔ a.val < b.val := Iff.rfl

theorem le_def {a b : PacketNumber} : a ≤ b ↔ a.val ≤ b.val := Iff.rfl

/-- Below some other number there is room for a true successor. -/
theorem next_val {a b : PacketNumber} (h : a < b) : a.next.val = a.val + 1 := by
  have := b.bounded
  rw [lt_def] at h
  simp only [next]
  split
  · rfl
  · omega

end PacketNumber

/-! ### Streams, connections, versions -/

/-- The number of a stream within its connection. -/
structure StreamId where
  number : UInt32
deriving DecidableEq, Repr, Inhabited

instance : ToString StreamId := ⟨fun id => toString id.number.toNat⟩

/-- The number under which the learned policy's agent knows a connection. -/
structure ConnectionId where
  number : UInt64
deriving DecidableEq, Repr, Inhabited

instance : ToString ConnectionId := ⟨fun id => hexDigits id.number.toNat⟩

/-- The protocol version a connection has settled on. -/
structure Version where
  number : UInt32
deriving DecidableEq, Repr

namespace Version

def v37 : Version := ⟨37⟩

def v38 : Version := ⟨38⟩

def v39 : Version := ⟨39⟩

instance : Inhabited Version := ⟨v39⟩

/-- Before version 39 every `Receiver.packetsBeforeAck`-th packet forces an acknowledgement. -/
def forcesPeriodicAck (v : Version) : Bool := v.number < v39.number

end Version

/-! ### Encryption levels -/

/-- What a packet is sealed with. -/
inductive EncryptionLevel where
  /-- Handshake data, before any key is agreed. -/
  | unencrypted
  /-- Initial keys; the handshake is not yet confirmed. -/
  | secure
  /-- Fully protected application data. -/
  | forwardSecure
deriving DecidableEq, Repr, Inhabited

/-- Whether packets at this level belong to the handshake. -/
def EncryptionLevel.isHandshake : EncryptionLevel → Bool
  | .forwardSecure => false
  | _ => true

end Multipath
