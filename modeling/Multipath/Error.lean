import Multipath.Identifier

/-!
# Errors

Every way an operation of the library can fail, as a cause; `Error.message` is the one place
that words them.
-/

namespace Multipath

/-- Why an operation failed. -/
inductive Error where
  /-- A packet with a number that is never sent arrived. -/
  | invalidPacketNumber (number : PacketNumber)
  /-- A packet would have opened one range more than a receive history holds. -/
  | tooManyRanges (limit : Nat)
  /-- The record of sent packets of a path is full. -/
  | tooManyTrackedPackets
  /-- A packet could not be built. -/
  | packing (reason : String)
  /-- A packet could not be sent. -/
  | sending (reason : String)
  /-- A training episode was cut short. -/
  | zeroTolerance (reason : String)
  /-- A linear program has no solution. -/
  | linearProgram (reason : String)
  /-- The text of a configuration cannot be read. -/
  | config (reason : String)
  /-- A configuration holds a value out of bounds. -/
  | invalidConfig (reason : String)
  /-- No selection strategy has this name. -/
  | unknownStrategy (name : String)
  /-- A file could not be written or read. -/
  | io (reason : String)
  /-- A value could not be written or read as text. -/
  | serialization (reason : String)
  /-- Anything else. -/
  | other (reason : String)
deriving DecidableEq, Repr, Inhabited

/-- The wording of an error. -/
def Error.message : Error → String
  | .invalidPacketNumber n => "invalid packet number: " ++ toString n
  | .tooManyRanges limit =>
      "too many outstanding received ACK ranges (limit " ++ toString limit ++ ")"
  | .tooManyTrackedPackets => "too many outstanding non-acked and non-retransmitted packets"
  | .packing reason => "packing failed: " ++ reason
  | .sending reason => "send failed: " ++ reason
  | .zeroTolerance reason => "closing: zero tolerance (" ++ reason ++ ")"
  | .linearProgram reason => "linear program failed: " ++ reason
  | .config reason => "configuration error: " ++ reason
  | .invalidConfig reason => "invalid configuration: " ++ reason
  | .unknownStrategy name => "unknown strategy: " ++ name
  | .io reason => "IO error: " ++ reason
  | .serialization reason => "serialization error: " ++ reason
  | .other reason => reason

end Multipath
