import Multipath.Frame
import Multipath.Json.Value
import Multipath.Scheduler.Strategy

/-!
# The library's types in JSON

A `Codec` reads and writes the values of a type as JSON. Identifiers are natural numbers, choices
are names, and a range is an object.

* `Codec.decode`: the value that a text stands for, or an error.
* `Codec.render`: the text of a value, without blanks.
-/

namespace Multipath.Json

/-- How a type is read and written as JSON. -/
structure Codec (α : Type) where
  ofValue? : Value → Option α
  render : α → String

namespace Codec

variable {α : Type}

/-- The value that a text stands for. -/
def decode (c : Codec α) (text : String) : Except Error α :=
  match (parse? text).bind c.ofValue? with
  | some a => .ok a
  | none => .error (.serialization "invalid JSON")

/-! ### Numbers -/

/-- A type of numbers below a bound. -/
def ofNat (bound : Nat) (make : Nat → α) (number : α → Nat) : Codec α where
  ofValue?
    | .natural n => if n < bound then some (make n) else none
    | _ => none
  render a := toString (number a)

def packetNumber : Codec PacketNumber where
  ofValue?
    | .natural n => PacketNumber.ofNat? n
    | _ => none
  render n := toString n.val

def pathId : Codec PathId := ofNat 256 (⟨UInt8.ofNat ·⟩) (·.number.toNat)

def streamId : Codec StreamId := ofNat 4294967296 (⟨UInt32.ofNat ·⟩) (·.number.toNat)

def connectionId : Codec ConnectionId :=
  ofNat 18446744073709551616 (⟨UInt64.ofNat ·⟩) (·.number.toNat)

def version : Codec Version := ofNat 4294967296 (⟨UInt32.ofNat ·⟩) (·.number.toNat)

/-! ### Names -/

/-- The name of a choice: a string, or an object that has it as its only name, with null under
it. -/
def name? : Value → Option String
  | .string text => text
  | .object [(name, .null)] => name
  | _ => none

/-- A type of named choices. The names need no escapes. -/
def ofNames (all : List α) (name : α → String) : Codec α where
  ofValue? v := (name? v).bind fun text => all.find? (name · == text)
  render a := "\"" ++ name a ++ "\""

def strategy : Codec Strategy := ofNames Strategy.all Strategy.name

def batchStrategy : Codec BatchStrategy := ofNames BatchStrategy.all BatchStrategy.name

/-- The name of an encryption level. -/
def levelName : EncryptionLevel → String
  | .unencrypted => "unencrypted"
  | .secure => "secure"
  | .forwardSecure => "forward_secure"

def encryptionLevel : Codec EncryptionLevel :=
  ofNames [.unencrypted, .secure, .forwardSecure] levelName

/-! ### Ranges -/

/-- The value under a name that stands there once. -/
def only? (entries : List (Option String × Value)) (name : String) : Option Value :=
  match entries.filter (·.1 == some name) with
  | [(_, v)] => some v
  | _ => none

/-- A range: an object with its ends, in which other names may stand, or an array of both ends. All
names have to be text. -/
def ackRange : Codec AckRange where
  ofValue?
    | .object entries =>
      if entries.any (·.1.isNone) then none
      else do
        let first ← packetNumber.ofValue? (← only? entries "first")
        let last ← packetNumber.ofValue? (← only? entries "last")
        return ⟨first, last⟩
    | .array [first, last] => do
      return ⟨← packetNumber.ofValue? first, ← packetNumber.ofValue? last⟩
    | _ => none
  render r :=
    "\x7b\"first\":" ++ packetNumber.render r.first ++ ",\"last\":" ++ packetNumber.render r.last
      ++ "\x7d"

end Codec

end Multipath.Json
