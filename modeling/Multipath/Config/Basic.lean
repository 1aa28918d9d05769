import Multipath.Decimal.Shortest
import Multipath.Receiver.Basic
import Multipath.Scheduler.Strategy

/-!
# Configuration

What a user may set: how single packets and batches are scheduled, and how the program logs.

`Config.check` finds the first setting that is out of bounds, in the order of the settings; a
configuration is accepted if there is none.
-/

namespace Multipath

/-- Settings for the scheduling of single packets. -/
structure SchedulerConfig where
  strategy : Strategy := .lowestRtt
  /-- The learned policy is being trained. -/
  training : Bool := false
  /-- The decisions of the learned policy are recorded when it is not being trained. -/
  recordsExperience : Bool := false
  /-- The directory for the records. -/
  recordPath : String := "/tmp/"
  /-- By how much of its window the random strategy may overcommit a path, in percent. -/
  allowedCongestion : UInt32 := 0
  /-- How long an acknowledgement may wait for company. -/
  ackDelay : Duration := Receiver.defaultAckDelay
deriving DecidableEq, Repr, Inhabited

/-- The price of one packet on a path. -/
structure PathCost where
  path : PathId
  cost : Float
deriving Repr, Inhabited

/-- Settings for the scheduling of batches. -/
structure BatchConfig where
  strategy : BatchStrategy := .firstPath
  /-- A batch may not cost more than `budget`. -/
  limitsCost : Bool := false
  budget : Float := 4.0
  /-- The first entry for a path counts; a path without one is free. -/
  costs : List PathCost := [⟨⟨1⟩, 1.5⟩, ⟨⟨3⟩, 0.5⟩]
  /-- Estimated delays are scaled by the path's exploration multiplier. -/
  scalesDelays : Bool := false
  minDeadline : Duration := .ofMillis 10
  maxDeadline : Duration := .ofMillis 40
deriving Repr, Inhabited

/-- Settings for logging. -/
structure LoggingConfig where
  level : String := "info"
  /-- `text` or `json`. -/
  format : String := "text"
  color : Bool := true
deriving DecidableEq, Repr, Inhabited

/-- All settings. -/
structure Config where
  scheduler : SchedulerConfig := {}
  batch : BatchConfig := {}
  logging : LoggingConfig := {}
deriving Repr, Inhabited

/-- The receiving side of a new path. -/
def SchedulerConfig.receiver (c : SchedulerConfig) (version : Version) : Receiver :=
  .new version c.ackDelay

/-- What one packet on this path costs. -/
def BatchConfig.costOf (c : BatchConfig) (id : PathId) : Float :=
  match c.costs.find? (·.path == id) with
  | some entry => entry.cost
  | none => 0.0

/-! ### Bounds -/

/-- A setting out of bounds. -/
inductive ConfigFault where
  | missingRecordPath
  | congestionAboveHundred (percent : UInt32)
  | badBudget (budget : Float)
  | badCost (entry : PathCost)
  | deadlinesReversed
  | unknownLogFormat (format : String)
deriving Repr, Inhabited

/-- The wording of a fault. -/
def ConfigFault.message : ConfigFault → String
  | missingRecordPath => "Experience dump enabled but no dump path"
  | congestionAboveHundred percent =>
      "Allowed congestion " ++ toString percent.toNat ++ "% exceeds 100%"
  | badBudget budget => "Invalid budget " ++ Decimal.display budget
  | badCost entry =>
      "Invalid cost " ++ Decimal.display entry.cost ++ " for path " ++ toString entry.path
  | deadlinesReversed => "Minimum generated deadline exceeds maximum"
  | unknownLogFormat format => "Unknown log format " ++ format

/-- Whether an amount is a finite number that is not negative. -/
def isAmount (x : Float) : Bool := x.isFinite && !(x < 0.0)

namespace Config

/-- The faults that the settings can have, in the order in which they are reported. -/
def faults (c : Config) : List (Option ConfigFault) :=
  [ if c.scheduler.recordsExperience && c.scheduler.recordPath.isEmpty then
      some .missingRecordPath
    else none,
    if 100 < c.scheduler.allowedCongestion then
      some (.congestionAboveHundred c.scheduler.allowedCongestion)
    else none,
    if isAmount c.batch.budget then none else some (.badBudget c.batch.budget),
    (c.batch.costs.find? fun entry => !isAmount entry.cost).map .badCost,
    if c.batch.maxDeadline < c.batch.minDeadline then some .deadlinesReversed else none,
    if c.logging.format = "text" ∨ c.logging.format = "json" then none
    else some (.unknownLogFormat c.logging.format) ]

/-- The first setting that is out of bounds. -/
def check (c : Config) : Option ConfigFault := c.faults.findSome? id

/-- Refuses settings out of bounds. -/
def validate (c : Config) : Except Error Unit :=
  match c.check with
  | some fault => .error (.invalidConfig fault.message)
  | none => .ok ()

end Config

end Multipath
