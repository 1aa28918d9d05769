import Multipath.Config.Basic
import Multipath.Time.Text
import Multipath.Toml.Value

/-!
# Configurations as documents

The names and forms under which the settings stand in a configuration file.

* `Config.toTable` writes every setting.
* `Config.ofTable?` takes its default for a setting that is missing and ignores names it does not
  know. It refuses a value of the wrong form, a number out of range, and a path's cost without the
  path or the cost.

In place of a table of settings an array is accepted that has them in order, or a date, which has
none of them, and in place of the name of a strategy a table that has it as its only name, with
nothing under it.
-/

namespace Multipath

open Toml

namespace Toml.Value

/-! ### Forms -/

/-- A string. -/
def string? : Value → Option String
  | .string text => some text
  | _ => none

/-- A boolean. -/
def boolean? : Value → Option Bool
  | .boolean b => some b
  | _ => none

/-- A double; an integer stands for the double nearest to it. -/
def float? : Value → Option Float
  | .float x => some x
  | .integer n => some (Float.ofInt n)
  | _ => none

/-- A natural number below `bound`. -/
def natBelow? (bound : Nat) : Value → Option Nat
  | .integer n => if 0 ≤ n ∧ n < bound then some n.toNat else none
  | _ => none

/-- Nothing: an empty table or array. -/
def isEmpty : Value → Bool
  | .table entries => entries.isEmpty
  | .array items => items.isEmpty
  | _ => false

/-- One of a set of names. -/
def name? : Value → Option String
  | .string name => some name
  | .table [(name, v)] => if v.isEmpty then some name else none
  | _ => none

/-- A duration. -/
def duration? (v : Value) : Option Duration := v.string?.bind Duration.parse?

/-- The string for a duration. -/
def ofDuration (d : Duration) : Value := .string d.render

/-! ### Records -/

/-- The settings of a record with the given names: a table has them by name, and an array in
order. A date or time is a record without settings. -/
def record? (names : List String) : Value → Option Table
  | .table entries => some entries
  | .array items => some (names.zip items)
  | .moment _ => some []
  | _ => none

end Toml.Value

/-- A setting of a record, or its default if it is missing. -/
def Toml.setting {α : Type} (record : Table) (name : String) (form : Value → Option α)
    (default : α) : Option α :=
  match record.lookup name with
  | none => some default
  | some v => form v

/-! ### The records of a configuration -/

namespace SchedulerConfig

/-- The names under which the settings for single packets are written, in order. -/
def names : List String :=
  ["strategy", "training", "dump_experiences", "dump_path", "allowed_congestion_percent",
    "ack_send_delay"]

/-- The table for the settings for single packets. -/
def toValue (c : SchedulerConfig) : Value :=
  .table [("strategy", .string c.strategy.name), ("training", .boolean c.training),
    ("dump_experiences", .boolean c.recordsExperience), ("dump_path", .string c.recordPath),
    ("allowed_congestion_percent", .integer c.allowedCongestion.toNat),
    ("ack_send_delay", .ofDuration c.ackDelay)]

/-- The settings for single packets in a value. -/
def ofValue? (v : Value) : Option SchedulerConfig := do
  let record ← v.record? names
  let base : SchedulerConfig := {}
  return {
    strategy := ← setting record "strategy" (·.name?.bind Strategy.ofName?) base.strategy
    training := ← setting record "training" Value.boolean? base.training
    recordsExperience := ←
      setting record "dump_experiences" Value.boolean? base.recordsExperience
    recordPath := ← setting record "dump_path" Value.string? base.recordPath
    allowedCongestion := ←
      setting record "allowed_congestion_percent"
        (fun v => (v.natBelow? 4294967296).map UInt32.ofNat) base.allowedCongestion
    ackDelay := ← setting record "ack_send_delay" Value.duration? base.ackDelay }

end SchedulerConfig

namespace PathCost

/-- The names of a path and its cost, in order. -/
def names : List String := ["path", "cost"]

/-- The table for a path's cost. -/
def toValue (c : PathCost) : Value :=
  .table [("path", .integer c.path.number.toNat), ("cost", .float c.cost)]

/-- Neither the path nor the cost has a default. -/
def ofValue? (v : Value) : Option PathCost := do
  let record ← v.record? names
  let path ← (← record.lookup "path").natBelow? 256
  let cost ← (← record.lookup "cost").float?
  return ⟨⟨UInt8.ofNat path⟩, cost⟩

/-- The costs in an array. -/
def listOfValue? : Value → Option (List PathCost)
  | .array items => items.mapM ofValue?
  | _ => none

end PathCost

namespace BatchConfig

/-- The names under which the settings for batches are written, in order. -/
def names : List String :=
  ["strategy", "cost_constraint", "budget", "path_costs", "bandit", "min_generated_deadline",
    "max_generated_deadline"]

/-- The table for the settings for batches. -/
def toValue (c : BatchConfig) : Value :=
  .table [("strategy", .string c.strategy.name), ("cost_constraint", .boolean c.limitsCost),
    ("budget", .float c.budget), ("path_costs", .array (c.costs.map (·.toValue))),
    ("bandit", .boolean c.scalesDelays), ("min_generated_deadline", .ofDuration c.minDeadline),
    ("max_generated_deadline", .ofDuration c.maxDeadline)]

/-- The settings for batches in a value. -/
def ofValue? (v : Value) : Option BatchConfig := do
  let record ← v.record? names
  let base : BatchConfig := {}
  return {
    strategy := ← setting record "strategy" (·.name?.bind BatchStrategy.ofName?) base.strategy
    limitsCost := ← setting record "cost_constraint" Value.boolean? base.limitsCost
    budget := ← setting record "budget" Value.float? base.budget
    costs := ← setting record "path_costs" PathCost.listOfValue? base.costs
    scalesDelays := ← setting record "bandit" Value.boolean? base.scalesDelays
    minDeadline := ← setting record "min_generated_deadline" Value.duration? base.minDeadline
    maxDeadline := ← setting record "max_generated_deadline" Value.duration? base.maxDeadline }

end BatchConfig

namespace LoggingConfig

/-- The names under which the settings for logging are written, in order. -/
def names : List String := ["level", "format", "color"]

/-- The table for the settings for logging. -/
def toValue (c : LoggingConfig) : Value :=
  .table [("level", .string c.level), ("format", .string c.format), ("color", .boolean c.color)]

/-- The settings for logging in a value. -/
def ofValue? (v : Value) : Option LoggingConfig := do
  let record ← v.record? names
  let base : LoggingConfig := {}
  return {
    level := ← setting record "level" Value.string? base.level
    format := ← setting record "format" Value.string? base.format
    color := ← setting record "color" Value.boolean? base.color }

end LoggingConfig

namespace Config

/-- The table that holds a configuration. -/
def toTable (c : Config) : Table :=
  [("scheduler", c.scheduler.toValue), ("batch", c.batch.toValue),
    ("logging", c.logging.toValue)]

/-- The configuration in a table. -/
def ofTable? (table : Table) : Option Config := do
  let base : Config := {}
  return {
    scheduler := ← setting table "scheduler" SchedulerConfig.ofValue? base.scheduler
    batch := ← setting table "batch" BatchConfig.ofValue? base.batch
    logging := ← setting table "logging" LoggingConfig.ofValue? base.logging }

end Config

end Multipath
