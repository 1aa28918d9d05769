import Multipath.Config.Document

/-!
# Settings read back

The settings that stand in a table are read from it by their names, so their order does not
matter.

* `SchedulerConfig.ofValue?_toValue`, `LoggingConfig.ofValue?_toValue`,
  `PathCost.listOfValue?_map`: what is written is read back.
* `BatchConfig.ofValue?_of_lookups`, `Config.ofTable?_of_lookups`: so are the settings for batches,
  and a configuration, in any table that has them under their names.
-/

namespace Multipath

open Toml

/-! ### Names of strategies -/

@[simp] theorem Strategy.ofName?_name (s : Strategy) : Strategy.ofName? s.name = some s := by
  cases s <;> rfl

@[simp] theorem BatchStrategy.ofName?_name (s : BatchStrategy) :
    BatchStrategy.ofName? s.name = some s := by
  cases s <;> rfl

/-! ### Forms -/

namespace Toml

@[simp] theorem Value.duration?_ofDuration {d : Duration} (h : Duration.parse? d.render = some d) :
    (Value.ofDuration d).duration? = some d :=
  h

/-- A natural number in range is read back. -/
@[simp] theorem Value.natBelow?_integer {n bound : Nat} (h : n < bound) :
    (Value.integer n).natBelow? bound = some n := by
  have hrange : (0 : Int) ≤ n ∧ (n : Int) < bound := by omega
  simp [natBelow?, hrange]

end Toml

/-! ### Records -/

/-- The settings for single packets are read from any table that has them under their names. -/
theorem SchedulerConfig.ofValue?_of_lookups {c : SchedulerConfig} {record : Table}
    (hdelay : Duration.parse? c.ackDelay.render = some c.ackDelay)
    (hstrategy : record.lookup "strategy" = some (.string c.strategy.name))
    (htraining : record.lookup "training" = some (.boolean c.training))
    (hrecords : record.lookup "dump_experiences" = some (.boolean c.recordsExperience))
    (hpath : record.lookup "dump_path" = some (.string c.recordPath))
    (hcongestion : record.lookup "allowed_congestion_percent"
      = some (.integer c.allowedCongestion.toNat))
    (hack : record.lookup "ack_send_delay" = some (.ofDuration c.ackDelay)) :
    SchedulerConfig.ofValue? (.table record) = some c := by
  have hpercent : c.allowedCongestion.toNat < 4294967296 := c.allowedCongestion.toNat_lt
  simp [ofValue?, Value.record?, setting, hstrategy, htraining, hrecords, hpath, hcongestion, hack,
    Value.name?, Value.boolean?, Value.string?, hdelay, hpercent]

theorem SchedulerConfig.ofValue?_toValue {c : SchedulerConfig}
    (h : Duration.parse? c.ackDelay.render = some c.ackDelay) :
    SchedulerConfig.ofValue? c.toValue = some c :=
  ofValue?_of_lookups h rfl rfl rfl rfl rfl rfl

theorem LoggingConfig.ofValue?_toValue (c : LoggingConfig) :
    LoggingConfig.ofValue? c.toValue = some c :=
  rfl

namespace PathCost

theorem ofValue?_of_lookups {c : PathCost} {record : Table}
    (hpath : record.lookup "path" = some (.integer c.path.number.toNat))
    (hcost : record.lookup "cost" = some (.float c.cost)) :
    PathCost.ofValue? (.table record) = some c := by
  have hbound : c.path.number.toNat < 256 := c.path.number.toNat_lt
  simp [ofValue?, Value.record?, hpath, hcost, Value.float?, hbound]

theorem ofValue?_toValue (c : PathCost) : PathCost.ofValue? c.toValue = some c :=
  ofValue?_of_lookups rfl rfl

theorem listOfValue?_map (costs : List PathCost) :
    PathCost.listOfValue? (.array (costs.map (·.toValue))) = some costs := by
  simp only [listOfValue?, List.mapM_map]
  induction costs with
  | nil => rfl
  | cons c rest ih => simp [List.mapM_cons, ofValue?_toValue, ih]

end PathCost

/-- The settings for batches are read from any table that has them under their names. -/
theorem BatchConfig.ofValue?_of_lookups {c : BatchConfig} {record : Table}
    (hmin : Duration.parse? c.minDeadline.render = some c.minDeadline)
    (hmax : Duration.parse? c.maxDeadline.render = some c.maxDeadline)
    (hstrategy : record.lookup "strategy" = some (.string c.strategy.name))
    (hlimits : record.lookup "cost_constraint" = some (.boolean c.limitsCost))
    (hbudget : record.lookup "budget" = some (.float c.budget))
    (hcosts : record.lookup "path_costs" = some (.array (c.costs.map (·.toValue))))
    (hscales : record.lookup "bandit" = some (.boolean c.scalesDelays))
    (hleast : record.lookup "min_generated_deadline" = some (.ofDuration c.minDeadline))
    (hmost : record.lookup "max_generated_deadline" = some (.ofDuration c.maxDeadline)) :
    BatchConfig.ofValue? (.table record) = some c := by
  simp [ofValue?, Value.record?, setting, hstrategy, hlimits, hbudget, hcosts, hscales, hleast,
    hmost, Value.name?, Value.boolean?, Value.float?, PathCost.listOfValue?_map, hmin, hmax]

/-- A configuration is read from a table that has its records under their names. -/
theorem Config.ofTable?_of_lookups {c : Config} {table : Table} {scheduler batch logging : Value}
    (hscheduler : table.lookup "scheduler" = some scheduler)
    (hbatch : table.lookup "batch" = some batch)
    (hlogging : table.lookup "logging" = some logging)
    (hsingle : SchedulerConfig.ofValue? scheduler = some c.scheduler)
    (hmany : BatchConfig.ofValue? batch = some c.batch)
    (hlog : LoggingConfig.ofValue? logging = some c.logging) :
    Config.ofTable? table = some c := by
  simp [ofTable?, setting, hscheduler, hbatch, hlogging, hsingle, hmany, hlog]

end Multipath
