import Multipath.Config.File
import Multipath.Proofs.Config.Records
import Multipath.Proofs.Time.Rendering
import Multipath.Proofs.Toml.Blocks
import Multipath.Proofs.Toml.Doubles

/-!
# Configuration files read back

A configuration is written in sections, one for each of its records and one for each path's cost.
The text shows the statements of these sections, the statements add up to a table, and the settings
are read from the table by their names. The costs stand behind the other settings for batches, or
among them if there are none, which makes no difference to a reader that goes by names.

* `Config.sections`: the statements of the file for a configuration, section by section.
* `Config.write_toTable`: the text of the file shows these statements.
* `Config.ofStatements?_sections`: the table that they add up to.
* `Config.load_save`: a configuration that was saved is loaded again, or refused for the fault that
  it has.
-/

namespace Multipath

open Toml

/-- The entries of a table. -/
def Toml.Value.entries : Value → Table
  | .table record => record
  | _ => []

/-- The array of tables for the costs of paths is written in blocks, unless it is empty. -/
theorem BatchConfig.plain_entries (c : BatchConfig) :
    plain c.toValue.entries =
      ([("strategy", .string c.strategy.name), ("cost_constraint", .boolean c.limitsCost),
        ("budget", .float c.budget)] : Table) ++
      (if c.costs = [] then [("path_costs", .array [])] else [] : Table) ++
      ([("bandit", .boolean c.scalesDelays), ("min_generated_deadline", .ofDuration c.minDeadline),
        ("max_generated_deadline", .ofDuration c.maxDeadline)] : Table) := by
  cases hcosts : c.costs with
  | nil => simp [plain, toValue, Value.entries, Value.hasBlocks, Value.ofDuration, hcosts]
  | cons cost costs =>
    simp [plain, toValue, Value.entries, Value.hasBlocks, Value.ofDuration, hcosts,
      PathCost.toValue]

theorem BatchConfig.filter_entries (c : BatchConfig) :
    c.toValue.entries.filter (·.2.hasBlocks) =
      if c.costs = [] then [] else [("path_costs", .array (c.costs.map (·.toValue)))] := by
  cases hcosts : c.costs with
  | nil => simp [toValue, Value.entries, Value.hasBlocks, Value.ofDuration, hcosts]
  | cons cost costs =>
    simp [toValue, Value.entries, Value.hasBlocks, Value.ofDuration, hcosts, PathCost.toValue]

theorem PathCost.plain_entries (c : PathCost) : plain c.toValue.entries = c.toValue.entries := by
  simp [plain, toValue, Value.entries, Value.hasBlocks]

theorem PathCost.table_entries (c : PathCost) : Value.table c.toValue.entries = c.toValue :=
  rfl

/-- The blocks for the settings for batches: a section of their own, and one for each cost. -/
theorem BatchConfig.blocks_toValue (c : BatchConfig) :
    c.toValue.blocks ["batch"] =
      sectionText (.table ["batch"] :: entriesOf (plain c.toValue.entries)) ::
        c.costs.map fun cost =>
          sectionText (.element ["batch", "path_costs"] :: entriesOf cost.toValue.entries) := by
  have hne : plain c.toValue.entries ≠ [] := by simp [plain_entries]
  refine (Value.blocks_table hne).trans ?_
  rw [filter_entries]
  by_cases hcosts : c.costs = []
  · simp [hcosts, blocksOfEntries]
  · have hblocks : (Value.array (c.costs.map (·.toValue))).hasBlocks := by
      simp [Value.hasBlocks, hcosts, PathCost.toValue]
    have hplain : ∀ record ∈ c.costs.map (·.toValue.entries), plain record = record := by
      simpa using fun cost _ => cost.plain_entries
    have helements := blocksOfElements_map ["batch", "path_costs"] hplain
    simp only [List.map_map, Function.comp_def, PathCost.table_entries] at helements
    rw [if_neg hcosts, blocksOfEntries, Value.blocks, if_pos hblocks]
    simpa [blocksOfEntries] using helements

/-- The table for the settings for batches as it is read back: an array of tables comes last. -/
def BatchConfig.filed (c : BatchConfig) : Table :=
  plain c.toValue.entries ++ c.toValue.entries.filter (·.2.hasBlocks)

theorem SchedulerConfig.blocks_toValue (c : SchedulerConfig) :
    c.toValue.blocks ["scheduler"]
      = [sectionText (.table ["scheduler"] :: entriesOf c.toValue.entries)] :=
  Value.blocks_plain (by simp [plain, Value.hasBlocks, Value.ofDuration]) (by simp)

theorem LoggingConfig.blocks_toValue (c : LoggingConfig) :
    c.toValue.blocks ["logging"]
      = [sectionText (.table ["logging"] :: entriesOf c.toValue.entries)] :=
  Value.blocks_plain (by simp [plain, Value.hasBlocks]) (by simp)

/-! ### Settings on a line -/

theorem Toml.legible_nil : ∀ s ∈ entriesOf [], s.Legible := by
  simp [entriesOf]

/-- An entry is read back from its line, if its value is. -/
theorem Toml.legible_cons {name : String} {v : Value} {record : Table} (hname : Bare name)
    (hvalue : v.Inline) (hrecord : ∀ s ∈ entriesOf record, s.Legible) :
    ∀ s ∈ entriesOf ((name, v) :: record), s.Legible := by
  intro s hs
  rcases List.mem_cons.mp hs with rfl | hs
  · exact ⟨name, rfl, hname, hvalue⟩
  · exact hrecord s hs

theorem Duration.plain_render (d : Duration) : Quoted.Plain d.render := by
  intro c hc
  cases hcontrol : Quoted.isControl c with
  | false => rfl
  | true =>
    have hcode : c.toNat < 32 ∨ c.toNat = 127 := by
      simp [Quoted.isControl] at hcontrol
      omega
    rcases Duration.mem_render hc with rfl | hdigit | hletter
    · revert hcontrol
      decide
    · have := Number.bounds_of_isDigit hdigit
      omega
    · have hbounds : (65 ≤ c.toNat ∧ c.toNat ≤ 90 ∨ 97 ≤ c.toNat ∧ c.toNat ≤ 122) ∨ c = 'µ' := by
        simpa [Duration.isUnitLetter, Char.isAlpha, Char.isUpper, Char.isLower,
          UInt32.le_iff_toNat_le] using hletter
      rcases hbounds with hbounds | rfl
      · omega
      · revert hcontrol
        decide

theorem Toml.Value.inline_duration (d : Duration) : (Value.ofDuration d).Inline :=
  Value.inline_string d.plain_render

theorem SchedulerConfig.legible_entries (c : SchedulerConfig) (h : Quoted.Plain c.recordPath) :
    ∀ s ∈ entriesOf c.toValue.entries, s.Legible := by
  have hstrategy : Quoted.Plain c.strategy.name := by cases c.strategy <;> decide
  have hpercent : c.allowedCongestion.toNat ≤ 9223372036854775807 := by
    have := c.allowedCongestion.toNat_lt
    omega
  exact legible_cons (by decide) (Value.inline_string hstrategy) <|
    legible_cons (by decide) (Value.inline_boolean _) <|
    legible_cons (by decide) (Value.inline_boolean _) <|
    legible_cons (by decide) (Value.inline_string h) <|
    legible_cons (by decide) (Value.inline_natural hpercent) <|
    legible_cons (by decide) (Value.inline_duration _) legible_nil

theorem BatchConfig.legible_plain (c : BatchConfig) :
    ∀ s ∈ entriesOf (plain c.toValue.entries), s.Legible := by
  have hstrategy : Quoted.Plain c.strategy.name := by cases c.strategy <;> decide
  have hlast : ∀ s ∈ entriesOf [("bandit", .boolean c.scalesDelays),
      ("min_generated_deadline", .ofDuration c.minDeadline),
      ("max_generated_deadline", .ofDuration c.maxDeadline)], s.Legible :=
    legible_cons (by decide) (Value.inline_boolean _) <|
    legible_cons (by decide) (Value.inline_duration _) <|
    legible_cons (by decide) (Value.inline_duration _) legible_nil
  rw [plain_entries]
  refine legible_cons (by decide) (Value.inline_string hstrategy) <|
    legible_cons (by decide) (Value.inline_boolean _) <|
    legible_cons (by decide) (Value.inline_float _) ?_
  split
  · exact legible_cons (by decide) Value.inline_emptyArray hlast
  · exact hlast

theorem PathCost.legible_entries (c : PathCost) :
    ∀ s ∈ entriesOf c.toValue.entries, s.Legible := by
  have hpath : c.path.number.toNat ≤ 9223372036854775807 := by
    have := c.path.number.toNat_lt
    omega
  exact legible_cons (by decide) (Value.inline_natural hpath) <|
    legible_cons (by decide) (Value.inline_float _) legible_nil

theorem LoggingConfig.legible_entries (c : LoggingConfig) (hlevel : Quoted.Plain c.level)
    (hformat : Quoted.Plain c.format) : ∀ s ∈ entriesOf c.toValue.entries, s.Legible :=
  legible_cons (by decide) (Value.inline_string hlevel) <|
    legible_cons (by decide) (Value.inline_string hformat) <|
    legible_cons (by decide) (Value.inline_boolean _) legible_nil

namespace Config

/-- The statements of the file for a configuration, section by section. -/
def sections (c : Config) : List (List Statement) :=
  [.table ["scheduler"] :: entriesOf c.scheduler.toValue.entries,
    .table ["batch"] :: entriesOf (plain c.batch.toValue.entries)] ++
  c.batch.costs.map (fun cost =>
    .element ["batch", "path_costs"] :: entriesOf cost.toValue.entries) ++
  [.table ["logging"] :: entriesOf c.logging.toValue.entries]

/-- The text of the file shows these statements. -/
theorem write_toTable (c : Config) :
    Toml.write c.toTable = "\n".intercalate (c.sections.map sectionText) := by
  have hlines : ownLines c.toTable = [] := by
    simp [ownLines, toTable, SchedulerConfig.toValue, BatchConfig.toValue, LoggingConfig.toValue,
      Value.hasBlocks]
  rw [write, hlines, toTable]
  simp [blocksOfEntries, SchedulerConfig.blocks_toValue, BatchConfig.blocks_toValue,
    LoggingConfig.blocks_toValue, sections, Function.comp_def]

/-- The table that the sections of the file add up to. -/
def filed (c : Config) : Table :=
  [("scheduler", c.scheduler.toValue), ("batch", .table c.batch.filed),
    ("logging", c.logging.toValue)]

/-- The sections for the settings for batches add their table. -/
theorem extendAll?_batch (c : BatchConfig) (header : List String) {front : Tree}
    (hfront : front.Lacks "batch") :
    ∃ later inner, Tree.extendAll? header front
        (.table ["batch"] :: entriesOf (plain c.toValue.entries) ++
          elementsOf ["batch", "path_costs"] (c.costs.map (·.toValue.entries)))
      = some (later, front ++ [("batch", Node.table .defined inner)]) ∧
        closeEntries inner = c.filed := by
  have hnames : ((plain c.toValue.entries).map (·.1)).Nodup := by
    rw [BatchConfig.plain_entries]
    split <;> simp
  have htable := Tree.extendAll?_root header hfront hnames
  rw [Tree.extendAll?_append htable, BatchConfig.filed, BatchConfig.filter_entries]
  by_cases hcosts : c.costs = []
  · exact ⟨["batch"], _, by rw [hcosts]; rfl, by simp [hcosts]⟩
  · have hleads := Tree.leads_root hfront .defined
    have hlacks : (held (plain c.toValue.entries)).Lacks "path_costs" := by
      rw [BatchConfig.plain_entries]
      simp [hcosts, held, Tree.Lacks]
    have helements : ∀ record ∈ c.costs.map (·.toValue.entries), (record.map (·.1)).Nodup := by
      simp [PathCost.toValue, Value.entries]
    obtain ⟨later, hlater⟩ := Tree.extendAll?_elements_new ["batch"] hleads hlacks
      (by simpa using hcosts) helements
    refine ⟨later, _, hlater, ?_⟩
    rw [closeEntries_append, closeEntries_held, closeEntries, close_tables, List.map_map,
      if_neg hcosts]
    rfl

theorem ofStatements?_sections (c : Config) :
    (Tree.ofStatements? [] [] c.sections.flatten).map closeEntries = some c.filed := by
  have hfirst : Tree.Lacks [] "scheduler" := by simp [Tree.Lacks]
  have hscheduler := Tree.extendAll?_root [] hfirst
    (show (c.scheduler.toValue.entries.map (·.1)).Nodup by
      simp [SchedulerConfig.toValue, Value.entries])
  have hsecond : Tree.Lacks [("scheduler", .table .defined (held c.scheduler.toValue.entries))]
      "batch" := by simp [Tree.Lacks]
  obtain ⟨header, inner, hbatch, hclose⟩ := extendAll?_batch c.batch ["scheduler"] hsecond
  have hthird : Tree.Lacks [("scheduler", .table .defined (held c.scheduler.toValue.entries)),
      ("batch", .table .defined inner)] "logging" := by simp [Tree.Lacks]
  have hlogging := Tree.extendAll?_root header hthird
    (show (c.logging.toValue.entries.map (·.1)).Nodup by
      simp [LoggingConfig.toValue, Value.entries])
  have hflatten : c.sections.flatten =
      (.table ["scheduler"] :: entriesOf c.scheduler.toValue.entries) ++
        ((.table ["batch"] :: entriesOf (plain c.batch.toValue.entries) ++
          elementsOf ["batch", "path_costs"] (c.batch.costs.map (·.toValue.entries))) ++
        (.table ["logging"] :: entriesOf c.logging.toValue.entries)) := by
    simp [sections, elementsOf, List.flatMap_def, Function.comp_def]
  rw [Tree.ofStatements?_eq, hflatten, Tree.extendAll?_append hscheduler, List.nil_append,
    Tree.extendAll?_append hbatch, List.singleton_append, hlogging]
  simp only [Option.map_some, List.cons_append, List.nil_append, closeEntries, Node.close, hclose,
    closeEntries_held]
  rfl

/-- A configuration whose text is read back: the seconds of its durations fit into 64 bits, and its
strings have no control characters other than tabs. -/
structure Legible (c : Config) : Prop where
  ackDelay : c.scheduler.ackDelay.nanos < TimeUnit.bound * TimeUnit.secondNanos
  minDeadline : c.batch.minDeadline.nanos < TimeUnit.bound * TimeUnit.secondNanos
  maxDeadline : c.batch.maxDeadline.nanos < TimeUnit.bound * TimeUnit.secondNanos
  recordPath : Quoted.Plain c.scheduler.recordPath
  level : Quoted.Plain c.logging.level
  format : Quoted.Plain c.logging.format

theorem legible_sections {c : Config} (h : c.Legible) : ∀ s ∈ c.sections.flatten, s.Legible := by
  have hscheduler := c.scheduler.legible_entries h.recordPath
  have hlogging := c.logging.legible_entries h.level h.format
  have hheader : ∀ name, Bare name → (Statement.table [name]).Legible := fun name hname =>
    ⟨by simp, by simp [maxDepth], by simpa using hname⟩
  have helement : (Statement.element ["batch", "path_costs"]).Legible :=
    ⟨by simp, by simp [maxDepth], by decide⟩
  intro s hs
  obtain ⟨statements, hsection, hs⟩ := List.mem_flatten.mp hs
  simp only [sections, List.mem_append, List.mem_cons, List.mem_map, List.not_mem_nil,
    or_false] at hsection
  rcases hsection with ((rfl | rfl) | ⟨cost, -, rfl⟩) | rfl <;>
    rcases List.mem_cons.mp hs with rfl | hs
  · exact hheader "scheduler" (by decide)
  · exact hscheduler s hs
  · exact hheader "batch" (by decide)
  · exact c.batch.legible_plain s hs
  · exact helement
  · exact cost.legible_entries s hs
  · exact hheader "logging" (by decide)
  · exact hlogging s hs

theorem ofTable?_filed {c : Config} (h : c.Legible) : Config.ofTable? c.filed = some c := by
  refine ofTable?_of_lookups rfl rfl rfl
    (SchedulerConfig.ofValue?_toValue (Duration.parse?_render h.ackDelay)) ?_
    (LoggingConfig.ofValue?_toValue _)
  have hmin := Duration.parse?_render h.minDeadline
  have hmax := Duration.parse?_render h.maxDeadline
  rw [BatchConfig.filed, BatchConfig.plain_entries, BatchConfig.filter_entries]
  -- Without costs their empty array stands on a line, otherwise behind all lines.
  by_cases hcosts : c.batch.costs = []
  · have hnone : some (Value.array []) = some (.array (c.batch.costs.map (·.toValue))) := by
      rw [hcosts]
      rfl
    rw [if_pos hcosts, if_pos hcosts]
    exact BatchConfig.ofValue?_of_lookups hmin hmax rfl rfl rfl hnone rfl rfl rfl
  · rw [if_neg hcosts, if_neg hcosts]
    exact BatchConfig.ofValue?_of_lookups hmin hmax rfl rfl rfl rfl rfl rfl rfl

theorem read_write {c : Config} (h : c.Legible) : Config.read (Toml.write c.toTable) = .ok c := by
  have hparse := parse?_sections (legible_sections h)
  rw [ofStatements?_sections, ← write_toTable] at hparse
  unfold Config.read
  rw [hparse, Option.bind_some, ofTable?_filed h]

/-- **A configuration that was saved is loaded again with all its settings**, unless one of them is
out of bounds; then loading it fails as checking it does. -/
theorem load_save {c : Config} (h : c.Legible) : ∃ text, c.save true = .ok text ∧
    (c.validate = .ok () → Config.load (some text) = .ok c) ∧
    ∀ error, c.validate = .error error →
      Config.load (some text) = .error error ∧ ∃ message, error = .invalidConfig message := by
  have hload : Config.load (some (Toml.write c.toTable)) = c.validate.bind fun _ => .ok c := by
    change (Config.read _).bind (fun c => c.validate.bind fun _ => .ok c) = _
    rw [read_write h]
    rfl
  refine ⟨Toml.write c.toTable, rfl, fun haccepted => ?_, fun error hrefused => ⟨?_, ?_⟩⟩
  · rw [hload, haccepted]
    rfl
  · rw [hload, hrefused]
    rfl
  · unfold validate at hrefused
    split at hrefused
    next fault _ => exact ⟨fault.message, (Except.error.inj hrefused).symm⟩
    next => cases hrefused

/-- A configuration with costs and names that need quotes of their own is loaded again, and one
without a number for its budget is refused. -/
theorem load_save_quoted :
    (∃ text, save { scheduler := { strategy := .roundRobin, recordPath := "a \"b\" \\ 'c'" }
                    batch := { costs := [⟨⟨7⟩, 0.1⟩], minDeadline := ⟨1500⟩ } } true = .ok text ∧
      Config.load (some text) =
        .ok { scheduler := { strategy := .roundRobin, recordPath := "a \"b\" \\ 'c'" }
              batch := { costs := [⟨⟨7⟩, 0.1⟩], minDeadline := ⟨1500⟩ } }) ∧
    ∃ text, save { batch := { budget := 0.0 / 0.0 } } true = .ok text ∧
      Config.load (some text) = .error (.invalidConfig "Invalid budget NaN") := by
  constructor
  · obtain ⟨text, hsave, hload, -⟩ := load_save
      (c := { scheduler := { strategy := .roundRobin, recordPath := "a \"b\" \\ 'c'" }
              batch := { costs := [⟨⟨7⟩, 0.1⟩], minDeadline := ⟨1500⟩ } })
      ⟨by decide, by decide, by decide, by decide, by decide, by decide⟩
    exact ⟨text, hsave, hload rfl⟩
  · obtain ⟨text, hsave, -, hload⟩ := load_save (c := { batch := { budget := 0.0 / 0.0 } })
      ⟨by decide, by decide, by decide, by decide, by decide, by decide⟩
    exact ⟨text, hsave, (hload _ rfl).1⟩

end Config

end Multipath
