import Multipath.Proofs.Toml.Lines
import Multipath.Proofs.Toml.Sections

/-!
# Blocks of a written file

A file is written in blocks with empty lines between them, and each block shows the statements of
a section.

* `sectionText`: the block that shows the statements of a section.
* `Value.blocks_table`, `blocksOfElements_map`: the blocks of a table and of an array of tables.
* `parse?_sections`: what the sections of a file add up to is read back from their blocks.
-/

namespace Multipath.Toml

/-- The block that shows the statements of a section. -/
def sectionText (statements : List Statement) : String :=
  String.ofList (statements.flatMap Statement.shown)

/-! ### Writing -/

/-- The entries of a table that fit on a line. -/
def plain (record : Table) : Table := record.filter (!·.2.hasBlocks)

theorem ownLines_eq (record : Table) :
    ownLines record = (entriesOf (plain record)).map fun s => String.ofList s.shown := by
  simp only [ownLines, entriesOf, plain, List.map_map]
  refine List.map_congr_left fun e _ => ?_
  simp [Statement.shown, writeKey, ← String.toList_inj]

theorem join_ownLines (record : Table) :
    String.join (ownLines record) = sectionText (entriesOf (plain record)) := by
  rw [← String.toList_inj, ownLines_eq, String.toList_join, List.flatMap_map]
  simp [sectionText]

/-- The header of a table and its own lines show a section. -/
theorem ownBlock_eq (path : List String) {record : Table} (h : plain record ≠ []) :
    ownBlock ("[" ++ writeKey path ++ "]\n") record
      = [sectionText (.table path :: entriesOf (plain record))] := by
  have hlines : (ownLines record).isEmpty = false := by simpa [ownLines_eq, entriesOf] using h
  rw [ownBlock, join_ownLines]
  simp only [hlines, Bool.false_and, Bool.false_eq_true, if_false]
  rw [List.singleton_inj, ← String.toList_inj]
  simp [sectionText, Statement.shown]

/-- A value on a line has no blocks of its own. -/
theorem blocks_eq_nil {v : Value} (h : v.hasBlocks = false) (path : List String) :
    v.blocks path = [] := by
  cases v with
  | table record => simp [Value.hasBlocks] at h
  | array items => rw [Value.blocks, if_neg (by simp [h])]
  | _ => rfl

theorem blocksOfEntries_filter (path : List String) (record : Table) :
    blocksOfEntries path record = blocksOfEntries path (record.filter (·.2.hasBlocks)) := by
  induction record with
  | nil => rfl
  | cons e record ih =>
    cases h : e.2.hasBlocks with
    | true => simp [blocksOfEntries, h, ih]
    | false => simp [blocksOfEntries, h, ih, blocks_eq_nil h]

/-- The blocks of a table that has lines of its own: these, and then those of the tables in it. -/
theorem Value.blocks_table {path : List String} {record : Table} (h : plain record ≠ []) :
    (Value.table record).blocks path = sectionText (.table path :: entriesOf (plain record))
      :: blocksOfEntries path (record.filter (·.2.hasBlocks)) := by
  rw [Value.blocks, ownBlock_eq path h, ← blocksOfEntries_filter]
  rfl

theorem filter_hasBlocks {record : Table} (h : plain record = record) :
    record.filter (·.2.hasBlocks) = [] := by
  have hnone := List.filter_eq_self.mp h
  rw [List.filter_eq_nil_iff]
  intro e he
  simpa using hnone e he

/-- The block of a table that has only lines of its own. -/
theorem Value.blocks_plain {path : List String} {record : Table} (h : plain record = record)
    (hne : record ≠ []) :
    (Value.table record).blocks path = [sectionText (.table path :: entriesOf record)] := by
  rw [Value.blocks_table (by rwa [h]), filter_hasBlocks h, h]
  rfl

/-- The blocks of an array of tables that have only lines of their own. -/
theorem blocksOfElements_map (path : List String) {records : List Table}
    (h : ∀ record ∈ records, plain record = record) :
    blocksOfElements path (records.map .table)
      = records.map fun record => sectionText (.element path :: entriesOf record) := by
  induction records with
  | nil => rfl
  | cons record records ih =>
    have hplain := h record (by simp)
    have hfirst : "[[" ++ writeKey path ++ "]]\n" ++ String.join (ownLines record)
        = sectionText (.element path :: entriesOf record) := by
      rw [join_ownLines, hplain, ← String.toList_inj]
      simp [sectionText, Statement.shown]
    rw [List.map_cons, blocksOfElements, hfirst, blocksOfEntries_filter, filter_hasBlocks hplain,
      ih fun r hr => h r (by simp [hr])]
    rfl

/-! ### Reading -/

/-- The lines of a file: those of its sections, with empty lines between sections. -/
def linesOf (sections : List (List Statement)) : List (Option Statement) :=
  [none].intercalate (sections.map (·.map some))

theorem toList_sections (sections : List (List Statement)) :
    ("\n".intercalate (sections.map sectionText)).toList
      = (linesOf sections).flatMap shownLine := by
  have hsection : ∀ statements : List Statement,
      (statements.map some).flatMap shownLine = (sectionText statements).toList := by
    simp [sectionText, List.flatMap_map, shownLine]
  rw [String.toList_intercalate, linesOf]
  induction sections with
  | nil => rfl
  | cons first sections ih =>
    cases sections with
    | nil => simp [hsection]
    | cons second sections =>
      simp only [List.map_cons, List.intercalate_cons_cons, List.flatMap_append] at ih ⊢
      rw [ih, hsection]
      rfl

theorem filterMap_linesOf (sections : List (List Statement)) :
    (linesOf sections).filterMap id = sections.flatten := by
  rw [linesOf]
  induction sections with
  | nil => rfl
  | cons first sections ih =>
    cases sections with
    | nil => simp
    | cons second sections =>
      simp only [List.map_cons, List.intercalate_cons_cons, List.filterMap_append] at ih ⊢
      rw [ih]
      simp

/-- What the sections of a file add up to is read back from their blocks. -/
theorem parse?_sections {sections : List (List Statement)}
    (h : ∀ s ∈ sections.flatten, s.Legible) :
    parse? ("\n".intercalate (sections.map sectionText))
      = (Tree.ofStatements? [] [] sections.flatten).map closeEntries := by
  have hlegible : ∀ s, some s ∈ linesOf sections → s.Legible := fun s hs => h s <| by
    rw [← filterMap_linesOf]
    exact List.mem_filterMap.mpr ⟨some s, hs, rfl⟩
  have hread := Statement.readAll_shown hlegible
  rw [← toList_sections, String.ofList_toList, filterMap_linesOf] at hread
  rw [parse?, hread]
  rfl

end Multipath.Toml
