import Multipath.Toml.Document
import Multipath.Toml.Layout

/-!
# Sections of a file

A section of a file is a header and the entries of the table that it names. Reading it adds the
table to those that are already there.

* `Tree.Leads`: a header leads to a part of the table that is being read.
* `Tree.extendAll?_entries`: entries are added where the header leads to.
* `Tree.extendAll?_elements`: sections of an array of tables add an element each.
* `closeEntries_held`, `close_tables`: the table of a section, and the array, that they add up to.
-/

namespace Multipath.Toml

/-- The statements for the entries of a table. -/
def entriesOf (record : Table) : List Statement := record.map fun e => .entry [e.1] e.2

/-- The statements for the elements of an array of tables. -/
def elementsOf (path : List String) (records : List Table) : List Statement :=
  records.flatMap fun record => .element path :: entriesOf record

/-- The entries of a table while it is being read. -/
def held (record : Table) : Tree := record.map fun e => (e.1, .closed e.2)

namespace Tree

variable {tree front : Tree} {name : String} {node : Node}

/-! ### The last entry -/

/-- No entry has this name. -/
def Lacks (tree : Tree) (name : String) : Prop := ∀ e ∈ tree, e.1 ≠ name

theorem find?_eq_none (h : Lacks tree name) : tree.find? name = none := by
  rw [find?, List.lookup_eq_none_iff]
  intro e he
  simpa using Ne.symm (h e he)

theorem find?_last (h : Lacks front name) : (front ++ [(name, node)]).find? name = some node := by
  have := find?_eq_none h
  simp only [find?] at this ⊢
  simp [List.lookup_append, this]

theorem put_last {old : Node} (h : Lacks front name) :
    put name node (front ++ [(name, old)]) = front ++ [(name, node)] := by
  induction front with
  | nil => simp [put]
  | cons e rest ih => simp [put, h e (by simp), ih fun e he => h e (by simp [he])]

/-! ### Where a header leads to -/

/-- The header leads to entries `es` of the table `build es`: changing the table there changes
these entries. -/
def Leads (header : List String) (build : Tree → Tree) : Prop :=
  ∀ (change : Tree → Option Tree) (here : Origin) (es : Tree),
    modify? .implied (fun _ => change) header here (build es) = (change es).map build

theorem leads_nil : Leads [] id := fun change here es => by
  cases h : change es <;> simp [modify?, h]

theorem modify?_append {origin : Origin} {change : Origin → Tree → Option Tree}
    (path rest : List String) (here : Origin) :
    modify? origin change (path ++ rest) here tree =
      modify? origin (fun here => modify? origin change rest here) path here tree := by
  induction path generalizing here tree with
  | nil => rfl
  | cons name path ih =>
    simp only [List.cons_append, modify?]
    cases tree.find? name with
    | none => simp [ih]
    | some node =>
      cases node with
      | closed v => rfl
      | table found entries => simp [ih]
      | tables elements => cases elements <;> simp [ih]

/-- Behind a header, the name of a table leads on into the table. -/
theorem Leads.table {header : List String} {build : Tree → Tree} (h : Leads header build)
    (hfront : Lacks front name) (origin : Origin) :
    Leads (header ++ [name]) fun es => build (front ++ [(name, Node.table origin es)]) := by
  intro change here es
  rw [modify?_append]
  refine (h (fun entries => modify? .implied (fun _ => change) [name] .defined entries) here
    _).trans ?_
  rw [modify?, find?_last hfront]
  cases hchange : change es <;> simp [modify?, hchange, put_last hfront]

theorem leads_root (hfront : Lacks front name) (origin : Origin) :
    Leads [name] fun es => front ++ [(name, Node.table origin es)] :=
  leads_nil.table hfront origin

/-- The name of an array of tables leads on into its last element. -/
theorem Leads.element {header : List String} {build : Tree → Tree} (h : Leads header build)
    (hfront : Lacks front name) (before : List Tree) :
    Leads (header ++ [name]) fun es => build (front ++ [(name, Node.tables (es :: before))]) := by
  intro change here es
  rw [modify?_append]
  refine (h (fun entries => modify? .implied (fun _ => change) [name] .defined entries) here
    _).trans ?_
  rw [modify?, find?_last hfront]
  cases hchange : change es <;> simp [modify?, hchange, put_last hfront]

theorem splitLast?_append (path : List String) (name : String) :
    splitLast? (path ++ [name]) = some (path, name) := by
  induction path with
  | nil => rfl
  | cons first path ih =>
    rw [List.cons_append, splitLast?, ih]
    · rfl
    · simp

/-! ### Statements where a header leads to -/

section

variable {header : List String} {build : Tree → Tree} (hleads : Leads header build)
include hleads

/-- A table that is not there yet is added at the end. -/
theorem openTable?_append (hfront : Lacks front name) :
    openTable? (header ++ [name]) (build front)
      = some (build (front ++ [(name, Node.table .defined [])])) := by
  rw [openTable?, splitLast?_append]
  refine (hleads _ .defined front).trans ?_
  simp [find?_eq_none hfront]

/-- An array of tables that is not there yet is added at the end, with an empty element. -/
theorem openElement?_append (hfront : Lacks front name) :
    openElement? (header ++ [name]) (build front)
      = some (build (front ++ [(name, Node.tables [[]])])) := by
  rw [openElement?, splitLast?_append]
  refine (hleads _ .defined front).trans ?_
  simp [find?_eq_none hfront]

/-- A further element of an array of tables at the end is empty. -/
theorem openElement?_last (hfront : Lacks front name) (elements : List Tree) :
    openElement? (header ++ [name]) (build (front ++ [(name, Node.tables elements)]))
      = some (build (front ++ [(name, Node.tables ([] :: elements))])) := by
  rw [openElement?, splitLast?_append]
  refine (hleads _ .defined _).trans ?_
  simp [find?_last hfront, put_last hfront]

theorem assign?_append (hfront : Lacks front name) (v : Value) :
    assign? header [name] v (build front) = some (build (front ++ [(name, Node.closed v)])) := by
  rw [assign?, splitLast?]
  refine (hleads _ .defined front).trans ?_
  simp [modify?, add?, find?_eq_none hfront]

end

/-! ### Sections -/

/-- What statements do to the header in force and the table. -/
def extendAll? (header : List String) (tree : Tree) (statements : List Statement) :
    Option (List String × Tree) :=
  statements.foldlM (fun state s => state.2.extend? state.1 s) (header, tree)

theorem ofStatements?_eq (header : List String) (tree : Tree) (statements : List Statement) :
    ofStatements? header tree statements = (extendAll? header tree statements).map (·.2) := by
  induction statements generalizing header tree with
  | nil => rfl
  | cons s rest ih =>
    rw [ofStatements?, extendAll?, List.foldlM_cons]
    cases tree.extend? header s with
    | none => rfl
    | some state => exact ih state.1 state.2

theorem extendAll?_append {header later : List String} {tree next : Tree}
    {statements : List Statement} (h : extendAll? header tree statements = some (later, next))
    (rest : List Statement) :
    extendAll? header tree (statements ++ rest) = extendAll? later next rest := by
  rw [extendAll?, List.foldlM_append]
  rw [extendAll?] at h
  rw [h]
  rfl

/-- Entries with names that are not there yet are added where the header leads to. -/
theorem extendAll?_entries {header : List String} {build : Tree → Tree}
    (hleads : Leads header build) (front : Tree) {record : Table} (hnames : (front.map (·.1) ++ record.map (·.1)).Nodup) :
    extendAll? header (build front) (entriesOf record)
      = some (header, build (front ++ held record)) := by
  induction record generalizing front with
  | nil => simp [extendAll?, entriesOf, held]
  | cons e record ih =>
    have hfront : Lacks front e.1 := fun other hother =>
      (List.nodup_append.mp hnames).2.2 other.1 (List.mem_map_of_mem hother) e.1 (by simp)
    have hfirst : extendAll? header (build front) [.entry [e.1] e.2]
        = some (header, build (front ++ [(e.1, Node.closed e.2)])) := by
      simp [extendAll?, extend?, assign?_append hleads hfront]
    have hrest := ih (front ++ [(e.1, Node.closed e.2)]) (by simpa using hnames)
    refine (extendAll?_append hfirst (entriesOf record)).trans (hrest.trans ?_)
    simp [held]

/-- A section of a table. -/
theorem extendAll?_section (header : List String) {path : List String} {build : Tree → Tree}
    (hleads : Leads path build) (hfront : Lacks front name) {record : Table}
    (hnames : (record.map (·.1)).Nodup) :
    extendAll? header (build front) (.table (path ++ [name]) :: entriesOf record)
      = some (path ++ [name], build (front ++ [(name, Node.table .defined (held record))])) := by
  have hopen : extendAll? header (build front) [.table (path ++ [name])]
      = some (path ++ [name], build (front ++ [(name, Node.table .defined [])])) := by
    simp [extendAll?, extend?, openTable?_append hleads hfront]
  have hentries := extendAll?_entries (hleads.table hfront .defined) [] hnames
  exact (extendAll?_append hopen _).trans hentries

theorem extendAll?_root (header : List String) (hfront : Lacks front name) {record : Table}
    (hnames : (record.map (·.1)).Nodup) :
    extendAll? header front (.table [name] :: entriesOf record)
      = some ([name], front ++ [(name, Node.table .defined (held record))]) :=
  extendAll?_section header leads_nil hfront hnames

/-- Behind an element that has just begun, its entries. -/
theorem extendAll?_element (header : List String) {path : List String} {build : Tree → Tree}
    (hleads : Leads path build) (hfront : Lacks front name) {before : List Tree} {record : Table}
    (hopen : openElement? (path ++ [name]) tree
      = some (build (front ++ [(name, Node.tables ([] :: before))])))
    (hnames : (record.map (·.1)).Nodup) :
    extendAll? header tree (.element (path ++ [name]) :: entriesOf record)
      = some (path ++ [name], build (front ++ [(name, Node.tables (held record :: before))])) := by
  have hfirst : extendAll? header tree [.element (path ++ [name])]
      = some (path ++ [name], build (front ++ [(name, Node.tables ([] :: before))])) := by
    simp [extendAll?, extend?, hopen]
  have hentries := extendAll?_entries (hleads.element hfront before) [] hnames
  exact (extendAll?_append hfirst _).trans hentries

/-- Sections of an array of tables add an element each, the last one first. -/
theorem extendAll?_elements (header : List String) {path : List String} {build : Tree → Tree}
    (hleads : Leads path build) (hfront : Lacks front name) {records : List Table}
    (hnames : ∀ record ∈ records, (record.map (·.1)).Nodup) (before : List Tree) :
    ∃ later, extendAll? header (build (front ++ [(name, Node.tables before)]))
        (elementsOf (path ++ [name]) records)
      = some (later,
          build (front ++ [(name, Node.tables ((records.map held).reverse ++ before))])) := by
  induction records generalizing header before with
  | nil => exact ⟨header, rfl⟩
  | cons record records ih =>
    obtain ⟨later, hlater⟩ := ih (path ++ [name])
      (fun r hr => hnames r (by simp [hr])) (held record :: before)
    have hfirst := extendAll?_element header hleads hfront
      (openElement?_last hleads hfront before) (hnames record (by simp))
    refine ⟨later, (extendAll?_append hfirst _).trans (hlater.trans ?_)⟩
    simp

/-- So do those of an array that is not there yet. -/
theorem extendAll?_elements_new (header : List String) {path : List String} {build : Tree → Tree}
    (hleads : Leads path build) (hfront : Lacks front name) {records : List Table}
    (hsome : records ≠ []) (hnames : ∀ record ∈ records, (record.map (·.1)).Nodup) :
    ∃ later, extendAll? header (build front) (elementsOf (path ++ [name]) records)
      = some (later, build (front ++ [(name, Node.tables (records.map held).reverse)])) := by
  obtain ⟨record, records, rfl⟩ := List.exists_cons_of_ne_nil hsome
  obtain ⟨later, hlater⟩ := extendAll?_elements (path ++ [name]) hleads hfront
    (fun r (hr : r ∈ records) => hnames r (by simp [hr])) [held record]
  have hfirst := extendAll?_element header hleads hfront
    (openElement?_append hleads hfront) (hnames record (by simp))
  refine ⟨later, (extendAll?_append hfirst _).trans (hlater.trans ?_)⟩
  simp

end Tree

/-! ### Closing -/

theorem closeEntries_append (front rest : Tree) :
    closeEntries (front ++ rest) = closeEntries front ++ closeEntries rest := by
  induction front with
  | nil => rfl
  | cons e front ih => simp [closeEntries, ih]

@[simp] theorem closeEntries_held (record : Table) : closeEntries (held record) = record := by
  induction record with
  | nil => rfl
  | cons e record ih => simpa [held, closeEntries, Node.close] using ih

theorem closeElements_eq (elements : List Tree) (done : List Value) :
    closeElements elements done
      = (elements.map fun entries => .table (closeEntries entries)).reverse ++ done := by
  induction elements generalizing done with
  | nil => rfl
  | cons entries before ih => simp [closeElements, ih]

/-- An array of tables has its elements in the order of their sections. -/
theorem close_tables (records : List Table) :
    (Node.tables (records.map held).reverse).close = .array (records.map .table) := by
  simp [Node.close, closeElements_eq, Function.comp_def]

end Multipath.Toml
