import Multipath.Learning.Experience
import Multipath.Tally

/-!
# What becomes of recorded decisions

A recorder holds the decisions of a connection in memory until the connection is closed, and then
writes them to the connection's file.  A connection is closed once for each of its streams, so it
may be closed many times.  Each time its file is created anew, and what was written before is gone:
the file holds the last batch, and everything only if there was no more than one.  The other
connections have files of other names, so none of this touches them.

* `fileName_inj`: no two connections share a file.
* `Call`, `run`: decisions are added and connections closed, in any order.
* `Ledger`: the decisions of a connection in the batches that were pending when it was closed, and
  those pending still.
* `Records`: memory and files are as the ledgers say; each call keeps that, and so does a run.
* `file_complete_iff`: what a run leaves behind, and when a file holds all that was closed.
-/

namespace Multipath

/-! ### Lists of keys with values -/

section Entries

variable {κ ν : Type} [BEq κ] [LawfulBEq κ] {entries : List (κ × ν)} {key other : κ}

theorem find?_filter_self : (entries.filter (·.1 != key)).find? (·.1 == key) = none := by
  refine List.find?_eq_none.mpr fun e he => ?_
  have hne := (List.mem_filter.mp he).2
  simpa using hne

/-- A value that takes the place of all others under its key. -/
theorem find?_replace [DecidableEq κ] (value : ν) :
    (entries.filter (·.1 != key) ++ [(key, value)]).find? (·.1 == other) =
      if other = key then some (key, value) else entries.find? (·.1 == other) := by
  rw [List.find?_append]
  by_cases h : other = key
  · subst h
    rw [find?_filter_self, if_pos rfl]
    simp
  · rw [find?_filter_ne h, if_neg h]
    simp [Ne.symm h]

end Entries

/-! ### Names of files -/

theorem digitChar_inj : ∀ a < 16, ∀ b < 16, Nat.digitChar a = Nat.digitChar b → a = b := by
  decide

theorem toDigits_inj (a b : Nat) (h : Nat.toDigits 16 a = Nat.toDigits 16 b) : a = b := by
  induction a using Nat.strongRecOn generalizing b with
  | ind a ih =>
      rw [Nat.toDigits_eq_if (by decide), Nat.toDigits_eq_if (n := b) (by decide)] at h
      by_cases ha : a < 16 <;> by_cases hb : b < 16
      · rw [if_pos ha, if_pos hb] at h
        exact digitChar_inj a ha b hb (List.cons.inj h).1
      · -- a single digit is not longer than one
        rw [if_pos ha, if_neg hb] at h
        have hlength := congrArg List.length h
        have hpos := Nat.length_toDigits_pos (b := 16) (n := b / 16)
        simp only [List.length_append, List.length_singleton] at hlength
        omega
      · rw [if_neg ha, if_pos hb] at h
        have hlength := congrArg List.length h
        have hpos := Nat.length_toDigits_pos (b := 16) (n := a / 16)
        simp only [List.length_append, List.length_singleton] at hlength
        omega
      · rw [if_neg ha, if_neg hb] at h
        obtain ⟨hfront, hlast⟩ := List.append_inj' h rfl
        have hquotient := ih (a / 16) (by omega) (b / 16) hfront
        have hremainder := digitChar_inj (a % 16) (Nat.mod_lt _ (by decide)) (b % 16)
          (Nat.mod_lt _ (by decide)) (List.cons.inj hlast).1
        omega

namespace Recorder

/-- No two connections share a file. -/
theorem fileName_inj {a b : ConnectionId} (h : fileName a = fileName b) : a = b := by
  have hlist := congrArg String.toList h
  simp only [fileName, String.toList_append] at hlist
  have hdigits := List.append_cancel_left (List.append_cancel_right hlist)
  simp only [toString, hexDigits, String.toList_ofList] at hdigits
  have hnumber := UInt64.toNat_inj.mp (toDigits_inj _ _ hdigits)
  cases a
  cases b
  exact congrArg ConnectionId.mk hnumber

/-! ### Single calls -/

variable {r : Recorder} {c d : ConnectionId} {decision : Decision}

theorem pending_forget (r : Recorder) (c d : ConnectionId) :
    (r.forget d).pending c = if c = d then [] else r.pending c := by
  by_cases h : c = d
  · rw [if_pos h, h, pending, forget, find?_filter_self]
    rfl
  · rw [if_neg h, pending, pending, forget, find?_filter_ne h]

theorem pending_add (r : Recorder) (c d : ConnectionId) (decision : Decision) :
    (r.add d decision).pending c =
      if c = d then r.pending c ++ [decision] else r.pending c := by
  rw [pending, add, forget, find?_replace]
  by_cases h : c = d
  · rw [if_pos h, if_pos h, h]
    rfl
  · rw [if_neg h, if_neg h]
    rfl

/-- With a directory to write to, a close succeeds, and writes what is pending if anything is. -/
theorem close_eq (hpresent : r.directory.present = true) (d : ConnectionId) :
    r.close d = if r.pending d = [] then (.ok none, r) else
      (.ok (some (fileName d)),
        { r.forget d with
          directory := { r.directory with
            files := r.directory.files.filter (·.1 != fileName d) ++
              [(fileName d, (r.pending d).map (·.line))] } }) := by
  unfold close
  cases hpending : r.pending d with
  | nil => rfl
  | cons first rest => simp [RecordDirectory.write, hpresent]

theorem present_close (hpresent : r.directory.present = true) (d : ConnectionId) :
    (r.close d).2.directory.present = true := by
  rw [close_eq hpresent]
  split <;> exact hpresent

theorem pending_close (hpresent : r.directory.present = true) (c d : ConnectionId) :
    (r.close d).2.pending c = if c = d then [] else r.pending c := by
  rw [close_eq hpresent, ← pending_forget]
  split
  · rename_i hnone
    by_cases h : c = d
    · rw [pending_forget, if_pos h, h, hnone]
    · rw [pending_forget, if_neg h]
  · rfl

/-- A close creates the file of its connection anew if there is something to write, and leaves all
other files alone. -/
theorem read?_close (hpresent : r.directory.present = true) (c d : ConnectionId) :
    (r.close d).2.directory.read? (fileName c) =
      if c = d ∧ r.pending d ≠ [] then some ((r.pending d).map (·.line))
      else r.directory.read? (fileName c) := by
  rw [close_eq hpresent]
  by_cases hnone : r.pending d = []
  · simp [hnone]
  · rw [if_neg hnone, RecordDirectory.read?, find?_replace]
    by_cases h : c = d
    · simp [h, hnone]
    · rw [if_neg fun heq => h (fileName_inj heq), if_neg fun hboth => h hboth.1]
      rfl

/-! ### Histories -/

/-- A call to a recorder. -/
inductive Call where
  | add (connection : ConnectionId) (decision : Decision)
  | close (connection : ConnectionId)
deriving DecidableEq

def Call.connection : Call → ConnectionId
  | .add c _ => c
  | .close c => c

/-- The recorder after a call. -/
def after (r : Recorder) : Call → Recorder
  | .add c decision => r.add c decision
  | .close c => (r.close c).2

/-- The recorder after calls. -/
def run (r : Recorder) (calls : List Call) : Recorder := calls.foldl after r

/-- The decisions added for a connection, oldest first. -/
def added (c : ConnectionId) (calls : List Call) : List Decision :=
  calls.filterMap fun
    | .add d decision => if d = c then some decision else none
    | .close _ => none

/-- The decisions of one connection. -/
structure Ledger where
  /-- For every close of the connection, what was pending then. -/
  batches : List (List Decision)
  /-- What was added since the last close. -/
  pending : List Decision

namespace Ledger

def empty : Ledger := ⟨[], []⟩

/-- Enters a call into the ledger of `c`. -/
def enter (c : ConnectionId) (l : Ledger) : Call → Ledger
  | .add d decision => if d = c then { l with pending := l.pending ++ [decision] } else l
  | .close d => if d = c then ⟨l.batches ++ [l.pending], []⟩ else l

/-- The ledger of `c` after calls. -/
def of (c : ConnectionId) (calls : List Call) : Ledger := calls.foldl (enter c) empty

/-- The batches that held anything. -/
def written (l : Ledger) : List (List Decision) := l.batches.filter (!·.isEmpty)

/-- All that was closed. -/
def closed (l : Ledger) : List Decision := l.batches.flatten

theorem foldl_enter (c : ConnectionId) (l : Ledger) (calls : List Call)
    (hopen : .close c ∉ calls) :
    calls.foldl (enter c) l = { l with pending := l.pending ++ added c calls } := by
  induction calls generalizing l with
  | nil => simp [added]
  | cons call rest ih =>
      obtain ⟨hcall, hrest⟩ := not_or.mp fun h => hopen (List.mem_cons.mpr h)
      rw [List.foldl_cons, ih _ hrest]
      cases call with
      | add d decision => by_cases h : d = c <;> simp [enter, added, h]
      | close d => simp [enter, added, show d ≠ c from fun h => hcall (h ▸ rfl)]

theorem closed_enter (c : ConnectionId) (l : Ledger) (call : Call) :
    (l.enter c call).closed ++ (l.enter c call).pending =
      l.closed ++ l.pending ++ added c [call] := by
  cases call with
  | add d decision => by_cases h : d = c <;> simp [enter, closed, added, h]
  | close d => by_cases h : d = c <;> simp [enter, closed, added, h]

/-- A ledger holds every decision that was added, in order and once. -/
theorem closed_foldl (c : ConnectionId) (l : Ledger) (calls : List Call) :
    (calls.foldl (enter c) l).closed ++ (calls.foldl (enter c) l).pending =
      l.closed ++ l.pending ++ added c calls := by
  induction calls generalizing l with
  | nil => simp [added]
  | cons call rest ih =>
      rw [List.foldl_cons, ih, closed_enter, List.append_assoc]
      congr 1
      exact (@List.filterMap_append _ _ [call] rest _).symm

/-- Around its last close, a history is what was closed and what is pending. -/
theorem of_split (c : ConnectionId) (before since : List Call) (hsince : .close c ∉ since) :
    (of c (before ++ .close c :: since)).closed = added c before ∧
      (of c (before ++ .close c :: since)).pending = added c since := by
  have hof : of c (before ++ .close c :: since) =
      ⟨(of c before).batches ++ [(of c before).pending], added c since⟩ := by
    rw [of, List.foldl_append, List.foldl_cons, foldl_enter c _ since hsince]
    simp [enter, of]
  rw [hof]
  refine ⟨?_, rfl⟩
  calc ((of c before).batches ++ [(of c before).pending]).flatten
      = (of c before).closed ++ (of c before).pending := by simp [closed]
    _ = empty.closed ++ empty.pending ++ added c before := closed_foldl c empty before
    _ = added c before := rfl

theorem closed_eq (l : Ledger) : l.closed = l.written.flatten :=
  List.flatten_filter_not_isEmpty.symm

end Ledger

/-! ### Runs -/

/-- What a file holds after batches were written to it that held `before` at first. -/
def lastWritten (before : Option (List RecordLine)) (batches : List (List Decision)) :
    Option (List RecordLine) :=
  (batches.getLast?.map (·.map (·.line))).or before

/-- Memory and files are as the ledgers say, in a directory that was `first` at first. -/
structure Records (first : RecordDirectory) (ledgers : ConnectionId → Ledger) (r : Recorder) :
    Prop where
  present : r.directory.present = true
  pending : ∀ c, r.pending c = (ledgers c).pending
  file : ∀ c, r.directory.read? (fileName c) =
    lastWritten (first.read? (fileName c)) (ledgers c).written

variable {first : RecordDirectory} {ledgers : ConnectionId → Ledger}

theorem records_new (hpresent : first.present = true) :
    Records first (fun _ => .empty) (new first) :=
  ⟨hpresent, fun _ => rfl, fun _ => rfl⟩

/-- Every call keeps memory and files as the ledgers say. -/
theorem Records.after (h : Records first ledgers r) (call : Call) :
    Records first (fun c => (ledgers c).enter c call) (r.after call) := by
  cases call with
  | add d decision =>
      refine ⟨h.present, fun c => ?_, fun c => ?_⟩
      · rw [Recorder.after, pending_add, h.pending]
        by_cases hc : c = d <;> simp [Ledger.enter, hc, eq_comm (a := d)]
      · refine (h.file c).trans ?_
        by_cases hc : d = c <;> simp [Ledger.enter, Ledger.written, hc]
  | close d =>
      refine ⟨present_close h.present d, fun c => ?_, fun c => ?_⟩
      · rw [Recorder.after, pending_close h.present, h.pending]
        by_cases hc : c = d <;> simp [Ledger.enter, hc, eq_comm (a := d)]
      · rw [Recorder.after, read?_close h.present, h.pending, h.file]
        by_cases hc : c = d
        · subst hc
          cases hpending : (ledgers c).pending <;>
            simp [Ledger.enter, Ledger.written, lastWritten, hpending]
        · simp [Ledger.enter, hc, Ne.symm hc]

/-- A file holds all that was closed if no more than one batch was written to it. -/
theorem lastWritten_complete_iff (l : Ledger) :
    (lastWritten none l.written).getD [] = l.closed.map (·.line) ↔ l.written.length ≤ 1 := by
  have hnonempty : ∀ batch ∈ l.written, 0 < batch.length := fun batch hbatch => by
    have hkept := (List.mem_filter.mp hbatch).2
    simpa [List.length_pos_iff] using hkept
  rw [Ledger.closed_eq]
  match hwritten : l.written with
  | [] | [batch] => simp [lastWritten]
  | batch :: next :: rest =>
      refine iff_of_false (fun h => ?_) (by simp)
      -- the last batch is part of what followed the first, which held something
      have hfirst := hnonempty batch (hwritten ▸ List.mem_cons_self)
      have hlast : ((next :: rest).getLast (by simp)).length ≤ (next :: rest).flatten.length :=
        (List.sublist_flatten_of_mem (List.getLast_mem _)).length_le
      have hlength := congrArg List.length h
      simp only [lastWritten, List.getLast?_cons_cons, List.getLast?_eq_some_getLast
        (List.cons_ne_nil next rest), Option.map_some, Option.some_or, Option.getD_some,
        List.length_map, List.flatten_cons, List.length_append] at hlength hlast
      omega

theorem Records.run (h : Records first ledgers r) (calls : List Call) :
    Records first (fun c => calls.foldl (Ledger.enter c) (ledgers c)) (r.run calls) := by
  induction calls generalizing r ledgers with
  | nil => exact h
  | cons call rest ih => exact ih (h.after call)

/-- **A file holds what was written to it last**, for any calls in any order and every connection,
as long as files can be written: of the batches that were pending when the connection was closed,
the last that held anything.  So it holds all that was closed exactly if no more than one batch did.
What is pending is what was added since the last close; no close fails; and no call changes what
is pending or on file for another connection. -/
theorem file_complete_iff (first : RecordDirectory) (hpresent : first.present = true)
    (calls : List Call) (c : ConnectionId) :
    let r := (new first).run calls
    let ledger := Ledger.of c calls
    r.pending c = ledger.pending ∧
      r.directory.read? (fileName c) = lastWritten (first.read? (fileName c)) ledger.written ∧
      (first.read? (fileName c) = none →
        ((r.directory.read? (fileName c)).getD [] = ledger.closed.map (·.line) ↔
          ledger.written.length ≤ 1)) ∧
      (.close c ∉ calls → ledger.batches = [] ∧ ledger.pending = added c calls) ∧
      (∀ before since, calls = before ++ .close c :: since → .close c ∉ since →
        ledger.closed = added c before ∧ ledger.pending = added c since) ∧
      (r.close c).1 = .ok (if ledger.pending = [] then none else some (fileName c)) ∧
      ∀ call : Call, call.connection ≠ c →
        (r.after call).pending c = r.pending c ∧
          (r.after call).directory.read? (fileName c) = r.directory.read? (fileName c) := by
  intro r ledger
  have hrun : Records first (fun c => Ledger.of c calls) r := (records_new hpresent).run calls
  refine ⟨hrun.pending c, hrun.file c, fun hfresh => ?_, fun hopen => ?_, fun before since h hsince =>
    ?_, ?_, fun call hother => ?_⟩
  · rw [hrun.file c, hfresh]
    exact lastWritten_complete_iff ledger
  · simp only [ledger, Ledger.of, Ledger.foldl_enter c _ calls hopen]
    exact ⟨rfl, rfl⟩
  · subst h
    exact Ledger.of_split c before since hsince
  · rw [close_eq hrun.present, hrun.pending c]
    split <;> rfl
  · have hkept := hrun.after call
    have hsame : (Ledger.of c calls).enter c call = Ledger.of c calls := by
      cases call <;> exact if_neg hother
    rw [hkept.pending c, hkept.file c, hrun.pending c, hrun.file c, hsame]
    exact ⟨rfl, rfl⟩

/-- Two decisions, each closed on its own. -/
def closedTwice : List Call :=
  [.add ⟨1⟩ ⟨default, 1⟩, .close ⟨1⟩, .add ⟨1⟩ ⟨default, 0⟩, .close ⟨1⟩]

/-- Of the two batches the file holds the second. -/
theorem file_complete_iff_closedTwice :
    ((new ⟨true, []⟩).run closedTwice).pending ⟨1⟩ = [] ∧
      ((new ⟨true, []⟩).run closedTwice).directory.read? (fileName ⟨1⟩) =
        some [Decision.line ⟨default, 0⟩] := by
  obtain ⟨hpending, hfile, -⟩ := file_complete_iff ⟨true, []⟩ rfl closedTwice ⟨1⟩
  exact ⟨hpending, hfile⟩

/-- **A second close loses what the first one wrote.** -/
theorem file_incomplete_closedTwice :
    ¬ ∀ (first : RecordDirectory) (calls before since : List Call) (c : ConnectionId),
      first.present = true → first.read? (fileName c) = none →
      calls = before ++ .close c :: since → .close c ∉ since →
      (((new first).run calls).directory.read? (fileName c)).getD [] =
        (added c before).map (·.line) := by
  intro hall
  have hlines := hall ⟨true, []⟩ closedTwice closedTwice.dropLast [] ⟨1⟩ rfl rfl rfl
    List.not_mem_nil
  exact absurd (congrArg List.length hlines) (by decide)

end Recorder

end Multipath
