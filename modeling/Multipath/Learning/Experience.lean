import Multipath.Error
import Multipath.Learning.Observation

/-!
# Recorded experience

When the learned policy is not being trained, its decisions can be recorded for later training.
A `Recorder` collects the decisions of each connection and writes them to a file of a directory
when the connection's episode is over.

* `add`: collects a decision.
* `close`: writes a connection's decisions, one line each, and forgets them, whether or not the
  file could be written. An existing file of that name is replaced.
-/

namespace Multipath

/-- A decision: the state shown to the agent and the action it picked. -/
structure Decision where
  state : StateVector
  action : Nat
deriving DecidableEq, Repr, Inhabited

/-- A line of a record. Entries of the state that are not finite leave a blank. -/
structure RecordLine where
  state : List (Option Float)
  action : Nat
deriving DecidableEq, Repr, Inhabited

/-- The line that records a decision. -/
def Decision.line (d : Decision) : RecordLine :=
  ⟨d.state.toList.map fun x => if x.isFinite then some x else none, d.action⟩

/-- A directory of record files. -/
structure RecordDirectory where
  /-- The directory exists, so files can be created in it. -/
  present : Bool
  /-- The files by name. -/
  files : List (String × List RecordLine)
deriving Repr, Inhabited

namespace RecordDirectory

/-- Creates the file, or replaces it. -/
def write (d : RecordDirectory) (name : String) (lines : List RecordLine) :
    Except Error RecordDirectory :=
  if d.present then
    .ok { d with files := d.files.filter (·.1 != name) ++ [(name, lines)] }
  else .error (.io "No such file or directory")

/-- The lines of a file. -/
def read? (d : RecordDirectory) (name : String) : Option (List RecordLine) :=
  (d.files.find? (·.1 == name)).map (·.2)

end RecordDirectory

/-- The decisions collected so far, and where they are written. -/
structure Recorder where
  directory : RecordDirectory
  /-- The decisions of each connection that has any, oldest first. -/
  episodes : List (ConnectionId × List Decision)
deriving Repr, Inhabited

namespace Recorder

/-- A recorder that has collected nothing. -/
def new (directory : RecordDirectory) : Recorder := ⟨directory, []⟩

/-- The decisions of a connection that are still to be written. -/
def pending (r : Recorder) (connection : ConnectionId) : List Decision :=
  ((r.episodes.find? (·.1 == connection)).map (·.2)).getD []

/-- The recorder without the decisions of a connection. -/
def forget (r : Recorder) (connection : ConnectionId) : Recorder :=
  { r with episodes := r.episodes.filter (·.1 != connection) }

/-- Collects a decision. -/
def add (r : Recorder) (connection : ConnectionId) (decision : Decision) : Recorder :=
  { r with
    episodes := (r.forget connection).episodes
      ++ [(connection, r.pending connection ++ [decision])] }

/-- The name of a connection's file. -/
def fileName (connection : ConnectionId) : String :=
  "experience_" ++ toString connection ++ ".jsonl"

/-- Writes the decisions of a connection to its file and forgets them. The answer is the name of
the file, or nothing if there was nothing to write. -/
def close (r : Recorder) (connection : ConnectionId) :
    Except Error (Option String) × Recorder :=
  match r.pending connection with
  | [] => (.ok none, r)
  | decisions =>
    let rest := r.forget connection
    match r.directory.write (fileName connection) (decisions.map (·.line)) with
    | .ok directory => (.ok (some (fileName connection)), { rest with directory })
    | .error e => (.error e, rest)

end Recorder

end Multipath
