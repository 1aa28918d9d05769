import Multipath.Config.Document
import Multipath.Toml.Layout

/-!
# Configuration files

Reading and writing a configuration as a file.

* `Config.save`: the text of the file. Settings out of bounds are written like others.
* `Config.load`: the configuration in a file. It fails if there is no such file, if the text or a
  setting cannot be read, or if a setting is out of bounds.
-/

namespace Multipath.Config

/-- The text of the file for a configuration. It can only be written to an existing directory. -/
def save (c : Config) (directoryPresent : Bool) : Except Error String :=
  if directoryPresent then .ok (Toml.write c.toTable)
  else .error (.other "Failed to write config")

/-- The configuration that a text stands for, whether or not its settings are in bounds. -/
def read (text : String) : Except Error Config :=
  match (Toml.parse? text).bind ofTable? with
  | some c => .ok c
  | none => .error (.config "Failed to parse config")

/-- The configuration in a file with this text; without a text there is no file. -/
def load : Option String → Except Error Config
  | none => .error (.other "Failed to read config")
  | some text => do
    let c ← read text
    c.validate
    return c

end Multipath.Config
