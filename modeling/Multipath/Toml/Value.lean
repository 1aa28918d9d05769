/-!
# Values of configuration files

A configuration file holds a table: values under names, in the order of the file. Values are
scalars, arrays and tables again.
-/

namespace Multipath.Toml

/-- A value of a configuration file. -/
inductive Value where
  | string (text : String)
  | integer (n : Int)
  | float (x : Float)
  | boolean (b : Bool)
  /-- A date, a time or both, as it is written. -/
  | moment (text : String)
  | array (items : List Value)
  | table (entries : List (String × Value))
deriving Repr, Inhabited

/-- Values under names, in order. -/
abbrev Table := List (String × Value)

end Multipath.Toml
