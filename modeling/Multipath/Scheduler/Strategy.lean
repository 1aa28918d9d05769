import Multipath.Error

/-!
# Strategies

How the path of a packet, and the paths of a whole batch, are chosen, and the names under which
a configuration asks for them.
-/

namespace Multipath

/-- How the path of a single packet is chosen. -/
inductive Strategy where
  /-- The path with the fewest packets so far. -/
  | roundRobin
  /-- The path with the lowest round-trip time. -/
  | lowestRtt
  /-- Any path with room in its window. -/
  | random
  /-- The first additional path, always. -/
  | firstAvailable
  /-- The path the agent picks. -/
  | learnedPolicy
deriving DecidableEq, Repr

namespace Strategy

instance : Inhabited Strategy := ⟨lowestRtt⟩

def all : List Strategy := [roundRobin, lowestRtt, random, firstAvailable, learnedPolicy]

/-- The strategy's name in a configuration. -/
def name : Strategy → String
  | roundRobin => "roundRobin"
  | lowestRtt => "rtt"
  | random => "random"
  | firstAvailable => "primary"
  | learnedPolicy => "dqnAgent"

/-- The strategy's name in descriptions of a scheduler. -/
def label : Strategy → String
  | roundRobin => "RoundRobin"
  | lowestRtt => "LowestRtt"
  | random => "Random"
  | firstAvailable => "FirstAvailable"
  | learnedPolicy => "LearnedPolicy"

/-- The strategy with this name. -/
def ofName? (name : String) : Option Strategy := all.find? (·.name == name)

/-- The strategy with this name; a name of no strategy is an error. -/
def ofName (name : String) : Except Error Strategy :=
  match ofName? name with
  | some s => .ok s
  | none => .error (.unknownStrategy name)

end Strategy

/-- How a batch of packets is assigned to paths. -/
inductive BatchStrategy where
  /-- As many packets in time as the windows allow. -/
  | linOpt
  /-- Lowest round-trip time, in order of deadlines. -/
  | earliestDeadlineFirst
  /-- Everything on the first additional path. -/
  | firstPath
deriving DecidableEq, Repr

namespace BatchStrategy

instance : Inhabited BatchStrategy := ⟨firstPath⟩

def all : List BatchStrategy := [linOpt, earliestDeadlineFirst, firstPath]

/-- The strategy's name in a configuration. -/
def name : BatchStrategy → String
  | linOpt => "BatchLinOpt"
  | earliestDeadlineFirst => "BatchEDF"
  | firstPath => "firstPath"

/-- The strategy's name in descriptions of a scheduler. -/
def label : BatchStrategy → String
  | linOpt => "LinOpt"
  | earliestDeadlineFirst => "EarliestDeadlineFirst"
  | firstPath => "FirstPath"

/-- The strategy with this name. -/
def ofName? (name : String) : Option BatchStrategy := all.find? (·.name == name)

end BatchStrategy

end Multipath
