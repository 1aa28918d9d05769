import Multipath.Config.Basic
import Multipath.Draws
import Multipath.Journal
import Multipath.Learning.Experience
import Multipath.Tally

/-!
# The scheduler

The state of one connection's scheduler: its settings, how many packets each path has carried,
the deadlines of packets put off to a later batch, and what the learned policy needs. All that
it does to the world around it goes into its journal.
-/

namespace Multipath

/-- The scheduler of one connection. -/
structure Scheduler where
  config : SchedulerConfig
  batch : BatchConfig
  connection : ConnectionId
  /-- When the connection began. -/
  start : Instant
  /-- The agent behind the learned policy. -/
  agent : Option Agent
  /-- Where decisions are recorded, if they are. -/
  recorder : Option Recorder
  draws : Draws
  /-- Packets each path has carried. -/
  quotas : Tally
  /-- Packets of each path that were taken back to be sent again. -/
  drained : Tally
  /-- Deadlines of packets put off to a later batch, oldest first. -/
  waiting : List Instant
  /-- The last state shown to the agent, and the path chosen for it. -/
  lastDecision : Option (StateVector × PathId)
  journal : Journal
deriving Inhabited

namespace Scheduler

/-- A scheduler that has done nothing yet. Decisions are recorded only if the settings ask for
it and the learned policy is not being trained. -/
def new (config : SchedulerConfig) (batch : BatchConfig) (connection : ConnectionId)
    (start : Instant) (agent : Option Agent) (directory : RecordDirectory) (draws : Draws) :
    Scheduler where
  config
  batch
  connection
  start
  agent
  recorder :=
    if config.recordsExperience && !config.training then some (.new directory) else none
  draws
  quotas := .empty
  drained := .empty
  waiting := []
  lastDecision := none
  journal := #[]

/-- How many packets a path has carried, without an end to the count. -/
def quota (s : Scheduler) (id : PathId) : Nat := s.quotas.count id

/-- The same count in a word, which begins again at zero where it overflows. -/
def quotaWord (s : Scheduler) (id : PathId) : UInt64 := s.quotas.word id

def setQuota (s : Scheduler) (id : PathId) (n : Nat) : Scheduler :=
  { s with quotas := s.quotas.set id n }

def bumpQuota (s : Scheduler) (id : PathId) : Scheduler :=
  { s with quotas := s.quotas.bump id }

/-- Counts a packet that was taken back from a path. -/
def countDrained (s : Scheduler) (id : PathId) : Scheduler :=
  { s with drained := s.drained.bump id }

/-- Whether the learned policy makes the decisions. -/
def isLearning (s : Scheduler) : Bool := s.config.strategy == .learnedPolicy

/-- Enters an event into the journal. -/
def note (s : Scheduler) (event : Event) : Scheduler := { s with journal := s.journal.push event }

/-- Tells the agent, if there is one, that the connection's episode is over. -/
def endEpisode (s : Scheduler) (reward : Float) : Scheduler :=
  if s.agent.isSome then s.note (.agent (.endEpisode s.connection reward false)) else s

/-- A one-line description. -/
def describe (s : Scheduler) : String :=
  "Scheduler \x7b strategy: " ++ s.config.strategy.label ++ ", batch_strategy: "
    ++ s.batch.strategy.label ++ ", training: " ++ toString s.config.training
    ++ ", connection: ConnectionId(" ++ toString s.connection.number.toNat ++ ") \x7d"

end Scheduler

end Multipath
