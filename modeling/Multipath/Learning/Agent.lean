import Multipath.Learning.Observation

/-!
# Agents

The agent behind the learned policy is a black box that answers from what it has been told
before. So an agent is a function of the calls made to it so far and of the state it is shown;
the calls are kept by the scheduler that makes them.
-/

namespace Multipath

/-- A call to the agent, with its answer. -/
inductive AgentCall where
  /-- The agent was shown `state` and picked `action`. -/
  | select (state : StateVector) (action : Nat)
  /-- The agent was told the reward of a decision. -/
  | outcome (connection : ConnectionId) (reward : Float) (state : StateVector) (action : Nat)
  /-- The agent was told that the episode of a connection is over. -/
  | endEpisode (connection : ConnectionId) (reward : Float) (terminal : Bool)
deriving DecidableEq, Repr, Inhabited

/-- Whether the call asks for an action. -/
def AgentCall.isSelect : AgentCall → Bool
  | .select _ _ => true
  | _ => false

/-- An agent: the action it picks, given the calls so far and the state shown. -/
structure Agent where
  policy : List AgentCall → StateVector → Nat

/-- The agent that picks the given actions in turn, over and over, whatever it is shown. -/
def Agent.cycling (actions : List Nat) : Agent where
  policy calls _ := actions.getD (calls.countP (·.isSelect) % actions.length) 0

end Multipath
