import Multipath.Proofs.Scheduler.Choices

/-!
# When the agent is asked

The learned policy has many ways to do without its agent: two paths leave one candidate, a sole
path that may send is taken, there may be no agent at all, and in training a violation ends the
episode first.  What is left is one question, and everything that a decision leaves behind follows
from its answer.

* `Deliberates`: there is something to decide, and an agent to decide it.
* `Consults`: the agent is asked.
* `Asked`: what a selection leaves behind that asked the agent.
* `learned_of_not_deliberates`, `learned_of_deliberates`: the ways through the policy.
* `select_consults`: a selection asks at most once, when it does, and what it leaves behind
  otherwise.
-/

namespace Multipath

/-! ### Candidates -/

namespace PathSet

/-- The violation by the two lowest-numbered additional paths, if there is one. -/
def violation? (paths : PathSet) : Option Violation :=
  match paths.additional with
  | a :: b :: _ => Violation.find? paths a b
  | _ => none

theorem violation?_eq {paths : PathSet} {a b : Path} {rest : List Path}
    (h : paths.additional = a :: b :: rest) : paths.violation? = Violation.find? paths a b := by
  rw [violation?, h]

end PathSet

namespace Observation

variable {paths : PathSet} {elapsed : Duration} {o : Observation}

/-- The candidates of an observation are the two lowest-numbered additional paths. -/
theorem additional_of_ofPaths? (h : ofPaths? paths elapsed = some o) :
    ∃ rest, paths.additional = o.first :: o.second :: rest := by
  unfold ofPaths? at h
  split at h
  · rename_i rest hlist
    cases h
    exact ⟨rest, hlist⟩
  · cases h

/-- An action is an index into the candidates; out of range it stands for the first. -/
theorem candidate_eq_getD (o : Observation) (action : Nat) :
    o.candidate action = [o.first, o.second].getD action o.first := by
  match action with
  | 0 | 1 | _ + 2 => rfl

end Observation

namespace Scheduler

variable {s : Scheduler} {paths : PathSet} {demand : Demand} {now : Instant}

/-! ### Ways through the policy -/

/-- There is something to decide, and an agent to decide it. -/
structure Deliberates (s : Scheduler) (paths : PathSet) : Prop where
  size : 3 ≤ paths.size
  sendable : 2 ≤ (paths.additional.filter (·.sendingAllowed)).length
  attached : s.agent.isSome = true

/-- The agent is asked: in training, nothing ends the episode first. -/
structure Consults (s : Scheduler) (paths : PathSet) : Prop extends Deliberates s paths where
  faultless : s.config.training = true → paths.violation? = none

/-- Where there is nothing to decide, or nobody, a path is chosen and nothing else is done. -/
theorem learned_of_not_deliberates (demand : Demand) (now : Instant)
    (hseveral : 2 ≤ paths.size) (h : ¬ s.Deliberates paths) :
    ∃ chosen, s.learned paths demand now = (.ok chosen, s) := by
  unfold learned
  split
  · exact ⟨_, rfl⟩
  · rename_i hsize
    split
    · exact ⟨_, rfl⟩
    · exact ⟨_, rfl⟩
    · rename_i first rest hsole hsendable
      split
      · exact ⟨_, rfl⟩
      · exact ⟨_, rfl⟩
      · -- two paths may send and an agent is there, so there was something to decide
        rename_i o agent _ hagent
        refine absurd ⟨by omega, ?_, by rw [hagent]; rfl⟩ h
        rw [hsendable]
        match rest, hsole with
        | _ :: _, _ => exact Nat.le_add_left 2 _

/-- Where there is something to decide, the agent is asked, or a violation forbids it. -/
theorem Deliberates.consults_or (h : s.Deliberates paths) :
    s.Consults paths ∨
      s.config.training = true ∧ ∃ violation, paths.violation? = some violation := by
  cases htraining : s.config.training with
  | false => exact .inl ⟨h, fun h => absurd (htraining.symm.trans h) nofun⟩
  | true =>
      cases hviolation : paths.violation? with
      | none => exact .inl ⟨h, fun _ => hviolation⟩
      | some violation => exact .inr ⟨rfl, violation, rfl⟩

/-- Where there is something to decide, the agent is asked about the two candidates, unless they
are to end the episode. -/
theorem learned_of_deliberates (demand : Demand) (now : Instant) (h : s.Deliberates paths) :
    ∃ agent o, s.agent = some agent ∧ Observation.ofPaths? paths (now.since s.start) = some o ∧
      s.learned paths demand now =
        match s.config.training, paths.violation? with
        | true, some violation =>
          (.error (.zeroTolerance violation.message), s.endEpisode Reward.penalty)
        | _, _ => (.ok (some (s.consult agent o).1), (s.consult agent o).2) := by
  obtain ⟨agent, hagent⟩ := Option.isSome_iff_exists.mp h.attached
  obtain ⟨first, second, more, hsendable⟩ : ∃ first second more,
      paths.additional.filter (·.sendingAllowed) = first :: second :: more := by
    have htwo := h.sendable
    generalize paths.additional.filter (·.sendingAllowed) = sendable at htwo
    match sendable, htwo with
    | first :: second :: more, _ => exact ⟨first, second, more, rfl⟩
  have hadditional : 2 ≤ paths.additional.length :=
    Nat.le_trans h.sendable (List.length_filter_le _ _)
  obtain ⟨o, ho⟩ := Observation.exists_ofPaths? (now.since s.start) hadditional
  obtain ⟨rest, hrest⟩ := Observation.additional_of_ofPaths? ho
  refine ⟨agent, o, hagent, ho, ?_⟩
  have hsize := h.size
  rw [learned, if_neg (by omega), hsendable]
  cases s.config.training <;> cases hviolation : Violation.find? paths o.first o.second <;>
    simp only [ho, hagent, PathSet.violation?_eq hrest, hviolation]

theorem learned_of_consults (h : s.Consults paths) :
    ∃ agent o, s.agent = some agent ∧ Observation.ofPaths? paths (now.since s.start) = some o ∧
      s.learned paths demand now =
        (.ok (some (s.consult agent o).1), (s.consult agent o).2) := by
  obtain ⟨agent, o, hagent, ho, hlearned⟩ := learned_of_deliberates demand now h.toDeliberates
  refine ⟨agent, o, hagent, ho, hlearned.trans ?_⟩
  cases htraining : s.config.training with
  | false => rfl
  | true => rw [h.faultless htraining]

/-- A violation ends the episode, and the agent hears nothing else. -/
theorem learned_of_violation (h : s.Deliberates paths) (htraining : s.config.training = true)
    {violation : Violation} (hviolation : paths.violation? = some violation) :
    s.learned paths demand now = (.error (.zeroTolerance violation.message),
      s.note (.agent (.endEpisode s.connection Reward.penalty false))) := by
  obtain ⟨_, _, _, _, hlearned⟩ := learned_of_deliberates demand now h
  rw [hlearned, htraining, hviolation]
  simp only [endEpisode, h.attached, if_true]

/-! ### What a selection leaves behind -/

/-- What a selection leaves behind that asked `agent` about `o`: the calls it made, its answer and
the scheduler after it. -/
structure Asked (s : Scheduler) (paths : PathSet) (agent : Agent) (o : Observation)
    (calls : List AgentCall) (answer : Except Error (Option PathId)) (s' : Scheduler) : Prop where
  /-- The candidates are the two lowest-numbered additional paths. -/
  candidates : ∃ rest, paths.additional = o.first :: o.second :: rest
  /-- The action is an index into the candidates, and out of range stands for the first. -/
  answer : answer = .ok (some ([o.first, o.second].getD
    (agent.policy s.journal.agentCalls o.state) o.first).id)
  /-- The question, and in training one report of the same state and action. -/
  calls : calls = .select o.state (agent.policy s.journal.agentCalls o.state) ::
    if s.config.training then
      [.outcome s.connection o.reward o.state (agent.policy s.journal.agentCalls o.state)]
    else []
  decision : s'.lastDecision = some (o.state, ([o.first, o.second].getD
    (agent.policy s.journal.agentCalls o.state) o.first).id)
  /-- Outside training the recorder, if there is one, collects the decision once. -/
  recorder : s'.recorder = if s.config.training then s.recorder else s.recorder.map
    (·.add s.connection ⟨o.state, agent.policy s.journal.agentCalls o.state⟩)
  quotas : s'.quotas = s.quotas

/-- Asking the agent enters the question, and in training the report. -/
theorem consult_asked (agent : Agent) {o : Observation}
    (h : Observation.ofPaths? paths (now.since s.start) = some o) :
    ∃ calls, (s.consult agent o).2.journal.toList = s.journal.toList ++ calls.map .agent ∧
      Asked s paths agent o calls (.ok (some (s.consult agent o).1)) (s.consult agent o).2 := by
  refine ⟨_, ?_, Observation.additional_of_ofPaths? h, ?_, rfl, ?_, ?_, ?_⟩
  · cases htraining : s.config.training <;> simp [consult, note, htraining]
  · rw [← Observation.candidate_eq_getD]
    rfl
  · rw [← Observation.candidate_eq_getD]
    rfl
  · cases htraining : s.config.training <;> simp [consult, note, htraining]
  · cases htraining : s.config.training <;> simp [consult, note, htraining]

theorem Asked.countP_isSelect {agent : Agent} {o : Observation} {calls : List AgentCall}
    {answer : Except Error (Option PathId)} {s' : Scheduler}
    (h : Asked s paths agent o calls answer s') : calls.countP (·.isSelect) = 1 := by
  rw [h.calls]
  cases s.config.training <;> rfl

/-- **A selection of the learned policy asks the agent at most once**, and does so exactly if there
are three paths, two additional ones that may send, an agent and, in training, no violation.  Then
the agent's action picks the path, and the decision is kept, reported and recorded as `Asked` says.
Otherwise the last decision and the recorder stay as they are, and the agent hears nothing, unless
a violation ends the episode: then it hears that and nothing else, and the selection fails. -/
theorem select_consults (s : Scheduler) (paths : PathSet) (demand : Demand) (now : Instant)
    (hstrategy : s.config.strategy = .learnedPolicy) (hseveral : 2 ≤ paths.size) :
    ∃ calls, (s.select paths demand now).2.journal.toList =
        s.journal.toList ++ calls.map .agent ∧
      calls.countP (·.isSelect) ≤ 1 ∧
      (calls.countP (·.isSelect) = 1 ↔ s.Consults paths) ∧
      (s.Consults paths → ∃ agent o, s.agent = some agent ∧
        Observation.ofPaths? paths (now.since s.start) = some o ∧
        Asked s paths agent o calls (s.select paths demand now).1
          (s.select paths demand now).2) ∧
      (¬ s.Consults paths →
        (s.select paths demand now).2.lastDecision = s.lastDecision ∧
          (s.select paths demand now).2.recorder = s.recorder) ∧
      (¬ s.Deliberates paths →
        calls = [] ∧ ∃ chosen, (s.select paths demand now).1 = .ok chosen) ∧
      (∀ violation, s.Deliberates paths → s.config.training = true →
        paths.violation? = some violation →
        (s.select paths demand now).1 = .error (.zeroTolerance violation.message) ∧
          calls = [.endEpisode s.connection (-100.0) false] ∧
          (s.select paths demand now).2.quotas = s.quotas) := by
  have hselect : s.select paths demand now = s.learned paths demand now := by
    rw [select, if_neg (by omega), hstrategy]
  rw [hselect]
  by_cases hdeliberates : s.Deliberates paths
  · rcases hdeliberates.consults_or with hconsults | ⟨htraining, violation, hviolation⟩
    · obtain ⟨agent, o, hagent, ho, hlearned⟩ := learned_of_consults hconsults
      obtain ⟨calls, hjournal, hasked⟩ := consult_asked agent ho
      rw [hlearned]
      refine ⟨calls, hjournal, Nat.le_of_eq hasked.countP_isSelect,
        iff_of_true hasked.countP_isSelect hconsults, fun _ => ⟨agent, o, hagent, ho, hasked⟩,
        fun h => absurd hconsults h, fun h => absurd hdeliberates h, ?_⟩
      intro violation _ htraining hviolation
      exact absurd ((hconsults.faultless htraining).symm.trans hviolation) nofun
    · have hnot : ¬ s.Consults paths := fun h =>
        absurd ((h.faultless htraining).symm.trans hviolation) nofun
      rw [learned_of_violation hdeliberates htraining hviolation]
      refine ⟨[.endEpisode s.connection Reward.penalty false], by simp [note], Nat.zero_le _,
        iff_of_false (by simp [AgentCall.isSelect]) hnot, fun h => absurd h hnot, fun _ => ⟨rfl, rfl⟩,
        fun h => absurd hdeliberates h, fun violation' _ _ hviolation' => ?_⟩
      obtain rfl := Option.some.inj (hviolation.symm.trans hviolation')
      exact ⟨rfl, rfl, rfl⟩
  · obtain ⟨chosen, hlearned⟩ := learned_of_not_deliberates demand now hseveral hdeliberates
    have hnot : ¬ s.Consults paths := fun h => hdeliberates h.toDeliberates
    rw [hlearned]
    exact ⟨[], by simp, Nat.zero_le _, iff_of_false (by decide) hnot, fun h => absurd h hnot,
      fun _ => ⟨rfl, rfl⟩, fun _ => ⟨rfl, chosen, rfl⟩, fun _ h => absurd h hdeliberates⟩

/-- A scheduler in training on which nothing has happened yet. -/
def trainee (actions : List Nat) : Scheduler :=
  .new { strategy := .learnedPolicy, training := true } {} ⟨1⟩ ⟨0⟩ (some (.cycling actions))
    default default

/-- Two additional paths that may send. -/
def twoOpen : PathSet :=
  ((PathSet.empty.insert (.new .initial {} default)).insert (.new .primary {} default)).insert
    (.new ⟨2⟩ {} default)

/-- The agent picks the second candidate, and is told of the state and the action once. -/
theorem select_consults_twoOpen :
    ((trainee [1]).select twoOpen {} ⟨0⟩).1 = .ok (some ⟨2⟩) ∧
      ∃ state reward, ((trainee [1]).select twoOpen {} ⟨0⟩).2.journal.toList =
        [.agent (.select state 1), .agent (.outcome ⟨1⟩ reward state 1)] := by
  obtain ⟨calls, hjournal, -, -, hconsults, -⟩ :=
    select_consults (trainee [1]) twoOpen {} ⟨0⟩ rfl (by decide)
  obtain ⟨agent, o, hagent, ho, hasked⟩ :=
    hconsults ⟨⟨by decide, by decide, rfl⟩, fun _ => rfl⟩
  obtain rfl := Option.some.inj hagent
  obtain rfl := Option.some.inj ho
  exact ⟨hasked.answer, _, _, hjournal.trans (by rw [hasked.calls]; rfl)⟩

end Scheduler

end Multipath
