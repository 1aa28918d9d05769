import Mathlib.Data.List.Induction
import Multipath.Proofs.Receiver.History
import Multipath.Receiver.Basic

/-!
# Runs of a receiver

A run begins with a path on which nothing has arrived and makes any calls in any order.  A
`Watched` receiver keeps a log beside the receiver: which packets were accepted and when, which
acknowledgements were handed out, how deadlines came out.  A packet is accepted when the receiver
counts it.

* `Move`: everything a call can do to a watched receiver.  Calls that concern deadlines and
  diagnostics only are `aside`; so are duplicates, refused packets and acknowledgements that are
  not due.
* `step_move`: a call is a move, so what every move keeps holds after every run (`run_induction`).
* `Booked`: the history holds the accepted packets above the floor, and the books know the
  greatest of all accepted packets and when it arrived.  `booked_run`: this holds after every run.
* `floor_run`: the floor is the greatest limit it was raised to, so that the history holds the
  accepted packets above every limit (`mem_history_run`).
-/

namespace Multipath

/-! ### Calls and their log -/

/-- A call on a receiver. -/
inductive ReceiverCall where
  | receive (n : PacketNumber) (asks : Bool) (now : Instant)
  | ack (now : Instant)
  | raiseFloor (n : PacketNumber)
  | judge (deadline : Option Instant) (arrival : Instant)
  | setNotSent (count : UInt16)
  | setAlpha (alpha : UInt16)
deriving DecidableEq, Repr

/-- What came of a call. -/
inductive Receipt where
  /-- Packet `n` was accepted at `time`; `asks` says whether it asks for an acknowledgement. -/
  | accepted (n : PacketNumber) (asks : Bool) (time : Instant)
  /-- An acknowledgement was handed out. -/
  | acknowledged (frame : AckFrame)
  /-- A deadline was compared with an arrival. -/
  | judged (outcome : DeadlineOutcome)
deriving DecidableEq, Repr

namespace Receipt

def isAccepted : Receipt → Bool
  | .accepted .. => true
  | _ => false

/-- An accepted packet that asks for an acknowledgement. -/
def isAsking : Receipt → Bool
  | .accepted _ asks _ => asks
  | _ => false

/-- The receipts since the last acknowledgement, in a log with the newest receipt first. -/
def sinceAck : List Receipt → List Receipt
  | [] => []
  | .acknowledged _ :: _ => []
  | e :: log => e :: sinceAck log

/-- The last acknowledgement of a log. -/
def lastAck? : List Receipt → Option AckFrame
  | [] => none
  | .acknowledged frame :: _ => some frame
  | _ :: log => lastAck? log

theorem mem_of_mem_sinceAck {e : Receipt} : ∀ {log : List Receipt}, e ∈ sinceAck log → e ∈ log
  | [], h => h
  | .acknowledged _ :: _, h => absurd h List.not_mem_nil
  | .accepted .. :: log, h | .judged _ :: log, h => by
      rcases List.mem_cons.mp h with rfl | h
      · exact List.mem_cons_self
      · exact List.mem_cons_of_mem _ (mem_of_mem_sinceAck h)

end Receipt

/-- A receiver, and what has come of the calls on it. -/
structure Watched where
  receiver : Receiver
  /-- The newest receipt first. -/
  log : List Receipt
deriving DecidableEq, Repr

namespace Watched

/-- Makes a call.  A packet that fails leaves everything as it is. -/
def step (w : Watched) : ReceiverCall → Watched
  | .receive n asks now =>
    match w.receiver.receive n asks now with
    | .error _ => w
    | .ok r =>
      if w.receiver.statistics.packets < r.statistics.packets then
        ⟨r, .accepted n asks now :: w.log⟩
      else ⟨r, w.log⟩
  | .ack now =>
    match w.receiver.ack now with
    | (some frame, r) => ⟨r, .acknowledged frame :: w.log⟩
    | (none, r) => ⟨r, w.log⟩
  | .raiseFloor n => ⟨w.receiver.raiseFloor n, w.log⟩
  | .judge deadline arrival =>
    let (outcome, r) := w.receiver.judge deadline arrival
    ⟨r, .judged outcome :: w.log⟩
  | .setNotSent count => ⟨w.receiver.setNotSent count, w.log⟩
  | .setAlpha alpha => ⟨w.receiver.setAlpha alpha, w.log⟩

/-- A run: the calls in their order, on a path on which nothing has arrived. -/
def run (version : Version) (ackDelay : Duration) (calls : List ReceiverCall) : Watched :=
  calls.foldl step ⟨.new version ackDelay, []⟩

theorem run_append (version : Version) (ackDelay : Duration) (calls later : List ReceiverCall) :
    run version ackDelay (calls ++ later) = later.foldl step (run version ackDelay calls) :=
  List.foldl_append

/-- Packet `n` was accepted in the run. -/
def Accepted (w : Watched) (n : PacketNumber) : Prop :=
  ∃ asks time, Receipt.accepted n asks time ∈ w.log

end Watched

/-! ### What a call can do -/

namespace Receiver

/-- Drops whatever makes an acknowledgement due. -/
def disarm (r : Receiver) : Receiver := { r with ackQueued := false, ackAlarm := none }

/-- Begins new counts after an acknowledgement. -/
def restart (r : Receiver) (frame : AckFrame) : Receiver :=
  { r.disarm with
    lastAck := some frame
    unacked := 0
    unackedAsking := 0
    metSinceAck := 0
    missedSinceAck := 0 }

/-- A packet fails, or changes nothing, or is new and above the floor. -/
theorem receive_cases (r : Receiver) (n : PacketNumber) (asks : Bool) (now : Instant) :
    (∃ e, r.receive n asks now = .error e) ∨ r.receive n asks now = .ok r ∨
      ∃ history, r.floor < n ∧ r.history.record n = .ok (true, history) ∧
        r.receive n asks now = .ok ((r.enter history n asks now).settle n asks now) := by
  unfold receive
  split
  · exact .inl ⟨_, rfl⟩
  · split
    · exact .inr (.inl rfl)
    · rename_i hfloor
      cases hrec : r.history.record n with
      | error e => exact .inl ⟨e, rfl⟩
      | ok answer =>
          obtain ⟨new, history⟩ := answer
          cases new with
          | false => exact .inr (.inl rfl)
          | true => exact .inr (.inr ⟨history, Nat.lt_of_not_le hfloor, rfl, rfl⟩)

/-- No acknowledgement is due, or there is nothing to report, or the frame goes out. -/
theorem ack_cases (r : Receiver) (now : Instant) :
    (r.isDue now = false ∧ r.ack now = (none, r)) ∨
      (r.isDue now = true ∧ r.lowest? = none ∧ r.ack now = (none, r.disarm)) ∨
      ∃ lowest, r.isDue now = true ∧ r.lowest? = some lowest ∧
        r.ack now = (some (r.frame lowest now), r.restart (r.frame lowest now)) := by
  unfold ack
  cases hdue : r.isDue now with
  | false => exact .inl ⟨rfl, rfl⟩
  | true =>
      cases hlow : r.lowest? with
      | none => exact .inr (.inl ⟨rfl, rfl, rfl⟩)
      | some lowest => exact .inr (.inr ⟨lowest, rfl, rfl, rfl⟩)

/-- Settling queues an acknowledgement, or arms the alarm, or leaves everything as it is. -/
theorem settle_cases (r : Receiver) (n : PacketNumber) (asks : Bool) (now : Instant) :
    ((r.ackQueued = true ∨ r.isNews n = true ∨ r.periodElapsed = true ∨
        asks = true ∧ askingPacketsBeforeAck ≤ r.unackedAsking) ∧
      r.settle n asks now = { r with ackQueued := true, ackAlarm := none }) ∨
    ((r.ackQueued = false ∧ r.isNews n = false ∧ r.periodElapsed = false ∧
        (asks = true → r.unackedAsking < askingPacketsBeforeAck)) ∧
      (asks = true ∧ r.ackAlarm = none ∧
          r.settle n asks now = { r with ackAlarm := some (now + r.ackDelay) } ∨
        (asks = true → r.ackAlarm ≠ none) ∧ r.settle n asks now = r)) := by
  unfold settle
  split
  · rename_i h
    simp only [Bool.or_eq_true, Bool.and_eq_true, decide_eq_true_eq, or_assoc] at h
    exact .inl ⟨h, rfl⟩
  · rename_i h
    simp only [Bool.or_eq_true, Bool.and_eq_true, decide_eq_true_eq, not_or, not_and,
      Bool.not_eq_true, Nat.not_le, and_assoc] at h
    refine .inr ⟨h, ?_⟩
    split
    · rename_i harm
      simp only [Bool.and_eq_true, Option.isNone_iff_eq_none] at harm
      exact .inl ⟨harm.1, harm.2, rfl⟩
    · rename_i harm
      simp only [Bool.and_eq_true, Option.isNone_iff_eq_none, not_and] at harm
      exact .inr ⟨harm, rfl⟩

/-- Settling concerns the two triggers only. -/
theorem settle_eq (r : Receiver) (n : PacketNumber) (asks : Bool) (now : Instant) :
    ∃ queued alarm, r.settle n asks now = { r with ackQueued := queued, ackAlarm := alarm } := by
  rcases r.settle_cases n asks now with ⟨-, h⟩ | ⟨-, ⟨-, -, h⟩ | ⟨-, h⟩⟩ <;> rw [h] <;>
    exact ⟨_, _, rfl⟩

end Receiver

open Receipt

/-- What a call can make of a watched receiver. -/
inductive Move (w : Watched) : Watched → Prop where
  /-- Lifetime statistics, deadline counts and diagnostics at most. -/
  | aside (statistics : ReceiveStatistics) (met missed notSent alpha : UInt16) :
      Move w ⟨{ w.receiver with
        statistics, metSinceAck := met, missedSinceAck := missed, notSent, alpha }, w.log⟩
  /-- The same, for a packet whose deadline was looked at. -/
  | judge (statistics : ReceiveStatistics) (met missed notSent alpha : UInt16)
      (outcome : DeadlineOutcome) :
      Move w ⟨{ w.receiver with
        statistics, metSinceAck := met, missedSinceAck := missed, notSent, alpha },
        .judged outcome :: w.log⟩
  | accept (n : PacketNumber) (asks : Bool) (now : Instant) (history : History)
      (hfloor : w.receiver.floor < n) (hrec : w.receiver.history.record n = .ok (true, history)) :
      Move w ⟨(w.receiver.enter history n asks now).settle n asks now,
        .accepted n asks now :: w.log⟩
  | acknowledge (lowest : PacketNumber) (now : Instant) (hdue : w.receiver.isDue now = true)
      (hlow : w.receiver.lowest? = some lowest) :
      Move w ⟨w.receiver.restart (w.receiver.frame lowest now),
        .acknowledged (w.receiver.frame lowest now) :: w.log⟩
  /-- An acknowledgement is due, but everything it would report has been given up. -/
  | disarm (hlow : w.receiver.lowest? = none) : Move w ⟨w.receiver.disarm, w.log⟩
  | raise (n : PacketNumber) (hfloor : w.receiver.floor < n) :
      Move w ⟨{ w.receiver with floor := n, history := w.receiver.history.forgetUpTo n }, w.log⟩

theorem Move.refl (w : Watched) : Move w w :=
  .aside w.receiver.statistics w.receiver.metSinceAck w.receiver.missedSinceAck
    w.receiver.notSent w.receiver.alpha

namespace Watched

/-- **Every call is a move.** -/
theorem step_move (w : Watched) (call : ReceiverCall) : Move w (w.step call) := by
  cases call with
  | receive n asks now =>
      rcases w.receiver.receive_cases n asks now with ⟨e, h⟩ | h | ⟨history, hfloor, hrec, h⟩
      · simp only [step, h]
        exact Move.refl w
      · -- a packet that is not counted leaves no receipt
        simp only [step, h, Nat.lt_irrefl, if_false]
        exact Move.refl w
      · obtain ⟨queued, alarm, hsettle⟩ :=
          (w.receiver.enter history n asks now).settle_eq n asks now
        have hcount : w.receiver.statistics.packets <
            ((w.receiver.enter history n asks now).settle n asks now).statistics.packets := by
          rw [hsettle]
          exact Nat.lt_succ_self _
        simp only [step, h, hcount, if_true]
        exact .accept n asks now history hfloor hrec
  | ack now =>
      rcases w.receiver.ack_cases now with ⟨-, h⟩ | ⟨-, hlow, h⟩ | ⟨lowest, hdue, hlow, h⟩
      · simp only [step, h]
        exact Move.refl w
      · simp only [step, h]
        exact .disarm hlow
      · simp only [step, h]
        exact .acknowledge lowest now hdue hlow
  | raiseFloor n =>
      simp only [step, Receiver.raiseFloor]
      split
      · exact Move.refl w
      · exact .raise n (Nat.lt_of_not_le ‹_›)
  | judge deadline arrival =>
      simp only [step, Receiver.judge]
      split
      · exact .judge _ _ _ _ _ _
      · split <;> exact .judge _ _ _ _ _ _
  | setNotSent count => exact .aside _ _ _ _ _
  | setAlpha alpha =>
      simp only [step, Receiver.setAlpha]
      split
      · exact Move.refl w
      · exact .aside _ _ _ _ _

/-- What holds at the start and is kept by every move holds after every run. -/
theorem run_induction {P : Watched → Prop} {version : Version} {ackDelay : Duration}
    (start : P ⟨.new version ackDelay, []⟩) (move : ∀ {w w'}, P w → Move w w' → P w')
    (calls : List ReceiverCall) : P (run version ackDelay calls) :=
  List.foldlRecOn calls step start fun w hw call _ => move hw (step_move w call)

/-! ### The books -/

/-- What the books say of the accepted packets. -/
structure Booked (w : Watched) : Prop where
  separated : History.Separated w.receiver.history.ranges
  mem_history : ∀ n, n ∈ w.receiver.history ↔ w.Accepted n ∧ w.receiver.floor < n
  /-- A packet is accepted once. -/
  once : ∀ {n asks asks' time time'}, Receipt.accepted n asks time ∈ w.log →
    Receipt.accepted n asks' time' ∈ w.log → time = time'
  le_largest : ∀ n, w.Accepted n → n.val ≤ w.receiver.largest.val
  /-- Once a packet was accepted, the greatest one is known with its arrival. -/
  largest : w.receiver.largest = .zero ∨ ∃ asks time,
    Receipt.accepted w.receiver.largest asks time ∈ w.log ∧ w.receiver.largestAt = some time

/-- The books depend on the history, the floor, the greatest packet and the packets accepted. -/
theorem Booked.congr {w : Watched} {r : Receiver} {log : List Receipt} (hb : Booked w)
    (hhistory : r.history = w.receiver.history) (hfloor : r.floor = w.receiver.floor)
    (hlargest : r.largest = w.receiver.largest) (hat : r.largestAt = w.receiver.largestAt)
    (hlog : ∀ n asks time, Receipt.accepted n asks time ∈ log ↔
      Receipt.accepted n asks time ∈ w.log) : Booked ⟨r, log⟩ := by
  have haccepted : ∀ n, Accepted ⟨r, log⟩ n ↔ w.Accepted n := by
    intro n
    simp only [Accepted, hlog]
  constructor
  · rw [hhistory]; exact hb.separated
  · intro n
    rw [haccepted, hhistory, hfloor]
    exact hb.mem_history n
  · intro n asks asks' time time' h h'
    exact hb.once ((hlog _ _ _).mp h) ((hlog _ _ _).mp h')
  · intro n hn
    rw [hlargest]
    exact hb.le_largest n ((haccepted n).mp hn)
  · simp only [hlargest, hat, hlog]
    exact hb.largest

theorem booked_start (version : Version) (ackDelay : Duration) :
    Booked ⟨.new version ackDelay, []⟩ := by
  refine ⟨History.separated_nil, fun n => ?_, ?_, ?_, .inl rfl⟩
  · simp [Accepted, History.mem_iff, Receiver.new, History.empty, History.covers_nil]
  · simp
  · simp [Accepted]

/-- Accepting a packet enters it into the books. -/
theorem Booked.accept {w : Watched} (hb : Booked w) {n : PacketNumber} {asks : Bool}
    {now : Instant} {history : History} (hfloor : w.receiver.floor < n)
    (hrec : w.receiver.history.record n = .ok (true, history)) :
    Booked ⟨w.receiver.enter history n asks now, .accepted n asks now :: w.log⟩ := by
  obtain ⟨hnew, hsep, -, hmem⟩ := History.record_new hb.separated hrec
  have hfresh : ¬ w.Accepted n := fun hn => hnew ((hb.mem_history n).mpr ⟨hn, hfloor⟩)
  have haccepted : ∀ m, Accepted ⟨w.receiver.enter history n asks now,
      .accepted n asks now :: w.log⟩ m ↔ m = n ∨ w.Accepted m := by
    intro m
    simp only [Accepted, List.mem_cons, Receipt.accepted.injEq]
    constructor
    · rintro ⟨a, t, ⟨rfl, -, -⟩ | h⟩
      · exact .inl rfl
      · exact .inr ⟨a, t, h⟩
    · rintro (rfl | ⟨a, t, h⟩)
      · exact ⟨asks, now, .inl ⟨rfl, rfl, rfl⟩⟩
      · exact ⟨a, t, .inr h⟩
  constructor
  · exact hsep
  · intro m
    rw [haccepted]
    show m ∈ history ↔ _ ∧ w.receiver.floor < m
    rw [hmem, hb.mem_history]
    constructor
    · rintro (rfl | ⟨hm, hlt⟩)
      · exact ⟨.inl rfl, hfloor⟩
      · exact ⟨.inr hm, hlt⟩
    · rintro ⟨rfl | hm, hlt⟩
      · exact .inl rfl
      · exact .inr ⟨hm, hlt⟩
  · -- two receipts of one packet are the new receipt or are both old ones
    intro m a a' t t' h h'
    rcases List.mem_cons.mp h with hn | hl <;> rcases List.mem_cons.mp h' with hn' | hl'
    · exact (Receipt.accepted.inj hn).2.2.trans (Receipt.accepted.inj hn').2.2.symm
    · obtain ⟨rfl, -, -⟩ := Receipt.accepted.inj hn
      exact absurd ⟨_, _, hl'⟩ hfresh
    · obtain ⟨rfl, -, -⟩ := Receipt.accepted.inj hn'
      exact absurd ⟨_, _, hl⟩ hfresh
    · exact hb.once hl hl'
  · intro m hm
    simp only [Receiver.enter]
    rcases (haccepted m).mp hm with rfl | hm
    · split
      · exact Nat.le_refl _
      · exact Nat.not_lt.mp ‹_›
    · have := hb.le_largest m hm
      split
      · exact Nat.le_trans this (Nat.le_of_lt ‹_›)
      · exact this
  · simp only [Receiver.enter]
    split
    · exact .inr ⟨asks, now, List.mem_cons_self, rfl⟩
    · rename_i hle
      -- the greatest packet stays, and it is a packet because it is not below `n`
      rcases hb.largest with hzero | ⟨a, t, hlog, hat⟩
      · exact absurd (hzero ▸ Nat.lt_of_le_of_lt (Nat.zero_le _) hfloor) hle
      · exact .inr ⟨a, t, List.mem_cons_of_mem _ hlog, hat⟩

/-- Raising the floor gives up the packets up to it. -/
theorem Booked.raise {w : Watched} (hb : Booked w) {n : PacketNumber}
    (hfloor : w.receiver.floor < n) :
    Booked ⟨{ w.receiver with floor := n, history := w.receiver.history.forgetUpTo n },
      w.log⟩ := by
  refine ⟨History.separated_forgetUpTo hb.separated, fun m => ?_, hb.once, hb.le_largest,
    hb.largest⟩
  show m ∈ w.receiver.history.forgetUpTo n ↔ w.Accepted m ∧ n.val < m.val
  rw [History.mem_forgetUpTo, hb.mem_history]
  constructor
  · rintro ⟨⟨hm, -⟩, hlt⟩
    exact ⟨hm, hlt⟩
  · rintro ⟨hm, hlt⟩
    exact ⟨⟨hm, Nat.lt_trans hfloor hlt⟩, hlt⟩

theorem Booked.move {w w' : Watched} (hb : Booked w) (hmove : Move w w') : Booked w' := by
  cases hmove with
  | aside => exact hb.congr rfl rfl rfl rfl fun _ _ _ => Iff.rfl
  | judge => exact hb.congr rfl rfl rfl rfl (by simp)
  | accept n asks now history hfloor hrec =>
      obtain ⟨queued, alarm, hsettle⟩ :=
        (w.receiver.enter history n asks now).settle_eq n asks now
      rw [hsettle]
      exact (hb.accept hfloor hrec).congr rfl rfl rfl rfl fun _ _ _ => Iff.rfl
  | acknowledge => exact hb.congr rfl rfl rfl rfl (by simp)
  | disarm => exact hb.congr rfl rfl rfl rfl fun _ _ _ => Iff.rfl
  | raise n hfloor => exact hb.raise hfloor

/-- **The books are right after every run.** -/
theorem booked_run (version : Version) (ackDelay : Duration) (calls : List ReceiverCall) :
    Booked (run version ackDelay calls) :=
  run_induction (booked_start version ackDelay) Booked.move calls

/-! ### The floor -/

/-- The greatest of the limits to which calls raise the floor, or zero if there are none. -/
structure IsGreatestLimit (calls : List ReceiverCall) (floor : PacketNumber) : Prop where
  raised : floor = .zero ∨ .raiseFloor floor ∈ calls
  limit_le : ∀ limit, .raiseFloor limit ∈ calls → limit ≤ floor

/-- Only a limit above the floor changes it, and the floor is then that limit. -/
theorem floor_step (w : Watched) (call : ReceiverCall) :
    ((∀ limit, call = .raiseFloor limit → limit ≤ w.receiver.floor) ∧
        (w.step call).receiver.floor = w.receiver.floor) ∨
      ∃ limit, call = .raiseFloor limit ∧ w.receiver.floor < limit ∧
        (w.step call).receiver.floor = limit := by
  cases call with
  | receive n asks now =>
      refine .inl ⟨nofun, ?_⟩
      rcases w.receiver.receive_cases n asks now with ⟨e, h⟩ | h | ⟨history, -, -, h⟩
      · simp only [step, h]
      · simp only [step, h, Nat.lt_irrefl, if_false]
      · obtain ⟨queued, alarm, hsettle⟩ :=
          (w.receiver.enter history n asks now).settle_eq n asks now
        simp only [step, h, hsettle]
        split <;> rfl
  | ack now =>
      refine .inl ⟨nofun, ?_⟩
      rcases w.receiver.ack_cases now with ⟨-, h⟩ | ⟨-, -, h⟩ | ⟨lowest, -, -, h⟩ <;>
        simp only [step, h] <;> rfl
  | raiseFloor limit =>
      by_cases hle : limit ≤ w.receiver.floor
      · refine .inl ⟨?_, by simp only [step, Receiver.raiseFloor, if_pos hle]⟩
        rintro limit ⟨⟩
        exact hle
      · refine .inr ⟨limit, rfl, Nat.lt_of_not_le hle, ?_⟩
        simp only [step, Receiver.raiseFloor, if_neg hle]
  | judge deadline arrival =>
      refine .inl ⟨nofun, ?_⟩
      simp only [step, Receiver.judge]
      split
      · rfl
      · split <;> rfl
  | setNotSent count => exact .inl ⟨nofun, rfl⟩
  | setAlpha alpha =>
      refine .inl ⟨nofun, ?_⟩
      simp only [step, Receiver.setAlpha]
      split <;> rfl

theorem IsGreatestLimit.step {calls : List ReceiverCall} {w : Watched}
    (h : IsGreatestLimit calls w.receiver.floor) (call : ReceiverCall) :
    IsGreatestLimit (calls ++ [call]) (w.step call).receiver.floor := by
  rcases floor_step w call with ⟨hlow, hfloor⟩ | ⟨limit, rfl, hlt, hfloor⟩ <;> rw [hfloor]
  · refine ⟨h.raised.imp_right (List.mem_append_left _), fun limit hlimit => ?_⟩
    rcases List.mem_append.mp hlimit with hbefore | hnow
    · exact h.limit_le limit hbefore
    · exact hlow limit (List.mem_singleton.mp hnow).symm
  · refine ⟨.inr (by simp), fun limit' hlimit' => ?_⟩
    rcases List.mem_append.mp hlimit' with hbefore | hnow
    · exact Nat.le_trans (h.limit_le limit' hbefore) (Nat.le_of_lt hlt)
    · obtain ⟨⟩ := List.mem_singleton.mp hnow
      exact Nat.le_refl _

/-- **The floor after a run is the greatest limit it was raised to.** -/
theorem floor_run (version : Version) (ackDelay : Duration) (calls : List ReceiverCall) :
    IsGreatestLimit calls (run version ackDelay calls).receiver.floor := by
  induction calls using List.reverseRecOn with
  | nil => exact ⟨.inl rfl, nofun⟩
  | append_singleton calls call ih =>
      rw [run_append]
      exact ih.step call

/-- A packet is above the floor if it is above every limit. -/
theorem floor_lt_iff (version : Version) (ackDelay : Duration) (calls : List ReceiverCall)
    (n : PacketNumber) : (run version ackDelay calls).receiver.floor < n ↔
      PacketNumber.zero < n ∧ ∀ limit, .raiseFloor limit ∈ calls → limit < n := by
  obtain ⟨hraised, hle⟩ := floor_run version ackDelay calls
  constructor
  · intro hlt
    exact ⟨Nat.lt_of_le_of_lt (Nat.zero_le _) hlt,
      fun limit hlimit => Nat.lt_of_le_of_lt (hle limit hlimit) hlt⟩
  · rintro ⟨hpos, hlimits⟩
    rcases hraised with hzero | hraised
    · rwa [hzero]
    · exact hlimits _ hraised

theorem accepted_pos (version : Version) (ackDelay : Duration) (calls : List ReceiverCall) :
    ∀ n, (run version ackDelay calls).Accepted n → PacketNumber.zero < n := by
  refine run_induction (P := fun w => ∀ n, w.Accepted n → PacketNumber.zero < n) ?_ ?_ calls
  · rintro n ⟨asks, time, hlog⟩
    cases hlog
  · intro w w' hpos hmove n ⟨asks, time, hlog⟩
    cases hmove with
    | aside | disarm | raise => exact hpos n ⟨asks, time, hlog⟩
    | judge | acknowledge => exact hpos n ⟨asks, time, (List.mem_cons.mp hlog).resolve_left nofun⟩
    | accept m asks' now history hfloor =>
        rcases List.mem_cons.mp hlog with hnew | hold
        · obtain ⟨rfl, -, -⟩ := Receipt.accepted.inj hnew
          exact Nat.lt_of_le_of_lt (Nat.zero_le _) hfloor
        · exact hpos n ⟨asks, time, hold⟩

/-- The history after a run holds the accepted packets above every limit. -/
theorem mem_history_run (version : Version) (ackDelay : Duration) (calls : List ReceiverCall)
    (n : PacketNumber) : n ∈ (run version ackDelay calls).receiver.history ↔
      (run version ackDelay calls).Accepted n ∧
        ∀ limit, .raiseFloor limit ∈ calls → limit < n := by
  rw [(booked_run version ackDelay calls).mem_history, floor_lt_iff]
  exact and_congr_right fun haccepted =>
    and_iff_right (accepted_pos version ackDelay calls n haccepted)

end Watched

end Multipath
