import Multipath.Proofs.Connection.Steadiness

/-!
# Runs that end

A run of the send loop goes on as long as there is something to send.  The session has only so
much, and each packet takes some of it; but a packet sent on an unmeasured path may be copied, and
then the copy has to be sent.

* `Ends`: a run ends, well or with an error.
* `exists_ends_of_below`: where copies move, the rounds come to an end.
* `send_ends`: a run ends if and only if there are only so many copies and signs of life, and it
  does so where copies move.
-/

namespace Multipath

namespace Connection

variable {σ : Type} {S : Session σ} {load : σ → Nat}

/-! ### Longer and longer runs -/

/-- The run came to its end, well or with an error. -/
def Ends (r : EStateM.Result Error (Connection σ) SendOutcome) : Prop :=
  ∀ c', r ≠ .ok .outOfRounds c'

theorem ends_error {e : Error} {c : Connection σ} : Ends (.error e c) := by
  intro c' h
  cases h

theorem ends_finished {c : Connection σ} : Ends (.ok .finished c) := by
  intro c' h
  cases h

section Longer

variable {n : Nat} {updates : List WindowUpdate} {c : Connection σ}

theorem sendRounds_of_error {c' : Connection σ} {e : Error}
    (h : sendRound S updates c = .error e c') : sendRounds S (n + 1) updates c = .error e c' := by
  simp only [sendRounds, bind, EStateM.bind, h]

theorem sendRounds_of_ends (h : Ends (sendRounds S n updates c)) (k : Nat) :
    sendRounds S (n + k) updates c = sendRounds S n updates c := by
  induction n generalizing updates c with
  | zero => exact absurd rfl (h c)
  | succ n ih =>
      rw [Nat.succ_add]
      cases hround : sendRound S updates c with
      | error e c' => rw [sendRounds_of_error hround, sendRounds_of_error hround]
      | ok answer c' =>
          cases answer with
          | none => rw [sendRounds_of_stop hround, sendRounds_of_stop hround]
          | some updates' =>
              rw [sendRounds_of_continue hround] at h ⊢
              rw [sendRounds_of_continue hround]
              exact ih h

/-- A longer run does what a shorter one does. -/
theorem lively_le_longer (n k : Nat) (updates : List WindowUpdate) (c : Connection σ) :
    (left (sendRounds S n updates c)).lively ≤ (left (sendRounds S (n + k) updates c)).lively := by
  induction n generalizing updates c with
  | zero => exact (tame_livelier S).keeps_sendRounds livelier_takeAck (0 + k) updates c
  | succ n ih =>
      rw [Nat.succ_add]
      cases hround : sendRound S updates c with
      | error e c' => rw [sendRounds_of_error hround, sendRounds_of_error hround]
      | ok answer c' =>
          cases answer with
          | none => rw [sendRounds_of_stop hround, sendRounds_of_stop hround]
          | some updates' =>
              rw [sendRounds_of_continue hround, sendRounds_of_continue hround]
              exact ih updates' c'

end Longer

/-! ### The end of a run -/

/-- The rounds come to an end if copies and signs of life do. -/
theorem exists_ends_of_lively (hS : Spends S load) {updates : List WindowUpdate}
    {c : Connection σ} {b : Nat} (hb : ∀ n, (left (sendRounds S n updates c)).lively ≤ b) :
    ∃ n, Ends (sendRounds S n updates c) := by
  refine ⟨weight load c + updates.length + b + 1, fun c' hrun => ?_⟩
  have hspent := rounds_spend hS hrun
  have hbound := hb (weight load c + updates.length + b + 1)
  rw [hrun] at hbound
  have hbound : c'.lively ≤ b := hbound
  omega

theorem ends_of_continue {n : Nat} {updates updates' : List WindowUpdate} {c c' : Connection σ}
    (hround : sendRound S updates c = .ok (some updates') c')
    (h : Ends (sendRounds S n updates' c')) : Ends (sendRounds S (n + 1) updates c) := by
  rw [sendRounds_of_continue hround]
  exact h

/-- **Where copies move, the rounds come to an end.**  What is left to send counts for more than
the room below the bound: a round takes from it, or makes a copy and takes from the room. -/
theorem exists_ends_of_below (hS : Spends S load) (hT : Steady S) (m : Nat)
    {updates : List WindowUpdate} {c : Connection σ} {bound : Nat}
    (hdue : ∀ f ∈ c.paths.faces, f.telemetry.retransmittableDue = false)
    (hmove : CopiesMove c.scheduler.config.strategy c.paths.faces)
    (hbelow : Below c.scheduler.quota c.paths.faces bound)
    (hm : (weight load c + updates.length) * (c.paths.faces.length + 1)
      + slack c.scheduler.quota c.paths.faces bound < m) :
    ∃ n, Ends (sendRounds S n updates c) := by
  induction m generalizing updates c bound with
  | zero => exact absurd hm (Nat.not_lt_zero _)
  | succ m ih =>
      cases hround : sendRound S updates c with
      | error e c' =>
          refine ⟨0 + 1, ?_⟩
          rw [sendRounds_of_error hround]
          exact ends_error
      | ok answer c' =>
          cases answer with
          | none =>
              refine ⟨0 + 1, ?_⟩
              rw [sendRounds_of_stop hround]
              exact ends_finished
          | some updates' =>
              obtain ⟨hconfig, hfaces, hmoved⟩ := round_moves hT hS hround hdue hmove
              have hnext : ∀ bound', Below c'.scheduler.quota c.paths.faces bound' →
                  (weight load c' + updates'.length) * (c.paths.faces.length + 1)
                    + slack c'.scheduler.quota c.paths.faces bound' < m →
                  ∃ n, Ends (sendRounds S n updates c) := by
                intro bound' hbelow' hm'
                rw [← hfaces] at hbelow' hm'
                obtain ⟨n, hn⟩ :=
                  ih (hfaces ▸ hdue) (by rwa [hconfig, hfaces]) hbelow' hm'
                exact ⟨n + 1, ends_of_continue hround hn⟩
              have hless : ∀ {w w' : Nat}, w' < w → w' * (c.paths.faces.length + 1)
                  + (c.paths.faces.length + 1) ≤ w * (c.paths.faces.length + 1) := fun hlt => by
                rw [← Nat.succ_mul]
                exact Nat.mul_le_mul_right _ hlt
              cases hmoved with
              | resent hquota hlt =>
                  have := hless hlt
                  exact hnext bound (hquota ▸ hbelow) (by rw [hquota]; omega)
              | @sent id hquota hlt =>
                  have := hless hlt
                  obtain ⟨hbelow', hslack⟩ := below_other hbelow id
                  exact hnext (bound + 1) (hquota ▸ hbelow') (by rw [hquota]; omega)
              | @copied f g hquota hle hf hmeasured hlevels hg htarget hne hquotas =>
                  have := Nat.mul_le_mul_right (c.paths.faces.length + 1) hle
                  have hnodup : (c.paths.faces.map (·.id)).Nodup :=
                    List.pairwise_map.mpr PathSet.pairwise_faces
                  obtain ⟨hbelow', hslack⟩ :=
                    below_copy hnodup hbelow hf hmeasured hlevels hg htarget hne hquotas
                  exact hnext bound (hquota ▸ hbelow') (by rw [hquota]; omega)

/-! ### Two unmeasured paths -/

/-- What the rounds of a run enter into the books. -/
structure Books where
  drained : Tally
  journal : Journal
  sent : SendStatistics
  announced : Option PacketNumber

/-- Two additional paths, both unmeasured, of which the first has carried `k` packets and has
`queue` to send again. -/
def unmeasured (strategy : Strategy) (k : Nat) (queue : List Packet) (session : Script)
    (books : Books) : Connection Script where
  scheduler :=
    { Scheduler.new { strategy } {} ⟨1⟩ ⟨0⟩ none default default with
      quotas := ⟨[(.primary, k)]⟩
      drained := books.drained
      journal := books.journal }
  paths :=
    { toList :=
        [{ Path.new .primary {} default with
            queue, sent := books.sent, announced := books.announced },
          .new ⟨2⟩ {} default]
      ascending := List.pairwise_pair.mpr (show (1 : UInt8) < 2 by decide) }
  session

/-- All the data there is. -/
def onlyPiece : StreamFrame := ⟨⟨3⟩, 0, 500, false⟩

/-- A packet with all the data there is. -/
def onlyPacket (number : PacketNumber) : Packet :=
  ⟨number, [.stopWaiting .one, .stream onlyPiece], 600, .forwardSecure, none⟩

/-- The packet was lost on the first of the two paths, and there is nothing else to send. -/
def lostPacket (strategy : Strategy) : Connection Script :=
  unmeasured strategy 0 [onlyPacket .one] { nextNumber := PacketNumber.one.next, offset := 500 }
    ⟨.empty, #[], {}, none⟩

/-- The packet goes out on the first path again, and a copy of it waits there again. -/
theorem sendRound_unmeasured (k : Nat) (number next : PacketNumber) (books : Books) :
    ∃ books', sendRound Script.tireless [] (unmeasured .firstAvailable k [onlyPacket number]
        { nextNumber := next, offset := 500 } books) =
      .ok (some []) (unmeasured .firstAvailable (k + 1) [onlyPacket next]
        { nextNumber := next.next, offset := 500 } books') := by
  obtain ⟨books₁, hback⟩ : ∃ books₁, takeBack Script.tireless
      (unmeasured .firstAvailable k [onlyPacket number] { nextNumber := next, offset := 500 }
        books) =
      .ok ⟨true, none, some .primary⟩ (unmeasured .firstAvailable k []
        { nextNumber := next, offset := 500, returned := [onlyPiece] } books₁) :=
    ⟨⟨_, _, _, _⟩, rfl⟩
  obtain ⟨books₂, hattach⟩ : ∃ books₂, attachControl Script.tireless .primary true
      (unmeasured .firstAvailable k []
        { nextNumber := next, offset := 500, returned := [onlyPiece] } books₁) =
      .ok () (unmeasured .firstAvailable k []
        { nextNumber := next, offset := 500, returned := [onlyPiece],
          control := [(some .primary, .stopWaiting .one)] } books₂) := ⟨⟨_, _, _, _⟩, rfl⟩
  obtain ⟨books₃, hsend⟩ : ∃ books₃, sendNext Script.tireless [] .primary
      (unmeasured .firstAvailable k []
        { nextNumber := next, offset := 500, returned := [onlyPiece],
          control := [(some .primary, .stopWaiting .one)] } books₂) =
      .ok (some (onlyPacket next)) (unmeasured .firstAvailable (k + 1) []
        { nextNumber := next.next, offset := 500 } books₃) := ⟨⟨_, _, _, _⟩, rfl⟩
  -- the second path has carried nothing, so it is a target for a copy
  obtain ⟨books₄, hhedge⟩ : ∃ books₄, hedge .primary (onlyPacket next)
      (unmeasured .firstAvailable (k + 1) [] { nextNumber := next.next, offset := 500 } books₃) =
      .ok () (unmeasured .firstAvailable (k + 1) [onlyPacket next]
        { nextNumber := next.next, offset := 500 } books₄) := ⟨⟨_, _, _, _⟩, rfl⟩
  exact ⟨books₄, sendRound_of_carry hback rfl rfl hattach hsend hhedge rfl⟩

theorem sendRounds_unmeasured (n k : Nat) (number next : PacketNumber) (books : Books) :
    ∃ c', sendRounds Script.tireless n [] (unmeasured .firstAvailable k [onlyPacket number]
      { nextNumber := next, offset := 500 } books) = .ok .outOfRounds c' := by
  induction n generalizing k number next books with
  | zero => exact ⟨_, rfl⟩
  | succ n ih =>
      obtain ⟨books', hround⟩ := sendRound_unmeasured k number next books
      rw [sendRounds_of_continue hround]
      exact ih (k + 1) next next.next books'

/-- **When a run ends.**  For every session that has only so much to send, every set of paths and
every state of the scheduler, a run ends if and only if the copies it makes and the signs of life
it asks for do.  With fixed telemetry that asks for no sign of life, it ends if the strategy moves
the copies away from unmeasured paths. -/
theorem send_ends (hS : Spends S load) (hT : Steady S) (c : Connection σ) :
    ((∃ n, Ends (send S n c)) ↔ ∃ b, ∀ n, (left (send S n c)).lively ≤ b) ∧
      ((∀ p ∈ c.paths, p.telemetry.retransmittableDue = false) →
        CopiesMove c.scheduler.config.strategy c.paths.faces → ∃ n, Ends (send S n c)) := by
  obtain ⟨updates, c₁, hopening, hsend⟩ := send_eq S c
  simp only [hsend]
  refine ⟨⟨?_, fun ⟨b, hb⟩ => exists_ends_of_lively hS hb⟩, fun hdue hmove => ?_⟩
  · rintro ⟨n₀, hends⟩
    refine ⟨(left (sendRounds S n₀ updates c₁)).lively, fun n => ?_⟩
    rw [← sendRounds_of_ends hends n, Nat.add_comm]
    exact lively_le_longer n n₀ updates c₁
  · have hstill : Still c c₁ := ((calm_still hT).opening still_publish).ok hopening
    obtain ⟨bound, hbelow⟩ := exists_below c₁.scheduler.quota c₁.paths.faces
    refine exists_ends_of_below hS hT _ (fun f hf => ?_) (by rwa [hstill.config, hstill.faces])
      hbelow (Nat.lt_succ_self _)
    obtain ⟨p, hp, rfl⟩ := PathSet.mem_faces.mp (hstill.faces ▸ hf)
    exact hdue p hp

/-- Where the fastest path is taken, the run with the lost packet ends: the copy moves to the other
path. -/
theorem send_ends_lostPacket : ∃ n, Ends (send Script.tireless n (lostPacket .lowestRtt)) := by
  refine (send_ends Script.spends_tireless Script.steady_tireless (lostPacket .lowestRtt)).2 ?_ ?_
  · intro p hp
    rcases List.mem_pair.mp hp with rfl | rfl <;> rfl
  · refine .inr (.inl fun f hf _ => ?_)
    rcases List.mem_pair.mp hf with rfl | rfl <;> rfl

/-- **A run without end.**  The session has only so much to send, and the telemetry is fixed and
asks for no sign of life.  The first additional path is taken every time, so the copies that are
meant for the other path never leave it. -/
theorem send_endless_lostPacket :
    Spends Script.tireless Script.load ∧ Steady Script.tireless ∧
      (∀ p ∈ (lostPacket .firstAvailable).paths, p.telemetry.retransmittableDue = false) ∧
      ∀ n, ∃ c', send Script.tireless n (lostPacket .firstAvailable) = .ok .outOfRounds c' := by
  refine ⟨Script.spends_tireless, Script.steady_tireless, fun p hp => ?_, fun n => ?_⟩
  · rcases List.mem_pair.mp hp with rfl | rfl <;> rfl
  · obtain ⟨updates, c₁, hopening, hsend⟩ := send_eq Script.tireless (lostPacket .firstAvailable)
    obtain ⟨books, hopened⟩ : ∃ books, opening Script.tireless (lostPacket .firstAvailable) =
        .ok [] (unmeasured .firstAvailable 0 [onlyPacket .one]
          { nextNumber := PacketNumber.one.next, offset := 500 } books) := ⟨⟨_, _, _, _⟩, rfl⟩
    rw [hopened] at hopening
    obtain ⟨rfl, rfl⟩ := EStateM.Result.ok.inj hopening
    rw [hsend]
    exact sendRounds_unmeasured n 0 .one PacketNumber.one.next books

end Connection

end Multipath
