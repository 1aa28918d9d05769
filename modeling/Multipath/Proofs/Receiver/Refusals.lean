import Multipath.Proofs.Receiver.InPlace

/-!
# Refused packets

A packet is refused if its number is zero, or if it would open one block more than a path keeps.  A
packet that the floor has passed, and a duplicate, are let through without effect.  Whatever else
arrives is recorded and counted.

Which of these it is depends on the number, the floor and the history alone.  The history decides
as it does in `History.record_cases`, because every call on a receiver keeps the form of its blocks
and their limit.

* `kept_history`: the blocks of a receiver after every run.
* `Receiver.receive_outcomes`: the four outcomes of a packet.
* `receive_run`: when a packet is refused, and that a packet which is not recorded leaves no trace,
  although the receiver is changed in place.
-/

namespace Multipath

open History (Kept Touches maxRanges)

/-! ### The history of a receiver -/

namespace Watched

variable {w w' : Watched}

/-- The blocks are separated and within the limit, which is that of every path. -/
theorem Move.kept_history (hmove : Move w w')
    (hk : Kept w.receiver.history ∧ w.receiver.history.limit = maxRanges) :
    Kept w'.receiver.history ∧ w'.receiver.history.limit = maxRanges := by
  cases hmove with
  | aside => exact hk
  | judge => exact hk
  | acknowledge => exact hk
  | disarm => exact hk
  | raise n => exact ⟨History.kept_forgetUpTo hk.1 n, hk.2⟩
  | accept n asks now history hfloor hrec =>
      obtain ⟨queued, alarm, hsettle⟩ :=
        (w.receiver.enter history n asks now).settle_eq n asks now
      rw [hsettle]
      show Kept history ∧ history.limit = maxRanges
      rcases History.record_cases hk.1 n with ⟨-, hknown⟩ | ⟨-, -, h, hnew, hkept, hlimit, -⟩ |
        ⟨-, -, -, hrefused⟩
      · simp [hknown] at hrec
      · obtain rfl : h = history := by simpa [hnew] using hrec
        exact ⟨hkept, hlimit.trans hk.2⟩
      · simp [hrefused] at hrec

/-- After every run the blocks are separated and at most a thousand. -/
theorem kept_history (version : Version) (ackDelay : Duration) (calls : List ReceiverCall) :
    Kept (run version ackDelay calls).receiver.history ∧
      (run version ackDelay calls).receiver.history.limit = maxRanges :=
  run_induction (P := fun w => Kept w.receiver.history ∧ w.receiver.history.limit = maxRanges)
    ⟨History.kept_empty maxRanges, rfl⟩ (fun hk hmove => Move.kept_history hmove hk) calls

end Watched

/-! ### The outcomes of a packet -/

/-- **The outcomes of a packet.**  It has no number, or it is not of interest, or it is recorded, or
there is no block left for it. -/
theorem Receiver.receive_outcomes {r : Receiver} (hk : Kept r.history) (n : PacketNumber)
    (asks : Bool) (now : Instant) :
    (n = .zero ∧ r.receive n asks now = .error (.invalidPacketNumber n)) ∨
    (n ≠ .zero ∧ (n ≤ r.floor ∨ n ∈ r.history) ∧ r.receive n asks now = .ok r) ∨
    (n ≠ .zero ∧ ¬ (n ≤ r.floor ∨ n ∈ r.history) ∧
      (Touches (· ∈ r.history) n ∨ r.history.size < r.history.limit) ∧
      ∃ history, history.members = insert n r.history.members ∧
        r.receive n asks now = .ok ((r.enter history n asks now).settle n asks now)) ∨
    (n ≠ .zero ∧ ¬ (n ≤ r.floor ∨ n ∈ r.history) ∧ ¬ Touches (· ∈ r.history) n ∧
      r.history.limit ≤ r.history.size ∧
      r.receive n asks now = .error (.tooManyRanges r.history.limit)) := by
  by_cases hzero : n = .zero
  · exact .inl ⟨hzero, by rw [receive, if_pos hzero]⟩
  by_cases hfloor : n ≤ r.floor
  · exact .inr (.inl ⟨hzero, .inl hfloor, by rw [receive, if_neg hzero, if_pos hfloor]⟩)
  rcases History.record_cases hk n with ⟨hn, hrec⟩ | ⟨hn, hroom, history, hrec, -, -, hmem⟩ |
    ⟨hn, ht, hfull, hrec⟩
  · refine .inr (.inl ⟨hzero, .inr hn, ?_⟩)
    simp only [receive, if_neg hzero, if_neg hfloor, hrec]
  · refine .inr (.inr (.inl ⟨hzero, not_or.mpr ⟨hfloor, hn⟩, hroom, history, hmem, ?_⟩))
    simp only [receive, if_neg hzero, if_neg hfloor, hrec]
  · refine .inr (.inr (.inr ⟨hzero, not_or.mpr ⟨hfloor, hn⟩, ht, hfull, ?_⟩))
    simp only [receive, if_neg hzero, if_neg hfloor, hrec]

namespace Watched

/-- **Refused packets leave no trace.**  After every run, a packet fails as invalid just if its
number is zero.  Otherwise it fails for want of a block just if it is above the floor, not
recorded, next to nothing that is recorded, and a thousand blocks are there.  It does not fail
otherwise.  A packet that fails, one at or below the floor, and a duplicate leave the receiver as it
is, field by field.  Every other packet is recorded and counted. -/
theorem receive_run (version : Version) (ackDelay : Duration) (calls : List ReceiverCall)
    (n : PacketNumber) (asks : Bool) (now : Instant) :
    let r := (run version ackDelay calls).receiver
    let outcome := Receiver.receiveInPlace n asks now r
    ((∃ r', outcome = .error (.invalidPacketNumber n) r') ↔ n = .zero) ∧
      ((∃ r', outcome = .error (.tooManyRanges 1000) r') ↔
        n ≠ .zero ∧ r.floor < n ∧ n ∉ r.history ∧ ¬ Touches (· ∈ r.history) n ∧
          r.history.size = 1000) ∧
      (∀ e r', outcome = .error e r' →
        r' = r ∧ (e = .invalidPacketNumber n ∨ e = .tooManyRanges 1000)) ∧
      (n ≠ .zero → n ≤ r.floor ∨ n ∈ r.history → outcome = .ok () r) ∧
      (n ≠ .zero → r.floor < n → n ∉ r.history →
        Touches (· ∈ r.history) n ∨ r.history.size ≠ 1000 →
        ∃ r', outcome = .ok () r' ∧ r.receive n asks now = .ok r' ∧
          r'.history.members = insert n r.history.members ∧
          r'.statistics = { r.statistics with packets := r.statistics.packets + 1 }) := by
  intro r outcome
  obtain ⟨hk, hlimit⟩ : Kept r.history ∧ r.history.limit = 1000 :=
    kept_history version ackDelay calls
  have hbound : r.history.size ≤ 1000 := hlimit ▸ hk.bounded
  have hinside : ¬ (n ≤ r.floor ∨ n ∈ r.history) ↔ r.floor < n ∧ n ∉ r.history :=
    not_or.trans (and_congr_left' Nat.not_le)
  have houtcome : outcome = undone r ((r.receive n asks now).map ((), ·)) :=
    Receiver.receiveInPlace_eq hk n asks now
  rcases Receiver.receive_outcomes hk n asks now with ⟨hzero, h⟩ | ⟨hzero, hpast, h⟩ |
    ⟨hzero, hin, hroom, history, hmem, h⟩ | ⟨hzero, hin, ht, hfull, h⟩
  all_goals simp only [h, Except.map, undone] at houtcome
  · simp [houtcome, hzero]
  · refine ⟨by simp [houtcome, hzero], ?_, by simp [houtcome], fun _ _ => houtcome, ?_⟩
    · simp only [houtcome, reduceCtorEq, exists_false, false_iff]
      rintro ⟨-, hfloor, hn, -⟩
      exact hinside.mpr ⟨hfloor, hn⟩ hpast
    · exact fun _ hfloor hn => absurd hpast (hinside.mpr ⟨hfloor, hn⟩)
  · obtain ⟨queued, alarm, hsettle⟩ := (r.enter history n asks now).settle_eq n asks now
    refine ⟨by simp [houtcome, hzero], ?_, by simp [houtcome], fun _ hpast => absurd hpast hin,
      fun _ _ _ _ => ⟨_, houtcome, h, ?_, ?_⟩⟩
    · simp only [houtcome, reduceCtorEq, exists_false, false_iff]
      rintro ⟨-, -, -, ht, hfull⟩
      rw [hlimit, hfull] at hroom
      exact hroom.elim ht (Nat.lt_irrefl _)
    · rw [hsettle]
      exact hmem
    · rw [hsettle]
      rfl
  · have hsize : r.history.size = 1000 := Nat.le_antisymm hbound (hlimit ▸ hfull)
    rw [hlimit] at houtcome
    refine ⟨by simp [houtcome, hzero], ?_, ?_, fun _ hpast => absurd hpast hin, ?_⟩
    · simp [houtcome, hzero, hinside.mp hin, ht, hsize]
    · rintro e r' he
      obtain ⟨rfl, rfl⟩ := EStateM.Result.error.inj (houtcome.symm.trans he)
      exact ⟨rfl, .inr rfl⟩
    · exact fun _ _ _ hroom => absurd hroom (by simp [ht, hsize])

end Watched

end Multipath
