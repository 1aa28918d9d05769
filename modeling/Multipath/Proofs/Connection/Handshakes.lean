import Multipath.Proofs.Connection.Answers
import Multipath.Proofs.Connection.Rounds
import Multipath.Proofs.Scheduler.Choices
import Multipath.Proofs.Session.Unfinished

/-!
# Lost handshake packets on their way

A handshake packet that was lost waits in the queue of its path.  A round of the send loop takes
it from there before it looks for a path, builds it again and sends it.  While the handshake goes
on, each packet taken is followed up in this way, with one exception: where no path is found, the
loop ends, and the packet just taken is gone.

* `Conserves`: what is taken from a queue was there before or was copied into it, in order.
* `round_accounts`: the handshake packets that a round takes, and those that it sends again.
* `handshakes_resent`: the same for a run, and exactly which packet is lost.
-/

namespace Multipath

variable {σ : Type} {S : Session σ} {I : σ → Prop}

/-! ### Packets in a journal -/

/-- The packets taken from the queue of a path, first to last. -/
def takenFrom (id : PathId) (evs : List Event) : List Packet :=
  evs.filterMap fun
    | .drained path packet => if path = id then some packet else none
    | _ => none

/-- The packets of which a copy was put into the queue of a path, first to last. -/
def copiedTo (id : PathId) (evs : List Event) : List Packet :=
  evs.filterMap fun
    | .hedged path packet => if path = id then some packet else none
    | _ => none

/-- The handshake packets taken from the queues, first to last. -/
def handshakesTaken (evs : List Event) : List Packet :=
  evs.filterMap fun
    | .drained _ packet => if packet.isHandshake then some packet else none
    | _ => none

/-- The lost packets that were built again, first to last. -/
def rebuilt (evs : List Event) : List Packet :=
  evs.filterMap fun
    | .packedHandshake _ lost _ => some lost
    | _ => none

/-- The event takes a packet from a queue or puts a copy into one. -/
def Event.isTransfer : Event → Bool
  | .drained .. => true
  | .hedged .. => true
  | _ => false

theorem Event.not_isTransfer {e : Event} (h : e.isOrdinary = true) : e.isTransfer = false := by
  cases e <;> first | rfl | cases h

theorem takenFrom_eq_nil {id : PathId} {evs : List Event} (h : ∀ e ∈ evs, e.isTransfer = false) :
    takenFrom id evs = [] := by
  refine List.filterMap_eq_nil_iff.mpr fun e he => ?_
  cases e <;> first | rfl | cases h _ he

theorem copiedTo_eq_nil {id : PathId} {evs : List Event} (h : ∀ e ∈ evs, e.isTransfer = false) :
    copiedTo id evs = [] := by
  refine List.filterMap_eq_nil_iff.mpr fun e he => ?_
  cases e <;> first | rfl | cases h _ he

/-- The event takes a packet from a queue or builds a handshake packet again. -/
def Event.isHandshaking : Event → Bool
  | .drained .. => true
  | .packedHandshake .. => true
  | _ => false

theorem Event.not_isHandshaking {e : Event} (h : e.isOrdinary = true) :
    e.isHandshaking = false := by
  cases e <;> first | rfl | cases h

theorem handshakesTaken_eq_nil {evs : List Event} (h : ∀ e ∈ evs, e.isHandshaking = false) :
    handshakesTaken evs = [] := by
  refine List.filterMap_eq_nil_iff.mpr fun e he => ?_
  cases e <;> first | rfl | cases h _ he

theorem rebuilt_eq_nil {evs : List Event} (h : ∀ e ∈ evs, e.isHandshaking = false) :
    rebuilt evs = [] := by
  refine List.filterMap_eq_nil_iff.mpr fun e he => ?_
  cases e <;> first | rfl | cases h _ he

/-- What is built out of a lost packet is sent at once, on the same path. -/
def SentAsBuilt (evs : List Event) : Prop :=
  ∀ id lost packet post, .packedHandshake id lost packet :: post <:+ evs →
    ∃ rest, post = .sent id packet :: rest

theorem SentAsBuilt.append {evs evs' : List Event} (h : SentAsBuilt evs) (h' : SentAsBuilt evs') :
    SentAsBuilt (evs ++ evs') := by
  intro id lost packet post hsuffix
  rcases cons_suffix_append hsuffix with hright | ⟨post', rfl, hleft⟩
  · exact h' id lost packet post hright
  · obtain ⟨rest, rfl⟩ := h id lost packet post' hleft
    exact ⟨rest ++ evs', rfl⟩

theorem sentAsBuilt_of_rebuilt_nil {evs : List Event} (h : rebuilt evs = []) :
    SentAsBuilt evs := by
  intro id lost packet post hsuffix
  have hnone := List.filterMap_eq_nil_iff.mp h _ (hsuffix.subset List.mem_cons_self)
  cases hnone

theorem sentAsBuilt_pair {id : PathId} {lost packet : Packet} :
    SentAsBuilt [.packedHandshake id lost packet, .sent id packet] := by
  intro id' lost' packet' post hsuffix
  rcases List.suffix_cons_iff.mp hsuffix with heq | hsuffix
  · cases heq
    exact ⟨[], rfl⟩
  · rcases List.suffix_cons_iff.mp hsuffix with heq | hsuffix
    · cases heq
    · cases List.suffix_nil.mp hsuffix

namespace Connection

/-! ### The handshake goes on -/

/-- The handshake does not complete in between. -/
abbrev GoesOn (I : σ → Prop) (c c' : Connection σ) : Prop := I c.session → I c'.session

theorem accrues_goesOn : Accrues (GoesOn (σ := σ) I) where
  refl _ h := h
  trans h h' hI := h' (h hI)

theorem goesOn_callOn {α : Type} {call : PacketCall} {id : PathId}
    {operation : σ → Path → Reply σ α} {event : α → Event}
    (h : ∀ {s path}, I s → I (operation s path).session) :
    Keeps (GoesOn I) (callOn call id operation event) := by
  intro c hI
  rw [callOn_eq]
  dsimp only
  split <;> exact h hI

theorem tame_goesOn (hS : Unfinished S I) : Tame S (GoesOn I) where
  toAccrues := accrues_goesOn
  queue _ _ _ := hS.queueControl
  returnStream _ _ := hS.returnStream
  schedulePaths _ := hS.schedulePaths
  askUpdates _ _ := hS.windowUpdates
  takePathControl _ := hS.takePathControl
  unblock _ := hS.clearPeerBlocked
  pack _ := goesOn_callOn hS.pack
  packHandshake _ _ := goesOn_callOn hS.packHandshake
  packAck _ := goesOn_callOn hS.packAck
  transmit _ _ := keeps_bind accrues_goesOn (goesOn_callOn hS.send) fun _ =>
    keeps_modify fun _ h => h
  ping _ := goesOn_callOn hS.ping
  announce _ _ _ h := h
  drain _ _ _ _ _ h := h
  choose demand c hI := by
    rw [choose_eq]
    dsimp only
    split
    · exact hI
    · split
      · exact hS.close hI
      · exact hI
  bump _ _ h := h
  finishStream := by
    refine keeps_get_bind fun c hI => ?_
    dsimp only
    split
    · split <;> exact hI
    · exact hI
  endEpisode _ := keeps_modify fun c hI => by split <;> exact hI
  hedge _ _ := by
    refine keeps_get_bind fun c hI => ?_
    split <;> exact hI
  publish _ h := h

theorem goesOn_takeAck (id : PathId) (now : Instant) :
    Keeps (GoesOn (σ := σ) I) (takeAck id now) := by
  intro c hI
  rw [takeAck_eq]
  dsimp only
  split <;> exact hI

/-! ### What is taken was there -/

/-- What was taken from a queue, and then what is left in it, is what was there, and then what was
copied into it. -/
def Conserves (c c' : Connection σ) : Prop :=
  c'.paths.ids = c.paths.ids ∧ ∃ evs, c'.events = c.events ++ evs ∧
    ∀ id ∈ c.paths.ids,
      takenFrom id evs ++ (c'.path id).queue = (c.path id).queue ++ copiedTo id evs

theorem accrues_conserves : Accrues (Conserves (σ := σ)) where
  refl c := ⟨rfl, [], (List.append_nil _).symm, fun id _ => (List.append_nil _).symm⟩
  trans := by
    rintro c c₁ c₂ ⟨hids₁, evs₁, hevents₁, hqueue₁⟩ ⟨hids₂, evs₂, hevents₂, hqueue₂⟩
    refine ⟨hids₂.trans hids₁, evs₁ ++ evs₂, by rw [hevents₂, hevents₁, List.append_assoc],
      fun id hid => ?_⟩
    have htaken : takenFrom id (evs₁ ++ evs₂) = takenFrom id evs₁ ++ takenFrom id evs₂ :=
      List.filterMap_append
    have hcopied : copiedTo id (evs₁ ++ evs₂) = copiedTo id evs₁ ++ copiedTo id evs₂ :=
      List.filterMap_append
    calc takenFrom id (evs₁ ++ evs₂) ++ (c₂.path id).queue
        = takenFrom id evs₁ ++ (takenFrom id evs₂ ++ (c₂.path id).queue) := by
          rw [htaken, List.append_assoc]
      _ = takenFrom id evs₁ ++ (c₁.path id).queue ++ copiedTo id evs₂ := by
          rw [hqueue₂ id (hids₁ ▸ hid), List.append_assoc]
      _ = (c.path id).queue ++ copiedTo id (evs₁ ++ evs₂) := by
          rw [hqueue₁ id hid, hcopied, List.append_assoc]

/-- Where no packet is taken and none copied, the queues have to be as they were. -/
theorem conserves_of_same {c c' : Connection σ} (hqueues : SameQueues c c')
    (hgrows : Grows (·.isTransfer = false) c c') : Conserves c c' := by
  obtain ⟨evs, hevents, hall⟩ := hgrows
  have hids : c'.paths.ids = c.paths.ids := by
    rw [PathSet.ids_eq_map_queues, hqueues, PathSet.ids_eq_map_queues]
  refine ⟨hids, evs, hevents, fun id hid => ?_⟩
  rw [takenFrom_eq_nil hall, copiedTo_eq_nil hall, List.nil_append, List.append_nil]
  exact (PathSet.queue_get_of_mem hqueues.symm hid).symm

theorem conserves_drain {c : Connection σ} {id : PathId} {packet : Packet} {paths : PathSet}
    (h : c.paths.dequeue? = some (id, packet, paths)) :
    Conserves c (c.drained id packet paths) := by
  obtain ⟨hqueue, hothers⟩ := PathSet.queue_of_dequeue? h
  refine ⟨PathSet.ids_of_dequeue? h, [.drained id packet], events_drained c id packet paths,
    fun j _ => ?_⟩
  by_cases hj : j = id
  · subst hj
    simpa [takenFrom, copiedTo, path] using hqueue.symm
  · simpa [takenFrom, copiedTo, path, Ne.symm hj] using hothers hj

theorem conserves_hedge (id : PathId) (packet : Packet) :
    Keeps Conserves (hedge id packet : Act σ Unit) := by
  intro c
  rw [hedge_eq]
  dsimp only [left]
  split
  · have hids : (c.paths.update id (·.queueCopy packet)).ids = c.paths.ids := PathSet.ids_update
    refine ⟨hids, [.hedged id packet], events_note c _ _ _, fun j hj => ?_⟩
    by_cases hid : j = id
    · subst hid
      have hcopy := PathSet.get_update_of_mem (f := (·.queueCopy packet)) (k := fun _ => rfl) hj
      simpa [takenFrom, copiedTo, path, Path.queueCopy] using congrArg Path.queue hcopy
    · have hsame := PathSet.get_update_ne (s := c.paths) (f := (·.queueCopy packet))
        (k := fun _ => rfl) hid
      simpa [takenFrom, copiedTo, path, Ne.symm hid] using congrArg Path.queue hsame
  · exact accrues_conserves.refl c

theorem conserves_packHandshake (id : PathId) (lost : Packet) :
    Keeps Conserves (packHandshake S id lost) := by
  have hqueues : Keeps SameQueues (packHandshake S id lost) := sameQueues_callOn
  have hgrows : Keeps (Grows (·.isTransfer = false)) (packHandshake S id lost) :=
    grows_callOn (fun _ => rfl) fun _ => rfl
  exact fun c => conserves_of_same (hqueues c) (hgrows c)

theorem conserves_endEpisode (e : Error) :
    Keeps Conserves (endEpisodeOnOverflow e : Act σ Unit) := by
  have hqueues : Keeps SameQueues (endEpisodeOnOverflow e : Act σ Unit) :=
    keeps_modify fun c => by split <;> rfl
  have hgrows : Keeps (Grows (·.isTransfer = false)) (endEpisodeOnOverflow e : Act σ Unit) :=
    grows_endEpisode (fun _ => rfl) e
  exact fun c => conserves_of_same (hqueues c) (hgrows c)

theorem tame_conserves (S : Session σ) : Tame S Conserves where
  toCalm := ((calm_sameQueues S).and (calm_ordinary S)).mono accrues_conserves
    fun ⟨hqueues, hgrows⟩ => conserves_of_same hqueues (hgrows.mono fun _ => Event.not_isTransfer)
  packHandshake := conserves_packHandshake
  drain _ _ _ _ := conserves_drain
  bump _ _ := conserves_of_same rfl (.of_eq rfl)
  endEpisode := conserves_endEpisode
  hedge := conserves_hedge
  publish c := conserves_of_same (sameQueues_publish c) (.of_eq rfl)

theorem conserves_takeAck (id : PathId) (now : Instant) :
    Keeps (Conserves (σ := σ)) (takeAck id now) := fun c =>
  conserves_of_same (sameQueues_takeAck id now c) (grows_takeAck (fun _ _ => rfl) id now c)

/-! ### Handshake packets taken and sent again -/

/-- Between two connections the handshake packets `taken` were taken from their queues, those of
`again` were built again, and what was built was sent. -/
def Accounts (taken again : List Packet) (c c' : Connection σ) : Prop :=
  ∃ evs, c'.events = c.events ++ evs ∧ SentAsBuilt evs ∧ handshakesTaken evs = taken ∧
    rebuilt evs = again

theorem Accounts.trans {c c₁ c₂ : Connection σ} {taken again taken' again' : List Packet}
    (h : Accounts taken again c c₁) (h' : Accounts taken' again' c₁ c₂) :
    Accounts (taken ++ taken') (again ++ again') c c₂ := by
  obtain ⟨evs, hevents, hsent, rfl, rfl⟩ := h
  obtain ⟨evs', hevents', hsent', rfl, rfl⟩ := h'
  exact ⟨evs ++ evs', by rw [hevents', hevents, List.append_assoc], hsent.append hsent',
    List.filterMap_append, List.filterMap_append⟩

/-- Events that concern no handshake packet change no account. -/
theorem Grows.accounts {c c' : Connection σ} (h : Grows (·.isHandshaking = false) c c') :
    Accounts [] [] c c' := by
  obtain ⟨evs, hevents, hall⟩ := h
  refine ⟨evs, hevents, sentAsBuilt_of_rebuilt_nil (rebuilt_eq_nil hall),
    handshakesTaken_eq_nil hall, rebuilt_eq_nil hall⟩

/-- The calm steps concern no handshake packet. -/
theorem calm_apart (S : Session σ) : Calm S (Grows (·.isHandshaking = false)) :=
  (calm_ordinary S).mono accrues_grows fun h => h.mono fun _ => Event.not_isHandshaking

theorem apart_takeAck (id : PathId) (now : Instant) :
    Keeps (Grows (·.isHandshaking = false)) (takeAck id now : Act σ _) :=
  grows_takeAck (fun _ _ => rfl) id now

/-- Taking back takes one handshake packet at most, the one it finds. -/
theorem accounts_takesBack (hS : Unfinished S I) {found recovery : Recovery}
    {c c' : Connection σ} (h : TakesBack S found c recovery c') (hI : I c.session)
    (hfound : found.handshake = none) :
    Accounts recovery.handshake.toList [] c c' := by
  induction h with
  | stop =>
      rw [hfound]
      exact Grows.accounts (.of_eq rfl)
  | drop _ _ hcomplete => exact absurd (hS.incomplete hI) (by simp [hcomplete])
  | @handshake found c id packet paths _ hlevel =>
      exact ⟨[.drained id packet], events_drained c id packet paths,
        sentAsBuilt_of_rebuilt_nil rfl, by simp [handshakesTaken, hlevel], rfl⟩
  | @apart found c id packet paths c₁ recovery c' _ hlevel hframes _ ih =>
      have hdrained : Accounts [] [] c (c.drained id packet paths) :=
        ⟨[.drained id packet], events_drained c id packet paths, sentAsBuilt_of_rebuilt_nil rfl,
          by simp [handshakesTaken, hlevel], rfl⟩
      have hsplit : Accounts [] [] (c.drained id packet paths) c₁ :=
        ((keeps_forM accrues_grows fun frame _ =>
          (calm_apart S).redistribute id frame).ok hframes).accounts
      have hgoesOn : I c₁.session := (keeps_forM accrues_goesOn fun frame _ =>
        (tame_goesOn hS).redistribute id frame).ok hframes hI
      exact (hdrained.trans hsplit).trans (ih hgoesOn hfound)

/-- A handshake packet that is built again is sent at once. -/
theorem accounts_resend {id : PathId} {lost : Packet} {c c' : Connection σ}
    (h : resendHandshake S id lost c = .ok () c') : Accounts [] [lost] c c' := by
  obtain ⟨packet, c₁, c₂, hstop, hpack, hsend⟩ := resendHandshake_ok h
  obtain ⟨⟨⟩, c₃, hsend, hrecord⟩ := bind_ok hsend
  have hpacked : c₂.events = c₁.events ++ [.packedHandshake id lost packet] :=
    (callOn_ok hpack).2.2.1
  have hsent : c₃.events = c₂.events ++ [.sent id packet] := (callOn_ok hsend).2.2.1
  have hrecorded : c'.events = c₃.events := by cases hrecord; rfl
  have hboth : Accounts [] [lost] c₁ c' :=
    ⟨[.packedHandshake id lost packet, .sent id packet], by simp [hrecorded, hsent, hpacked],
      sentAsBuilt_pair, rfl, rfl⟩
  exact (((calm_apart S).queueStopWaiting id true).ok hstop).accounts.trans hboth

/-- The next round takes the handshake packet `lost` back and finds no path for it. -/
def Strands (S : Session σ) (c : Connection σ) (lost : Packet) : Prop :=
  ∃ recovery c₁, takeBack S c = .ok recovery c₁ ∧ recovery.handshake = some lost ∧
    c₁.scheduler.FindsNone c₁.paths (c₁.demand S recovery)

theorem strands_iff {recovery : Recovery} {chosen : Option PathId} {c c₁ c₂ : Connection σ}
    {lost : Packet} (hback : takeBack S c = .ok recovery c₁)
    (hchoose : choose S (c₁.demand S recovery) c₁ = .ok chosen c₂) :
    Strands S c lost ↔ recovery.handshake = some lost ∧ chosen = none := by
  have hany : recovery.handshake = some lost → (c₁.demand S recovery).retransmission = true :=
    (takeBack_ok hback).any_of_handshake rfl
  have hselect := (choose_ok hchoose).1
  constructor
  · rintro ⟨recovery', c₁', hback', hlost, hnone⟩
    obtain ⟨rfl, rfl⟩ : recovery = recovery' ∧ c₁ = c₁' := by
      rw [hback] at hback'
      cases hback'
      exact ⟨rfl, rfl⟩
    have hshut : (c₁.scheduler.select c₁.paths (c₁.demand S recovery) (S.now c₁.session)).1 =
        .ok none := (Scheduler.select_eq_none_iff (hany hlost)).mpr hnone
    exact ⟨hlost, Except.ok.inj (hselect.symm.trans hshut)⟩
  · rintro ⟨hlost, rfl⟩
    exact ⟨recovery, c₁, hback, hlost, (Scheduler.select_eq_none_iff (hany hlost)).mp hselect⟩

/-- **A round sends the handshake packet that it takes, unless it finds no path for it.**  Then
the packet is lost, and the round is the last one. -/
theorem round_accounts (hS : Unfinished S I) {updates : List WindowUpdate}
    {answer : Option (List WindowUpdate)} {c c' : Connection σ} (hI : I c.session)
    (h : sendRound S updates c = .ok answer c') :
    ∃ again : List Packet, ∃ lost : Option Packet,
      Accounts (again ++ lost.toList) again c c' ∧
      (∀ packet, lost = some packet ↔ Strands S c packet) ∧
      (lost ≠ none → answer = none) := by
  obtain ⟨recovery, c₁, chosen, c₂, hback, hchoose, hproceeds⟩ := round_ok h
  have htaken : Accounts recovery.handshake.toList [] c c₂ := by
    have := (accounts_takesBack hS (takeBack_ok hback) hI rfl).trans
      (((calm_apart S).choose _).ok hchoose).accounts
    rwa [List.append_nil] at this
  have hnone : ∀ {rest c'}, Accounts [] [] c₂ c' → recovery.handshake = rest →
      Accounts rest.toList [] c c' := by
    rintro rest c' hrest rfl
    have := htaken.trans hrest
    rwa [List.append_nil] at this
  cases hproceeds with
  | idle hask hflush =>
      have hrest := (((calm_apart S).askUpdates false).ok hask).accounts.trans
        (((calm_apart S).flush apart_takeAck _).ok hflush).accounts
      exact ⟨[], recovery.handshake, hnone hrest rfl,
        fun packet => by simp [strands_iff hback hchoose], fun _ => rfl⟩
  | @resend id lost c' hlost hresend =>
      have hall := htaken.trans (accounts_resend hresend)
      rw [hlost] at hall
      exact ⟨[lost], none, hall, fun packet => by simp [strands_iff hback hchoose],
        fun hne => absurd rfl hne⟩
  | decline hlost hattach hsend hflush =>
      have hrest := ((((calm_apart S).attachControl apart_takeAck _ _).ok hattach).accounts.trans
        (((calm_apart S).sendNext (fun _ _ => .of_eq rfl) _ _).ok hsend).accounts).trans
        (((calm_apart S).flush apart_takeAck _).ok hflush).accounts
      exact ⟨[], none, hnone hrest hlost, fun packet => by simp [strands_iff hback hchoose, hlost],
        fun hne => absurd rfl hne⟩
  | carry hlost hattach hsend hhedge hprobe =>
      have hrest := ((((calm_apart S).attachControl apart_takeAck _ _).ok hattach).accounts.trans
        (((calm_apart S).sendNext (fun _ _ => .of_eq rfl) _ _).ok hsend).accounts).trans
        (((grows_hedge (P := (·.isHandshaking = false)) rfl).ok hhedge).accounts.trans
          (((calm_apart S).probe _).ok hprobe).accounts)
      exact ⟨[], none, hnone hrest hlost, fun packet => by simp [strands_iff hback hchoose],
        fun hne => absurd rfl hne⟩

/-- The rounds of a run that ends. -/
theorem rounds_account (hS : Unfinished S I) {n : Nat} {updates : List WindowUpdate}
    {c c' : Connection σ} (hI : I c.session)
    (h : sendRounds S n updates c = .ok .finished c') :
    ∃ again : List Packet, ∃ lost : Option Packet,
      Accounts (again ++ lost.toList) again c c' ∧
      ∀ packet, lost = some packet ↔
        ∃ k < n, ∃ m, sendRounds S k updates c = .ok .outOfRounds m ∧ Strands S m packet := by
  induction n generalizing updates c with
  | zero => cases h
  | succ n ih =>
      obtain ⟨answer, c₁, hround, hrest⟩ := bind_ok h
      obtain ⟨again, lost, haccounts, hlost, hlast⟩ := round_accounts hS hI hround
      cases answer with
      | none =>
          -- the run ends with its first round
          obtain ⟨-, rfl⟩ := pure_ok hrest
          refine ⟨again, lost, haccounts, fun packet => (hlost packet).trans ⟨fun hstrands =>
            ⟨0, Nat.succ_pos n, c, rfl, hstrands⟩, ?_⟩⟩
          rintro ⟨k, -, m, hrun, hstrands⟩
          cases k with
          | zero =>
              cases hrun
              exact hstrands
          | succ k =>
              rw [sendRounds_of_stop hround] at hrun
              cases hrun
      | some updates' =>
          have hgoesOn : I c₁.session :=
            ((tame_goesOn hS).keeps_sendRound goesOn_takeAck updates).ok hround hI
          obtain ⟨again', lost', haccounts', hlost'⟩ := ih hgoesOn hrest
          obtain rfl : lost = none := by
            cases lost with
            | none => rfl
            | some _ => cases hlast nofun
          rw [Option.toList_none, List.append_nil] at haccounts
          refine ⟨again ++ again', lost', List.append_assoc again again' _ ▸
            haccounts.trans haccounts', fun packet => (hlost' packet).trans ⟨?_, ?_⟩⟩
          · rintro ⟨k, hk, m, hrun, hstrands⟩
            exact ⟨k + 1, Nat.succ_lt_succ hk, m, (sendRounds_of_continue hround).trans hrun,
              hstrands⟩
          · rintro ⟨k, hk, m, hrun, hstrands⟩
            cases k with
            | zero =>
                cases hrun
                exact absurd ((hlost packet).mpr hstrands) nofun
            | succ k =>
                rw [sendRounds_of_continue hround] at hrun
                exact ⟨k, Nat.lt_of_succ_lt_succ hk, m, hrun, hstrands⟩

/-! ### A handshake packet between two paths -/

/-- A lost handshake packet. -/
def lostHello : Packet := ⟨.one, [.stream ⟨⟨1⟩, 0, 200, false⟩], 300, .unencrypted, none⟩

/-- What is built out of it again. -/
def newHello : Packet :=
  ⟨.one, [.stopWaiting .one, .stream ⟨⟨1⟩, 0, 200, false⟩], 300, .unencrypted, none⟩

/-- The lost packet waits on the initial path, and the additional path may not send. -/
def waitingHello (strategy : Strategy) : Connection Script where
  scheduler := .new { strategy } {} ⟨1⟩ ⟨0⟩ none default default
  paths := (PathSet.empty.insert ((Path.new .initial {} default).queueLost lostHello)).insert
    (.new .primary { rtt := .ofMillis 10, sendingAllowed := false } default)
  session := { handshakeComplete := false }

/-- A packet sent again may go out on a path that may not send fresh data. -/
theorem finishedEvents?_waitingHello :
    finishedEvents? (send Script.session 2 (waitingHello .lowestRtt)) = some
      [.updatesAsked false [], .drained .initial lostHello, .queued (some .primary) (.stopWaiting .one),
        .packedHandshake .primary lostHello newHello, .sent .primary newHello,
        .updatesAsked false [], .updatesAsked false [], .unblocked] := by
  decide +kernel

/-- The first additional path is all that this strategy looks at, and it may not send. -/
theorem finishedEvents?_waitingHello_firstAvailable :
    finishedEvents? (send Script.session 1 (waitingHello .firstAvailable)) = some
      [.updatesAsked false [], .drained .initial lostHello, .updatesAsked false [],
        .updatesAsked false [], .unblocked] := by
  decide +kernel

/-- **The handshake packets of a run that ends.**  For every session whose handshake is not complete
and every state of the scheduler: of the packets that wait in a queue the oldest are taken, in
order, and the others stay.  The handshake packets among those taken are built again and sent in
the order in which they are taken, each once.  Only the one taken last may be lost; this happens
exactly if the last round takes it back and finds no path for it. -/
theorem handshakes_resent (hS : Unfinished S I) {n : Nat} {c c' : Connection σ}
    (hI : I c.session) (h : send S n c = .ok .finished c') :
    ∃ evs, c'.events = c.events ++ evs ∧
      (∀ id ∈ c.paths.ids,
        takenFrom id evs ++ (c'.path id).queue = (c.path id).queue ++ copiedTo id evs) ∧
      SentAsBuilt evs ∧
      ∃ lost : Option Packet, handshakesTaken evs = rebuilt evs ++ lost.toList ∧
        ∀ packet, lost = some packet ↔
          ∃ k < n, ∃ m, send S k c = .ok .outOfRounds m ∧ Strands S m packet := by
  obtain ⟨-, evs, hevents, hqueues⟩ :=
    ((tame_conserves S).keeps_send conserves_takeAck n).ok h
  obtain ⟨updates, c₁, hopening, hsend⟩ := send_eq S c
  have hgoesOn : I c₁.session :=
    ((tame_goesOn hS).toCalm.opening (tame_goesOn hS).publish).ok hopening hI
  have hopened : Accounts [] [] c c₁ :=
    (((calm_apart S).opening fun _ => .of_eq rfl).ok hopening).accounts
  obtain ⟨again, lost, haccounts, hlost⟩ := rounds_account hS hgoesOn (hsend n ▸ h)
  obtain ⟨evs', hevents', hsent, htaken, rfl⟩ := hopened.trans haccounts
  obtain rfl : evs = evs' := List.append_cancel_left (hevents.symm.trans hevents')
  refine ⟨evs, hevents, hqueues, hsent, lost, htaken, fun packet => ?_⟩
  simp only [hsend]
  exact hlost packet

/-- The account of a run that sends the packet again. -/
theorem handshakes_resent_waitingHello :
    ∃ c', send Script.session 2 (waitingHello .lowestRtt) = .ok .finished c' ∧
      ∃ evs, c'.events = evs ∧ (∀ id ∈ (waitingHello .lowestRtt).paths.ids,
        takenFrom id evs ++ (c'.path id).queue =
          ((waitingHello .lowestRtt).path id).queue ++ copiedTo id evs) ∧
      SentAsBuilt evs ∧ handshakesTaken evs = rebuilt evs ∧
      ∀ packet k m, k < 2 → send Script.session k (waitingHello .lowestRtt) = .ok .outOfRounds m →
        ¬ Strands Script.session m packet := by
  obtain ⟨c', hrun, hevents⟩ := finishedEvents?_eq_some.mp finishedEvents?_waitingHello
  obtain ⟨evs, heq, hqueues, hsent, lost, htaken, hlost⟩ :=
    handshakes_resent Script.unfinished_session rfl hrun
  obtain rfl : c'.events = evs := heq
  obtain rfl : lost = none := by
    rw [hevents] at htaken
    cases lost with
    | none => rfl
    | some packet =>
        simp [handshakesTaken, rebuilt, show lostHello.isHandshake = true from rfl] at htaken
  refine ⟨c', hrun, _, rfl, hqueues, hsent, by simpa using htaken, ?_⟩
  rintro packet k m hk hm hstrands
  exact absurd ((hlost packet).mpr ⟨k, hk, m, hm, hstrands⟩) nofun

/-- **A handshake packet is lost.**  The handshake is not complete at any time and the run ends
well, but the packet that waited is neither queued nor built again, and nothing at all is sent. -/
theorem handshake_lost_waitingHello :
    Unfinished Script.session (·.handshakeComplete = false) ∧
    (waitingHello .firstAvailable).session.handshakeComplete = false ∧
    lostHello.isHandshake = true ∧
    lostHello ∈ ((waitingHello .firstAvailable).path .initial).queue ∧
    ∃ c', send Script.session 1 (waitingHello .firstAvailable) = .ok .finished c' ∧
      lostHello ∉ c'.paths.queued ∧
      (∀ id packet, .packedHandshake id lostHello packet ∉ c'.events) ∧
      ∀ id packet, .sent id packet ∉ c'.events := by
  obtain ⟨c', hrun, hevents⟩ :=
    finishedEvents?_eq_some.mp finishedEvents?_waitingHello_firstAvailable
  refine ⟨Script.unfinished_session, rfl, rfl, by decide, c', hrun, ?_, ?_, ?_⟩
  · have hnone : (left (send Script.session 1 (waitingHello .firstAvailable))).paths.queued = [] :=
      by decide +kernel
    rw [hrun] at hnone
    exact hnone ▸ List.not_mem_nil
  · simp [hevents]
  · simp [hevents]

end Connection

end Multipath
