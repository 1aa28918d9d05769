import Multipath.Proofs.Connection.Steps

/-!
# What becomes of an acknowledgement

Handing out an acknowledgement uses it up: the path will not hand out another before new packets
arrive.  So what follows it in the journal decides whether the peer sees it.

* `AllSent`: every acknowledgement handed out is followed by the sending of a packet that carries
  it, on its path.
* `Answered`: it is queued and goes out with the very next packet, as it should.
* `Declined`: it is queued, and then the packer builds no packet.
* `Answered.not_declined`: what follows an acknowledgement is the one or the other.
-/

namespace Multipath

/-- The event queues a control frame. -/
def Event.isQueued : Event → Bool
  | .queued .. => true
  | _ => false

/-- A packet that carries the acknowledgement is sent on its path. -/
def SentIn (id : PathId) (frame : AckFrame) (evs : List Event) : Prop :=
  ∃ packet, .sent id packet ∈ evs ∧ .ack frame ∈ packet.frames

/-- Every acknowledgement handed out in `evs` stands in `Q` to what follows it. -/
def Each (Q : PathId → AckFrame → List Event → Prop) (evs : List Event) : Prop :=
  ∀ id frame post, .acknowledged id frame :: post <:+ evs → Q id frame post

/-- Every acknowledgement handed out is sent afterwards. -/
abbrev AllSent (evs : List Event) : Prop := Each SentIn evs

/-- Frames are queued, and the packet built then carries the acknowledgement and is sent. -/
def Answered (id : PathId) (frame : AckFrame) (evs : List Event) : Prop :=
  ∃ queued built packet rest, evs = queued ++ built :: .sent id packet :: rest ∧
    (∀ e ∈ queued, e.isQueued = true) ∧
    (built = .packed id (some packet) ∨ built = .packedAck id packet) ∧
    .ack frame ∈ packet.frames

/-- An acknowledgement is handed out in `evs`, frames are queued, and then the packer builds no
packet; `post` is what happens after that. -/
def Declined (evs : List Event) (id : PathId) (frame : AckFrame) (post : List Event) : Prop :=
  ∃ queued, (∀ e ∈ queued, e.isQueued = true) ∧
    .acknowledged id frame :: (queued ++ .packed id none :: post) <:+ evs

/-! ### Suffixes -/

/-- A suffix of `xs ++ ys` that is not empty begins in `ys` or in `xs`. -/
theorem cons_suffix_append {α : Type} {a : α} {post ys : List α} :
    ∀ {xs : List α}, a :: post <:+ xs ++ ys →
      a :: post <:+ ys ∨ ∃ post', post = post' ++ ys ∧ a :: post' <:+ xs
  | [], h => .inl h
  | x :: xs, h => by
      rcases List.suffix_cons_iff.mp h with heq | h
      · obtain ⟨rfl, rfl⟩ := List.cons.inj heq
        exact .inr ⟨xs, rfl, List.suffix_rfl⟩
      · rcases cons_suffix_append h with h | ⟨post', heq, h⟩
        · exact .inl h
        · exact .inr ⟨post', heq, h.trans (List.suffix_cons x xs)⟩

/-- Two lists that agree, split at the first element outside `q`. -/
theorem split_unique {α : Type} {q : α → Bool} {a b : α} {as bs : List α} (ha : q a = false)
    (hb : q b = false) : ∀ {xs ys : List α}, xs ++ a :: as = ys ++ b :: bs →
      (∀ x ∈ xs, q x = true) → (∀ y ∈ ys, q y = true) → a = b ∧ as = bs
  | [], [], h, _, _ => List.cons.inj h
  | [], y :: ys, h, _, hys => by
      obtain ⟨rfl, -⟩ := List.cons.inj h
      exact absurd (hys _ List.mem_cons_self) (by simp [ha])
  | x :: xs, [], h, hxs, _ => by
      obtain ⟨rfl, -⟩ := List.cons.inj h
      exact absurd (hxs _ List.mem_cons_self) (by simp [hb])
  | x :: xs, y :: ys, h, hxs, hys =>
      split_unique ha hb (List.cons.inj h).2 (fun z hz => hxs z (List.mem_cons_of_mem _ hz))
        fun z hz => hys z (List.mem_cons_of_mem _ hz)

/-! ### Journals in parts -/

section Each

variable {Q : PathId → AckFrame → List Event → Prop} {evs xs ys : List Event}

theorem each_of_quiet (h : ∀ e ∈ evs, e.isAcknowledged = false) : Each Q evs := by
  intro id frame post hsuffix
  exact absurd (h _ (hsuffix.subset List.mem_cons_self)) (by simp [Event.isAcknowledged])

theorem each_cons_of_quiet {e : Event} (he : e.isAcknowledged = false) (h : Each Q evs) :
    Each Q (e :: evs) := by
  intro id frame post hsuffix
  rcases List.suffix_cons_iff.mp hsuffix with heq | hsuffix
  · obtain ⟨rfl, -⟩ := List.cons.inj heq
    exact absurd he (by simp [Event.isAcknowledged])
  · exact h id frame post hsuffix

theorem each_cons {id : PathId} {frame : AckFrame} (hq : Q id frame evs) (h : Each Q evs) :
    Each Q (.acknowledged id frame :: evs) := by
  intro id' frame' post hsuffix
  rcases List.suffix_cons_iff.mp hsuffix with heq | hsuffix
  · obtain ⟨hack, rfl⟩ := List.cons.inj heq
    obtain ⟨rfl, rfl⟩ := Event.acknowledged.inj hack
    exact hq
  · exact h id' frame' post hsuffix

theorem Each.append (hmore : ∀ {id frame post more}, Q id frame post → Q id frame (post ++ more))
    (hx : Each Q xs) (hy : Each Q ys) : Each Q (xs ++ ys) := by
  intro id frame post hsuffix
  rcases cons_suffix_append hsuffix with h | ⟨post', rfl, h⟩
  · exact hy id frame post h
  · exact hmore (hx id frame post' h)

end Each

theorem Answered.append {id : PathId} {frame : AckFrame} {evs more : List Event}
    (h : Answered id frame evs) : Answered id frame (evs ++ more) := by
  obtain ⟨queued, built, packet, rest, rfl, hqueued, hbuilt, hframe⟩ := h
  exact ⟨queued, built, packet, rest ++ more, by simp, hqueued, hbuilt, hframe⟩

theorem Answered.sentIn {id : PathId} {frame : AckFrame} {evs : List Event}
    (h : Answered id frame evs) : SentIn id frame evs := by
  obtain ⟨queued, built, packet, rest, rfl, -, -, hframe⟩ := h
  exact ⟨packet, by simp, hframe⟩

theorem Answered.not_declined {id : PathId} {frame : AckFrame} {queued post : List Event}
    (h : Answered id frame (queued ++ .packed id none :: post))
    (hqueued : ∀ e ∈ queued, e.isQueued = true) : False := by
  obtain ⟨queued', built, packet, rest, heq, hqueued', hbuilt, -⟩ := h
  have hnot : built.isQueued = false := by
    rcases hbuilt with rfl | rfl <;> rfl
  obtain ⟨rfl, -⟩ := split_unique rfl hnot heq hqueued hqueued'
  rcases hbuilt with h | h <;> cases h

/-- Frames that are queued and a packet that is not built send nothing. -/
theorem sentIn_after_declined {id : PathId} {frame : AckFrame} {queued post : List Event}
    (hqueued : ∀ e ∈ queued, e.isQueued = true)
    (h : SentIn id frame (queued ++ .packed id none :: post)) : SentIn id frame post := by
  obtain ⟨packet, hsent, hframe⟩ := h
  rcases List.mem_append.mp hsent with hsent | hsent
  · exact absurd (hqueued _ hsent) (by simp [Event.isQueued])
  · rcases List.mem_cons.mp hsent with heq | hsent
    · cases heq
    · exact ⟨packet, hsent, hframe⟩

theorem SentIn.append {id : PathId} {frame : AckFrame} {evs more : List Event}
    (h : SentIn id frame evs) : SentIn id frame (evs ++ more) := by
  obtain ⟨packet, hsent, hframe⟩ := h
  exact ⟨packet, List.mem_append_left _ hsent, hframe⟩

theorem not_isAcknowledged_of_isQueued {e : Event} (h : e.isQueued = true) :
    e.isAcknowledged = false := by
  cases e <;> first | rfl | cases h

theorem Each.not_declined {evs : List Event} (h : Each Answered evs) {id : PathId}
    {frame : AckFrame} {post : List Event} : ¬ Declined evs id frame post := by
  rintro ⟨queued, hqueued, hsuffix⟩
  exact (h id frame _ hsuffix).not_declined hqueued

/-! ### A journal with one declined acknowledgement -/

section Declined

variable {pre queued post : List Event} {id : PathId} {frame : AckFrame}
  (hpre : Each Answered pre) (hqueued : ∀ e ∈ queued, e.isQueued = true)
  (hpost : Each Answered post)

include hpre hqueued hpost

/-- There is no other declined acknowledgement. -/
theorem declined_unique {id' : PathId} {frame' : AckFrame} {post' : List Event}
    (h : Declined (pre ++ .acknowledged id frame :: (queued ++ .packed id none :: post))
      id' frame' post') : id' = id ∧ frame' = frame ∧ post' = post := by
  obtain ⟨queued', hqueued', hsuffix⟩ := h
  rcases cons_suffix_append hsuffix with hsuffix | ⟨rest, heq, hsuffix⟩
  · rcases List.suffix_cons_iff.mp hsuffix with heq | hsuffix
    · obtain ⟨hack, hrest⟩ := List.cons.inj heq
      obtain ⟨rfl, rfl⟩ := Event.acknowledged.inj hack
      exact ⟨rfl, rfl, (split_unique rfl rfl hrest hqueued' hqueued).2⟩
    · rcases cons_suffix_append hsuffix with hsuffix | ⟨rest, -, hsuffix⟩
      · rcases List.suffix_cons_iff.mp hsuffix with heq | hsuffix
        · cases (List.cons.inj heq).1
        · exact absurd ⟨queued', hqueued', hsuffix⟩ hpost.not_declined
      · exact absurd (hqueued _ (hsuffix.subset List.mem_cons_self)) (by simp [Event.isQueued])
  · -- what follows it in `pre` answers it
    have hanswered : Answered id' frame' (queued' ++ .packed id' none :: post') := by
      rw [heq]
      exact (hpre id' frame' rest hsuffix).append
    exact (hanswered.not_declined hqueued').elim

/-- All acknowledgements are sent if the declined one is. -/
theorem allSent_iff :
    AllSent (pre ++ .acknowledged id frame :: (queued ++ .packed id none :: post)) ↔
      SentIn id frame post := by
  constructor
  · intro h
    exact sentIn_after_declined hqueued (h id frame _ (List.suffix_append _ _))
  · intro h
    have hsent : Each SentIn pre := fun i f evs hsuffix => (hpre i f evs hsuffix).sentIn
    have hsent' : Each SentIn post := fun i f evs hsuffix => (hpost i f evs hsuffix).sentIn
    refine hsent.append SentIn.append (each_cons ?_ ?_)
    · obtain ⟨packet, hmem, hframe⟩ := h
      exact ⟨packet, by simp [hmem], hframe⟩
    · exact (each_of_quiet fun e he => not_isAcknowledged_of_isQueued (hqueued e he)).append
        SentIn.append (each_cons_of_quiet rfl hsent')

end Declined

end Multipath
