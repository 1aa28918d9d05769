import Multipath.Connection.SendLoop

/-!
# Actions and what they keep

An action ends in a value or in an error, and either way it leaves a connection behind.  Two ways
to speak about it:

* a successful run of a composite action is taken apart step by step (`bind_ok`, `onError_ok`);
* `Keeps R x`: whatever `x` comes to, the connection it leaves stands in the relation `R` to the
  one it found.  For a relation that accrues (it is reflexive and transitive) this is closed under
  everything actions are made of, so it is checked on the single steps.

`Grows P` is such a relation: the journal has become longer, by events of the kind `P`.
-/

namespace Multipath

namespace PathSet

variable {s : PathSet} {i j : PathId} {f : Path → Path} {k : ∀ p, (f p).id = p.id}

theorem id_of_get? {p : Path} (h : s.get? i = some p) : p.id = i := by
  have := List.find?_some h
  simpa using this

theorem get_id : (s.get i).id = i := by
  unfold get
  cases h : s.get? i with
  | none => rfl
  | some p => exact id_of_get? h

theorem get?_update :
    (s.update i f k).get? j = (s.get? j).map fun p => if j = i then f p else p := by
  have hid : ∀ p : Path, (if p.id = i then f p else p).id = p.id := by
    intro p
    split
    · exact k p
    · rfl
  unfold get? update
  rw [List.find?_map]
  -- the update keeps identities, so the search finds the same place
  have hsame : ((·.id == j) ∘ fun p : Path => if p.id = i then f p else p) = (·.id == j) := by
    funext p
    simp only [Function.comp, hid]
  rw [hsame]
  cases h : s.toList.find? (·.id == j) with
  | none => rfl
  | some p =>
      have hp : p.id = j := id_of_get? h
      simp only [Option.map_some, hp]

/-- Another path is not affected. -/
theorem get_update_ne (h : j ≠ i) : (s.update i f k).get j = s.get j := by
  unfold get
  rw [get?_update]
  cases s.get? j <;> simp [h]

/-- A path that is not there stays fresh. -/
theorem get_update_self :
    (s.update i f k).get i = f (s.get i) ∨
      (s.update i f k).get i = .new i {} default := by
  unfold get
  rw [get?_update]
  cases s.get? i <;> simp

/-- What no path changes about itself, no path of the set changes. -/
theorem get_update_eq {α : Type} (field : Path → α) (hf : ∀ p, field (f p) = field p)
    (k : ∀ p, (f p).id = p.id := by intro p; rfl) :
    field ((s.update i f k).get j) = field (s.get j) := by
  unfold get
  rw [get?_update]
  cases s.get? j with
  | none => rfl
  | some p =>
      simp only [Option.map_some, Option.getD_some]
      split
      · exact hf p
      · rfl

end PathSet

namespace Connection

variable {σ α β : Type} {S : Session σ}

/-! ### Successful runs -/

theorem bind_ok {x : Act σ α} {f : α → Act σ β} {c c' : Connection σ} {b : β}
    (h : (x >>= f) c = .ok b c') : ∃ a c₁, x c = .ok a c₁ ∧ f a c₁ = .ok b c' := by
  simp only [bind, EStateM.bind] at h
  split at h
  · exact ⟨_, _, ‹_›, h⟩
  · cases h

theorem bind_of_ok {x : Act σ α} {f : α → Act σ β} {c c₁ : Connection σ} {a : α}
    (h : x c = .ok a c₁) : (x >>= f) c = f a c₁ := by
  simp only [bind, EStateM.bind, h]

theorem bind_of_error {x : Act σ α} {f : α → Act σ β} {c c₁ : Connection σ} {e : Error}
    (h : x c = .error e c₁) : (x >>= f) c = .error e c₁ := by
  simp only [bind, EStateM.bind, h]

/-- A composite action fails where one of its parts does. -/
theorem bind_error {x : Act σ α} {f : α → Act σ β} {c c' : Connection σ} {e : Error}
    (h : (x >>= f) c = .error e c') :
    x c = .error e c' ∨ ∃ a c₁, x c = .ok a c₁ ∧ f a c₁ = .error e c' := by
  cases hx : x c with
  | ok a c₁ => exact .inr ⟨a, c₁, rfl, by rwa [bind_of_ok hx] at h⟩
  | error e₁ c₁ =>
      rw [bind_of_error hx] at h
      cases h
      exact .inl rfl

theorem pure_ok {a b : α} {c c' : Connection σ} (h : (pure a : Act σ α) c = .ok b c') :
    a = b ∧ c = c' := by
  cases h
  exact ⟨rfl, rfl⟩

theorem map_ok {x : Act σ α} {f : α → β} {c c' : Connection σ} {b : β}
    (h : (f <$> x) c = .ok b c') : ∃ a, x c = .ok a c' ∧ f a = b := by
  simp only [Functor.map, EStateM.map] at h
  split at h
  · cases h
    exact ⟨_, ‹_›, rfl⟩
  · cases h

theorem get_bind {f : Connection σ → Act σ α} {c : Connection σ} : (get >>= f) c = f c c := rfl

theorem set_bind {c c₁ : Connection σ} {f : PUnit → Act σ α} :
    (set c₁ >>= f) c = f ⟨⟩ c₁ := rfl

/-- An action that succeeds needs no cleaning up. -/
theorem onError_ok {x : Act σ α} {cleanUp : Error → Act σ Unit} {c c' : Connection σ} {a : α}
    (h : onError x cleanUp c = .ok a c') : x c = .ok a c' := by
  dsimp only [onError, tryCatch, tryCatchThe, MonadExceptOf.tryCatch] at h
  delta EStateM.tryCatch at h
  cases hx : x c with
  | ok b c₁ =>
      rw [hx] at h
      exact h
  | error e c₁ =>
      rw [hx] at h
      obtain ⟨-, c₂, -, h⟩ := bind_ok h
      cases h

theorem onError_of_ok {x : Act σ α} {cleanUp : Error → Act σ Unit} {c c' : Connection σ} {a : α}
    (h : x c = .ok a c') : onError x cleanUp c = .ok a c' := by
  dsimp only [onError, tryCatch, tryCatchThe, MonadExceptOf.tryCatch]
  delta EStateM.tryCatch
  rw [h]

/-- An action fails with its cleaning up done, or fails in it. -/
theorem onError_error {x : Act σ α} {cleanUp : Error → Act σ Unit} {c c' : Connection σ}
    {e : Error} (h : onError x cleanUp c = .error e c') :
    ∃ e₁ c₁, x c = .error e₁ c₁ ∧
      (cleanUp e₁ c₁ = .error e c' ∨ e₁ = e ∧ cleanUp e c₁ = .ok () c') := by
  dsimp only [onError, tryCatch, tryCatchThe, MonadExceptOf.tryCatch] at h
  delta EStateM.tryCatch at h
  cases hx : x c with
  | ok a c₁ =>
      rw [hx] at h
      cases h
  | error e₁ c₁ =>
      rw [hx] at h
      refine ⟨e₁, c₁, rfl, ?_⟩
      rcases bind_error h with hclean | ⟨⟨⟩, c₂, hclean, h⟩
      · exact .inl hclean
      · cases h
        exact .inr ⟨rfl, hclean⟩

/-! ### What an action keeps -/

/-- The connection an action leaves behind, however it ends. -/
def left : EStateM.Result Error (Connection σ) α → Connection σ
  | .ok _ c => c
  | .error _ c => c

/-- A relation between connections that steps may accrue. -/
structure Accrues (R : Connection σ → Connection σ → Prop) : Prop where
  refl : ∀ c, R c c
  trans : ∀ {c c₁ c₂}, R c c₁ → R c₁ c₂ → R c c₂

/-- The connection left behind stands in the relation `R` to the one found. -/
def Keeps (R : Connection σ → Connection σ → Prop) (x : Act σ α) : Prop := ∀ c, R c (left (x c))

variable {R : Connection σ → Connection σ → Prop}

theorem Keeps.ok {x : Act σ α} {c c' : Connection σ} {a : α} (hx : Keeps R x)
    (h : x c = .ok a c') : R c c' := by
  have := hx c
  rwa [h] at this

theorem Keeps.error {x : Act σ α} {c c' : Connection σ} {e : Error} (hx : Keeps R x)
    (h : x c = .error e c') : R c c' := by
  have := hx c
  rwa [h] at this

theorem Keeps.mono {R' : Connection σ → Connection σ → Prop} {x : Act σ α} (hx : Keeps R x)
    (himp : ∀ {c c'}, R c c' → R' c c') : Keeps R' x := fun c => himp (hx c)

theorem keeps_pure (hR : Accrues R) (a : α) : Keeps R (pure a : Act σ α) := fun c => hR.refl c

theorem keeps_throw (hR : Accrues R) (e : Error) : Keeps R (throw e : Act σ α) :=
  fun c => hR.refl c

/-- What goes on after an action keeps, from where the action left the connection. -/
theorem left_bind (hR : Accrues R) {f : α → Act σ β} (hf : ∀ a, Keeps R (f a)) (x : Act σ α)
    (c : Connection σ) : R (left (x c)) (left ((x >>= f) c)) := by
  simp only [bind, EStateM.bind]
  split
  · rename_i a c₁ h
    rw [h]
    exact hf a c₁
  · rename_i e c₁ h
    rw [h]
    exact hR.refl c₁

theorem keeps_bind (hR : Accrues R) {x : Act σ α} {f : α → Act σ β} (hx : Keeps R x)
    (hf : ∀ a, Keeps R (f a)) : Keeps R (x >>= f) :=
  fun c => hR.trans (hx c) (left_bind hR hf x c)

/-- Going on with a result that may be missing. -/
theorem keeps_bind_option (hR : Accrues R) {x : Act σ (Option α)} {f : Option α → Act σ β}
    (hx : Keeps R x) (hnone : Keeps R (f none)) (hsome : ∀ a, Keeps R (f (some a))) :
    Keeps R (x >>= f) :=
  keeps_bind hR hx fun
    | none => hnone
    | some a => hsome a

/-- Looking at the connection first. -/
theorem keeps_get_bind {f : Connection σ → Act σ α} (hf : ∀ c, R c (left (f c c))) :
    Keeps R (get >>= f) := hf

theorem keeps_modify {f : Connection σ → Connection σ} (hf : ∀ c, R c (f c)) :
    Keeps R (modify f : Act σ Unit) := hf

theorem keeps_map {x : Act σ α} {f : α → β} (hx : Keeps R x) : Keeps R (f <$> x) := by
  intro c
  have hxc := hx c
  simp only [Functor.map, EStateM.map]
  split <;> rename_i h <;> rwa [h] at hxc

/-- What cleaning up keeps, from where the action left the connection. -/
theorem left_onError (hR : Accrues R) {cleanUp : Error → Act σ Unit}
    (hclean : ∀ e, Keeps R (cleanUp e)) (x : Act σ α) (c : Connection σ) :
    R (left (x c)) (left (onError x cleanUp c)) := by
  dsimp only [onError, tryCatch, tryCatchThe, MonadExceptOf.tryCatch]
  delta EStateM.tryCatch
  cases h : x c with
  | ok a c₁ => exact hR.refl c₁
  | error e c₁ => exact keeps_bind hR (hclean e) (fun _ => keeps_throw hR e) c₁

theorem keeps_onError (hR : Accrues R) {x : Act σ α} {cleanUp : Error → Act σ Unit}
    (hx : Keeps R x) (hclean : ∀ e, Keeps R (cleanUp e)) : Keeps R (onError x cleanUp) :=
  fun c => hR.trans (hx c) (left_onError hR hclean x c)

theorem keeps_forM (hR : Accrues R) {f : α → Act σ Unit} :
    ∀ {l : List α}, (∀ a ∈ l, Keeps R (f a)) → Keeps R (l.forM f)
  | [], _ => keeps_pure hR _
  | a :: _, h => keeps_bind hR (h a List.mem_cons_self) fun _ =>
      keeps_forM hR fun b hb => h b (List.mem_cons_of_mem _ hb)

/-- A successful loop whose turns keep a relation as far as they succeed. -/
theorem forM_ok (hR : Accrues R) {f : α → Act σ Unit} :
    ∀ {l : List α} {c c' : Connection σ}, (∀ a ∈ l, ∀ {c c'}, f a c = .ok () c' → R c c') →
      l.forM f c = .ok () c' → R c c'
  | [], c, c', _, h => by
      obtain ⟨-, rfl⟩ := pure_ok h
      exact hR.refl c
  | a :: l, c, c', hf, h => by
      obtain ⟨⟨⟩, c₁, ha, h⟩ := bind_ok h
      exact hR.trans (hf a List.mem_cons_self ha)
        (forM_ok hR (fun b hb => hf b (List.mem_cons_of_mem _ hb)) h)

/-- A loop that fails does so in one of its turns, after turns that succeed. -/
theorem forM_error (hR : Accrues R) {f : α → Act σ Unit} {e : Error} :
    ∀ {l : List α} {c c' : Connection σ}, (∀ a ∈ l, ∀ {c c'}, f a c = .ok () c' → R c c') →
      l.forM f c = .error e c' → ∃ a ∈ l, ∃ c₁, R c c₁ ∧ f a c₁ = .error e c'
  | [], _, _, _, h => by cases h
  | a :: l, c, c', hf, h => by
      rcases bind_error h with h | ⟨⟨⟩, c₁, ha, h⟩
      · exact ⟨a, List.mem_cons_self, c, hR.refl c, h⟩
      · obtain ⟨b, hb, c₂, hsteps, hfails⟩ :=
          forM_error hR (fun b hb => hf b (List.mem_cons_of_mem _ hb)) h
        exact ⟨b, List.mem_cons_of_mem _ hb, c₂, hR.trans (hf a List.mem_cons_self ha) hsteps,
          hfails⟩

/-! ### The journal -/

/-- What the scheduler has done so far, oldest first. -/
def events (c : Connection σ) : List Event := c.scheduler.journal.toList

@[simp] theorem events_note (c : Connection σ) (e : Event) (paths : PathSet) (session : σ) :
    events ⟨c.scheduler.note e, paths, session⟩ = c.events ++ [e] := by
  simp [events, Scheduler.note]

@[simp] theorem events_same (c : Connection σ) (paths : PathSet) (session : σ) :
    events ⟨c.scheduler, paths, session⟩ = c.events := rfl

/-- The journal has grown by events of the kind `P`. -/
def Grows (P : Event → Prop) (c c' : Connection σ) : Prop :=
  ∃ evs, c'.events = c.events ++ evs ∧ ∀ e ∈ evs, P e

variable {P Q : Event → Prop}

theorem Grows.of_eq {c c' : Connection σ} (h : c'.events = c.events) : Grows P c c' :=
  ⟨[], by rw [h, List.append_nil], fun _ h => absurd h List.not_mem_nil⟩

theorem Grows.one {c c' : Connection σ} {e : Event} (h : c'.events = c.events ++ [e])
    (he : P e) : Grows P c c' :=
  ⟨[e], h, fun _ h => List.mem_singleton.mp h ▸ he⟩

theorem Grows.mono {c c' : Connection σ} (h : Grows P c c') (hPQ : ∀ e, P e → Q e) :
    Grows Q c c' := by
  obtain ⟨evs, heq, hall⟩ := h
  exact ⟨evs, heq, fun e he => hPQ e (hall e he)⟩

theorem accrues_grows : Accrues (Grows (σ := σ) P) where
  refl _ := .of_eq rfl
  trans := by
    rintro c c₁ c₂ ⟨evs₁, h₁, hall₁⟩ ⟨evs₂, h₂, hall₂⟩
    refine ⟨evs₁ ++ evs₂, by rw [h₂, h₁, List.append_assoc], fun e he => ?_⟩
    rcases List.mem_append.mp he with he | he
    · exact hall₁ e he
    · exact hall₂ e he

/-! ### Single steps -/

theorem note_bind (e : Event) (c : Connection σ) (f : Unit → Act σ α) :
    (note e >>= f) c = f () { c with scheduler := c.scheduler.note e } := rfl

theorem askUpdates_eq (force : Bool) (c : Connection σ) :
    askUpdates S force c = .ok (S.windowUpdates c.session force).1
      ⟨c.scheduler.note (.updatesAsked force (S.windowUpdates c.session force).1), c.paths,
        (S.windowUpdates c.session force).2⟩ := rfl

/-- A call on a path tells the session and the telemetry, whether it fails or not. -/
theorem callOn_eq (call : PacketCall) (id : PathId) (operation : σ → Path → Reply σ α)
    (event : α → Event) (c : Connection σ) :
    callOn call id operation event c =
      let reply := operation c.session (c.path id)
      let paths := c.paths.update id (·.setTelemetry reply.telemetry)
      match reply.result with
      | .ok a => .ok a ⟨c.scheduler.note (event a), paths, reply.session⟩
      | .error e => .error e ⟨c.scheduler.note (.failed call id e), paths, reply.session⟩ := by
  unfold callOn
  rw [get_bind]
  dsimp only
  rw [set_bind]
  cases (operation c.session (c.path id)).result <;> rfl

/-- A call on a path that succeeds, as far as receivers are concerned. -/
theorem callOn_ok {call : PacketCall} {id : PathId} {operation : σ → Path → Reply σ α}
    {event : α → Event} {c c' : Connection σ} {a : α}
    (h : callOn call id operation event c = .ok a c') :
    (operation c.session (c.path id)).result = .ok a ∧
      c'.session = (operation c.session (c.path id)).session ∧
      c'.events = c.events ++ [event a] ∧
      ∀ j, (c'.path j).receiver = (c.path j).receiver := by
  rw [callOn_eq] at h
  dsimp only at h
  split at h
  · rename_i a' hresult
    cases h
    exact ⟨hresult, rfl, events_note c _ _ _, fun j =>
      PathSet.get_update_eq Path.receiver (by intro p; rfl)⟩
  · cases h

/-- A call on a path that fails is entered as such. -/
theorem callOn_error {call : PacketCall} {id : PathId} {operation : σ → Path → Reply σ α}
    {event : α → Event} {c c' : Connection σ} {e : Error}
    (h : callOn call id operation event c = .error e c') :
    c'.events = c.events ++ [.failed call id e] := by
  rw [callOn_eq] at h
  dsimp only at h
  split at h
  · cases h
  · cases h
    exact events_note c _ _ _

theorem takeAck_eq (id : PathId) (now : Instant) (c : Connection σ) :
    takeAck id now c =
      let paths := c.paths.update id fun p => (p.ack now).2
      match ((c.path id).ack now).1 with
      | some frame => .ok (some frame) ⟨c.scheduler.note (.acknowledged id frame), paths, c.session⟩
      | none => .ok none { c with paths } := by
  unfold takeAck
  rw [get_bind]
  dsimp only
  cases ((c.path id).ack now).1 <;> rfl

theorem stopWaiting_id (force : Bool) (p : Path) : (p.stopWaiting force).2.id = p.id := by
  unfold Path.stopWaiting
  split <;> rfl

theorem queueStopWaiting_eq (id : PathId) (force : Bool) (c : Connection σ) :
    queueStopWaiting S id force c =
      (match ((c.path id).stopWaiting force).1 with
        | some number => queue S (some id) (.stopWaiting number)
        | none => pure ())
      { c with
        paths := c.paths.update id (fun p => (p.stopWaiting force).2) (stopWaiting_id force) } :=
  rfl

/-- Choosing a path concerns the scheduler, unless a training episode must stop. -/
theorem choose_eq (demand : Demand) (c : Connection σ) :
    choose S demand c =
      let (result, scheduler) := c.scheduler.select c.paths demand (S.now c.session)
      match result with
      | .ok chosen => .ok chosen { c with scheduler }
      | .error e =>
        match e with
        | .zeroTolerance _ =>
          .error e ⟨scheduler.note (.closed e), c.paths, S.close c.session e⟩
        | _ => .error e { c with scheduler } := by
  unfold choose
  rw [get_bind]
  dsimp only
  cases (c.scheduler.select c.paths demand (S.now c.session)).1 with
  | ok chosen => rfl
  | error e => cases e <;> rfl

end Connection

end Multipath
