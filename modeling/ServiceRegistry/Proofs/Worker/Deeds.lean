import ServiceRegistry.Proofs.Store.Watches
import ServiceRegistry.Proofs.Worker.Runs

/-! # What a worker does to the store

A worker opens sessions, and makes calls, takes events and closes only on sessions of its own
(`Worker.Course.Move.byDeeds`): the one it holds, or one that it has just opened. -/

namespace ServiceRegistry

namespace Worker

open Store

variable {τ σ : Type} (w : Worker τ) (s : Store) {asks : Request → Prop}

/-- Deeds by which a worker that holds some sessions and makes some calls acts on a store. -/
def Owns (mine : SessionId → Prop) (asks : Request → Prop) : Deed → Prop
  | .connect => True
  | .close id => mine id
  | .takeEvents id => mine id
  | .serve id r => mine id ∧ asks r
  | _ => False

/-- The session that is held, and those that are not open yet. -/
def Mine (id : SessionId) : Prop := w.session = some id ∨ s.opened < id

/-- The session that is held was opened. -/
def Opened : Prop := ∀ id, w.session = some id → id ≤ s.opened

theorem opened_close (id : SessionId) : (s.close id).opened = s.opened := by
  unfold Store.close
  split
  · exact opened_foldl_drop _ _
  · rfl

/-! ### Taking events -/

theorem note_session (e : Store.Event) : (w.note e).session = w.session := by
  unfold note
  split <;> rfl

theorem note_task (e : Store.Event) : (w.note e).task = w.task := by
  unfold note
  split <;> rfl

theorem close_task : (w.close s).1.task = w.task := by
  unfold close
  split <;> rfl

theorem close_opened : (w.close s).2.opened = s.opened := by
  unfold close
  split
  · exact opened_close s _
  · rfl

theorem byDeeds_close {mine : SessionId → Prop} (h : ∀ id, w.session = some id → mine id) :
    ByDeeds (Owns mine asks) s (w.close s).2 := by
  unfold close
  split
  · next id hid =>
    exact .step (.single (d := .close id) (h id hid) s) (d := .takeEvents id) (h id hid)
  · exact .refl s

theorem heed_task (es : List Store.Event) : (w.heed s es).1.task = w.task := by
  induction es generalizing w with
  | nil => rfl
  | cons e es ih =>
      unfold heed
      split
      · exact w.close_task s
      · rw [ih, note_task]

theorem heed_session (es : List Store.Event) {id : SessionId}
    (h : (w.heed s es).1.session = some id) : w.session = some id := by
  induction es generalizing w with
  | nil => exact h
  | cons e es ih =>
      unfold heed at h
      split at h
      · simp [close_session] at h
      · exact w.note_session e ▸ ih _ h

theorem heed_opened (es : List Store.Event) : (w.heed s es).2.opened = s.opened := by
  induction es generalizing w with
  | nil => rfl
  | cons e es ih =>
      unfold heed
      split
      · exact w.close_opened s
      · exact ih _

theorem byDeeds_heed {mine : SessionId → Prop} (h : ∀ id, w.session = some id → mine id)
    (es : List Store.Event) : ByDeeds (Owns mine asks) s (w.heed s es).2 := by
  induction es generalizing w with
  | nil => exact .refl s
  | cons e es ih =>
      unfold heed
      split
      · exact w.byDeeds_close s h
      · exact ih _ fun id hid => h id (w.note_session e ▸ hid)

/-- Events that leave the session and the counter say nothing of nodes, and leave the store. -/
theorem heed_quiet {es : List Store.Event} {id : SessionId}
    (hsession : (w.heed s es).1.session = some id)
    (hgen : (w.heed s es).1.generation = w.generation) :
    w.session = some id ∧ (w.heed s es).2 = s ∧
      ∀ e ∈ es, e.signal = .syncConnected → e.change = .none := by
  induction es generalizing w with
  | nil => exact ⟨hsession, rfl, fun e he => by cases he⟩
  | cons e es ih =>
      unfold heed at hsession hgen ⊢
      split at hsession
      · simp [close_session] at hsession
      · next hsignal =>
        rw [if_neg hsignal] at hgen ⊢
        have hle := (w.advances_note e).generation_le
        have hle' := ((w.note e).advances_heed s es).generation_le
        obtain ⟨hid, hstore, hes⟩ := ih (w.note e) hsession (by omega)
        refine ⟨w.note_session e ▸ hid, hstore, ?_⟩
        intro e' he'
        rcases List.mem_cons.mp he' with rfl | he'
        · intro hsync
          apply Classical.byContradiction
          intro hchange
          have : (w.note e').generation = w.generation + 1 := by simp [note, hsync, hchange]
          omega
        · exact hes e' he'

theorem receive_task : (w.receive s).1.task = w.task := by
  unfold receive
  split
  · rfl
  · exact w.heed_task _ _

theorem receive_session {id : SessionId} (h : (w.receive s).1.session = some id) :
    w.session = some id := by
  unfold receive at h
  split at h
  · exact h
  · exact w.heed_session _ _ h

theorem receive_opened : (w.receive s).2.opened = s.opened := by
  unfold receive
  split
  · rfl
  · exact w.heed_opened _ _

theorem byDeeds_receive {mine : SessionId → Prop} (h : ∀ id, w.session = some id → mine id) :
    ByDeeds (Owns mine asks) s (w.receive s).2 := by
  unfold receive
  split
  · exact .refl s
  · next id hid =>
    exact (ByDeeds.single (d := .takeEvents id) (h id hid) s).trans (w.byDeeds_heed _ h _)

theorem receive_quiet {id : SessionId} (hsession : (w.receive s).1.session = some id)
    (hgen : (w.receive s).1.generation = w.generation) :
    w.session = some id ∧ (w.receive s).2 = s.clearInbox id ∧
      ∀ e ∈ s.inbox id, e.signal = .syncConnected → e.change = .none := by
  unfold receive at hsession hgen ⊢
  split at hsession
  · next hnone => simp [hnone] at hsession
  · next i hi =>
    simp only [hi] at hgen ⊢
    obtain ⟨hid, hstore, hes⟩ := w.heed_quiet _ hsession hgen
    cases hi.symm.trans hid
    exact ⟨rfl, hstore, hes⟩

/-! ### Opening a session -/

theorem open_task : (w.open' s).1.task = w.task := by
  unfold open'
  split
  · rfl
  · split <;> rfl

theorem opened_open (h : w.Opened s) : (w.open' s).1.Opened (w.open' s).2 := by
  intro id hid
  unfold open' at hid ⊢
  cases hs : w.session with
  | some i =>
      simp only [hs] at hid ⊢
      exact h id (hs.trans hid)
  | none =>
      simp only [hs] at hid ⊢
      rcases s.connect_cases with ⟨code, s', hc, -, -⟩ | hc
      · simp only [hc] at hid
        simp [hs] at hid
      · simp only [hc] at hid ⊢
        cases hid
        exact Nat.le_refl _

/-- A session that is held after one was opened is the next one or the one held before. -/
theorem open_session_eq {id : SessionId} (h : (w.open' s).1.session = some id) :
    w.session = some id ∨ id = s.opened + 1 := by
  unfold open' at h
  cases hs : w.session with
  | some i =>
      simp only [hs] at h
      exact .inl h
  | none =>
      simp only [hs] at h
      rcases s.connect_cases with ⟨code, s', hc, -, -⟩ | hc
      · simp only [hc] at h
        simp [hs] at h
      · simp only [hc] at h
        cases h
        exact .inr rfl

/-- A session that is held after one was opened is new or the one held before. -/
theorem open_session {id : SessionId} (h : (w.open' s).1.session = some id) :
    w.session = some id ∨ s.opened < id := by
  rcases w.open_session_eq s h with hheld | rfl
  · exact .inl hheld
  · exact .inr (Nat.lt_succ_self _)

theorem byDeeds_open (mine : SessionId → Prop) : ByDeeds (Owns mine asks) s (w.open' s).2 := by
  have hconnect : ByDeeds (Owns mine asks) s s.connect.2 := .single (d := .connect) trivial s
  unfold open'
  split
  · exact .refl s
  · split
    · next hc =>
      rw [hc] at hconnect
      exact hconnect
    · next hc =>
      rw [hc] at hconnect
      exact hconnect

/-! ### Ticks -/

theorem settle_task : (w.settle s receive receive).1.task = w.task := by
  unfold settle
  dsimp only
  split
  · exact w.receive_task s
  · rw [receive_task, open_task, receive_task]

theorem opened_receive (h : w.Opened s) : (w.receive s).1.Opened (w.receive s).2 := by
  intro id hid
  rw [receive_opened]
  exact h id (w.receive_session s hid)

theorem opened_settle (h : w.Opened s) :
    (w.settle s receive receive).1.Opened (w.settle s receive receive).2 := by
  unfold settle
  dsimp only
  split
  · exact w.opened_receive s h
  · exact opened_receive _ _ (opened_open _ _ (w.opened_receive s h))

theorem byDeeds_settle : ByDeeds (Owns (w.Mine s) asks) s (w.settle s receive receive).2 := by
  have hfirst : ByDeeds (Owns (w.Mine s) asks) s (w.receive s).2 :=
    w.byDeeds_receive s fun id hid => .inl hid
  unfold settle
  dsimp only
  split
  · exact hfirst
  · refine (hfirst.trans (byDeeds_open _ _ _)).trans (byDeeds_receive _ _ fun id hid => ?_)
    rcases open_session _ _ hid with hid | hlt
    · exact .inl (w.receive_session s hid)
    · exact .inr (w.receive_opened s ▸ hlt)

/-- A session that is held after a tick begins is new or the one held before. -/
theorem settle_session {id : SessionId} (h : (w.settle s receive receive).1.session = some id) :
    w.session = some id ∨ s.opened < id := by
  unfold settle at h
  dsimp only at h
  split at h
  · exact .inl (w.receive_session s h)
  · rcases open_session _ _ (receive_session _ _ h) with hid | hlt
    · exact .inl (w.receive_session s hid)
    · exact .inr (w.receive_opened s ▸ hlt)

theorem clearInbox_clearInbox (s : Store) (id : SessionId) :
    (s.clearInbox id).clearInbox id = s.clearInbox id := by
  simp [clearInbox]

/-- A session that is kept without a request heard of nothing but its connection. -/
theorem settle_quiet {id : SessionId}
    (hsession : (w.settle s receive receive).1.session = some id)
    (hgen : (w.settle s receive receive).1.generation = w.generation) :
    w.session = some id ∧ (w.settle s receive receive).2 = s.clearInbox id ∧
      ∀ e ∈ s.inbox id, e.signal = .syncConnected → e.change = .none := by
  unfold settle at hsession hgen ⊢
  dsimp only at hsession hgen ⊢
  split at hsession
  · next hlink =>
    simp only [hlink, ↓reduceIte] at hgen ⊢
    exact w.receive_quiet s hsession hgen
  · next hlink =>
    simp only [hlink, ↓reduceIte] at hgen ⊢
    have hle := (w.advances_receive s).generation_le
    have hle' := ((w.receive s).1.advances_open (w.receive s).2).generation_le
    have hle'' := (advances_receive ((w.receive s).1.open' (w.receive s).2).1
      ((w.receive s).1.open' (w.receive s).2).2).generation_le
    obtain ⟨hid, hstore, -⟩ := receive_quiet _ _ hsession (by omega)
    have hkept : (w.receive s).1.session = some id := by
      rcases ((w.receive s).1.advances_open (w.receive s).2).session id hid with hid | hlt
      · exact hid
      · omega
    have hopen : (w.receive s).1.open' (w.receive s).2 = w.receive s := by
      simp [open', hkept]
    obtain ⟨hw, hs, hes⟩ := w.receive_quiet s hkept (by omega)
    refine ⟨hw, ?_, hes⟩
    rw [hstore, hopen, hs, clearInbox_clearInbox]

theorem decide_session [Task τ σ] (x : σ) (tick : Nat) :
    (w.decide x tick).2.session = w.session := by
  unfold decide
  split
  · rfl
  · dsimp only
    split
    all_goals rfl

theorem opened_beginTick [Task τ σ] (x : σ) (h : w.Opened s) :
    (w.beginTick s receive receive x).2.1.Opened (w.beginTick s receive receive x).2.2 := by
  intro id hid
  have hsettle := opened_settle { w with ticks := w.ticks + 1 } s h
  exact hsettle id ((decide_session _ x w.ticks).symm.trans hid)

theorem byDeeds_beginTick [Task τ σ] (x : σ) :
    ByDeeds (Owns (w.Mine s) asks) s (w.beginTick s receive receive x).2.2 :=
  byDeeds_settle { w with ticks := w.ticks + 1 } s

theorem beginTick_quiet [Task τ σ] [LawfulTask τ] {x : σ} {id : SessionId}
    (hsession : (w.beginTick s receive receive x).2.1.session = some id)
    (hgen : (w.beginTick s receive receive x).2.1.generation = w.generation) :
    w.session = some id ∧ (w.beginTick s receive receive x).2.2 = s.clearInbox id ∧
      ∀ e ∈ s.inbox id, e.signal = .syncConnected → e.change = .none := by
  let begun : Worker τ := { w with ticks := w.ticks + 1 }
  have hle := (begun.advances_settle s).generation_le
  have hle' := ((begun.settle s receive receive).1.advances_decide x w.ticks).generation_le
  have hkept : (begun.settle s receive receive).1.session = some id :=
    (decide_session _ x w.ticks).symm.trans hsession
  refine begun.settle_quiet s hkept (Nat.le_antisymm ?_ hle)
  exact Nat.le_trans hle' (Nat.le_of_eq hgen)

theorem endPass_task (pass : Pass) (task : τ) (result : Except StoreError Bool) :
    (w.endPass s pass task result).1.task = task := by
  unfold endPass
  dsimp only
  split
  · rfl
  · split
    · rfl
    · split
      · exact close_task _ s
      · rfl

theorem opened_endPass (pass : Pass) (task : τ) (result : Except StoreError Bool)
    (h : w.Opened s) :
    (w.endPass s pass task result).1.Opened (w.endPass s pass task result).2 := by
  intro id hid
  have hopened : (w.endPass s pass task result).2.opened = s.opened := by
    unfold endPass
    dsimp only
    split
    · rfl
    · split
      · rfl
      · split
        · exact close_opened _ s
        · rfl
  exact hopened ▸ h id (w.endPass_session s pass task result id hid)

theorem byDeeds_endPass (pass : Pass) (task : τ) (result : Except StoreError Bool) :
    ByDeeds (Owns (w.Mine s) asks) s (w.endPass s pass task result).2 := by
  unfold endPass
  dsimp only
  split
  · exact .refl s
  · split
    · exact .refl s
    · split
      · exact byDeeds_close _ s fun id hid => .inl hid
      · exact .refl s

/-! ### Moves -/

/-- A step of a script does nothing to the store but the call that it makes. -/
theorem byDeeds_scriptStep {α : Type} {id : SessionId} (h : w.Mine s id) {x x' : Script σ α}
    {s' : Store} {y y' : σ} {e : Option Exchange} (hstep : x.Step id s y e x' s' y')
    (hasks : ∀ e', e = some e' → asks e'.request) : ByDeeds (Owns (w.Mine s) asks) s s' := by
  rcases hstep.store_cases with ⟨r, rfl, rfl⟩ | ⟨-, rfl⟩
  · exact .single (d := .serve id r) ⟨h, hasks _ rfl⟩ s
  · exact .refl s'

/-- A step of a script takes no events. -/
theorem tells_scriptStep {α : Type} {root : String} {id : SessionId} {x x' : Script σ α}
    {s s' : Store} {y y' : σ} {e : Option Exchange} (hstep : x.Step id s y e x' s' y')
    (i : SessionId) : Tells root i s s' := by
  rcases hstep.store_cases with ⟨r, -, rfl⟩ | ⟨-, rfl⟩
  · exact tells_serve s id r
  · exact .refl s'

namespace Course

variable {c d : Course τ σ}

theorem Move.byDeeds [Task τ σ] (hm : Move c d) (h : c.bench.Sound)
    (hasks : ∀ a x e x' s y, c.bench.underway = some (a, x) →
      x.Step a.session c.store c.shared (some e) x' s y → asks e.request) :
    ByDeeds (Owns (c.bench.worker.Mine c.store) asks) c.store d.store := by
  cases hm with
  | trigger => exact .refl _
  | tick idle => exact c.bench.worker.byDeeds_beginTick c.store c.shared
  | work underway step =>
      obtain ⟨-, -, -, hid⟩ := h.underway _ _ underway
      refine c.bench.worker.byDeeds_scriptStep c.store (.inl hid) step fun e' he' => ?_
      exact hasks _ _ e' _ _ _ underway (he' ▸ step)
  | finish underway => exact c.bench.worker.byDeeds_endPass c.store _ _ _
  | stop idle => exact c.bench.worker.byDeeds_close c.store fun id hid => .inl hid

theorem Move.opened [Task τ σ] (hm : Move c d) (h : c.bench.Sound)
    (ho : c.bench.worker.Opened c.store) : d.bench.worker.Opened d.store := by
  cases hm with
  | trigger => exact ho
  | tick idle => exact c.bench.worker.opened_beginTick c.store c.shared ho
  | work underway step =>
      intro id hid
      obtain ⟨-, -, -, hid'⟩ := h.underway _ _ underway
      have hdeeds : ByDeeds (Owns (c.bench.worker.Mine c.store) fun _ => True) c.store _ :=
        c.bench.worker.byDeeds_scriptStep c.store (.inl hid') step fun _ _ => trivial
      exact Nat.le_trans (ho id hid) hdeeds.opened_le
  | finish underway => exact c.bench.worker.opened_endPass c.store _ _ _ ho
  | stop idle =>
      intro id hid
      have hnone : c.stop.bench.worker.session = none := c.bench.worker.close_session c.store
      exact absurd (hnone.symm.trans hid) (by simp)

/-- A session that is held after a move is new or the one held before. -/
theorem Move.session [Task τ σ] (hm : Move c d) {id : SessionId}
    (h : d.bench.worker.session = some id) :
    c.bench.worker.session = some id ∨ c.store.opened < id := by
  cases hm with
  | trigger => exact .inl h
  | tick idle =>
      exact settle_session { c.bench.worker with ticks := c.bench.worker.ticks + 1 } c.store
        ((decide_session _ c.shared c.bench.worker.ticks).symm.trans h)
  | work underway step => exact .inl h
  | finish underway => exact .inl (c.bench.worker.endPass_session c.store _ _ _ id h)
  | stop idle => cases (c.bench.worker.close_session c.store).symm.trans h

end Course

end Worker

end ServiceRegistry
