import ServiceRegistry.Proofs.Worker.Deeds

/-! # Failed passes are repeated

After a pass that failed the next tick runs a pass again, on the same session, unless the session
has ended (`Course.failed_pass_is_repeated_iff`). The exception is the loss of the connection, for
which a timeout counts too: then the worker waits until an event of the session says that it is
connected, and runs no pass before, however long that takes (`Course.no_pass_after_loss`).

It is only asked that no event waits that says that the connection was lost or that the session
ended; events of nodes may wait. -/

namespace ServiceRegistry

namespace Worker

open Store

variable {τ σ : Type} (w : Worker τ) (s : Store)

/-! ### Taking harmless events -/

/-- None of the events says that the connection was lost or that the session ended. -/
def AreHarmless (es : List Store.Event) : Prop :=
  ∀ e ∈ es, e.signal ≠ .disconnected ∧ e.signal ≠ .expired

/-- One of the events says that the session is connected. -/
def Connects (es : List Store.Event) : Prop := ∃ e ∈ es, e.signal = .syncConnected

instance (es : List Store.Event) : Decidable (AreHarmless es) :=
  inferInstanceAs (Decidable (∀ e ∈ es, _))

instance (es : List Store.Event) : Decidable (Connects es) :=
  inferInstanceAs (Decidable (∃ e ∈ es, _))

theorem inbox_clearInbox_self (id : SessionId) : (s.clearInbox id).inbox id = [] := by
  simp [inbox, clearInbox, List.filter_filter]

/-- Harmless events leave the session and the store, and can only connect. -/
theorem heed_harmless {es : List Store.Event} (h : AreHarmless es) :
    (w.heed s es).2 = s ∧ (w.heed s es).1.session = w.session ∧
      ((w.heed s es).1.link ≠ .disconnected ↔ w.link ≠ .disconnected ∨ Connects es) := by
  induction es generalizing w with
  | nil => exact ⟨rfl, rfl, by simp [heed, Connects]⟩
  | cons e es ih =>
      obtain ⟨hlost, hended⟩ := h e (by simp)
      obtain ⟨hstore, hsession, hlink⟩ := ih (w.note e) fun e' he' =>
        h e' (List.mem_cons_of_mem e he')
      unfold heed
      rw [if_neg hended]
      refine ⟨hstore, hsession.trans (w.note_session e), hlink.trans ?_⟩
      unfold note Connects
      cases hsignal : e.signal with
      | syncConnected => simp [hsignal]
      | disconnected => exact absurd hsignal hlost
      | expired => exact absurd hsignal hended
      | authFailed => simp [hsignal]

theorem receive_harmless {id : SessionId} (hid : w.session = some id)
    (h : AreHarmless (s.inbox id)) :
    (w.receive s).2 = s.clearInbox id ∧ (w.receive s).1.session = some id ∧
      ((w.receive s).1.link ≠ .disconnected ↔ w.link ≠ .disconnected ∨ Connects (s.inbox id)) := by
  obtain ⟨hstore, hsession, hlink⟩ := w.heed_harmless (s.clearInbox id) h
  unfold receive
  rw [hid]
  exact ⟨hstore, hsession.trans hid, hlink⟩

/-- What comes first in a tick takes the events and keeps the session. -/
theorem settle_harmless {id : SessionId} (hid : w.session = some id)
    (h : AreHarmless (s.inbox id)) :
    (w.settle s receive receive).2 = s.clearInbox id ∧
      (w.settle s receive receive).1.session = some id ∧
      ((w.settle s receive receive).1.link ≠ .disconnected ↔
        w.link ≠ .disconnected ∨ Connects (s.inbox id)) := by
  obtain ⟨hstore, hsession, hlink⟩ := w.receive_harmless s hid h
  unfold settle
  dsimp only
  split
  · exact ⟨hstore, hsession, hlink⟩
  · -- The session that is held is not opened again, and its inbox is empty by now.
    have hopen : (w.receive s).1.open' (w.receive s).2 = w.receive s := by
      simp [open', hsession]
    have hempty : (w.receive s).2.inbox id = [] := by rw [hstore, inbox_clearInbox_self]
    obtain ⟨hstore', hsession', hlink'⟩ := receive_harmless _ (w.receive s).2 hsession
      (by simp [AreHarmless, hempty])
    rw [hopen]
    refine ⟨?_, hsession', hlink'.trans ?_⟩
    · rw [hstore', hstore, clearInbox_clearInbox]
    · simpa [hempty, Connects] using hlink

/-! ### Whether a pass is due -/

theorem decide_link [Task τ σ] {x : σ} {tick : Nat} {p : SessionId × Pass}
    (h : (w.decide x tick).1 = some p) : (w.decide x tick).2.link ≠ .disconnected := by
  unfold decide at h ⊢
  by_cases hlink : w.link = .disconnected
  · simp [hlink] at h
  · rw [if_neg hlink]
    dsimp only
    split
    all_goals exact hlink

/-- While a generation is unprocessed, a pass is due whenever the worker is not disconnected. -/
theorem decide_eq_some_iff [Task τ σ] [LawfulTask τ] {x : σ} {tick : Nat} {id : SessionId}
    (hid : w.session = some id) (hlt : w.processed < w.generation) :
    (∃ pass, (w.decide x tick).1 = some (id, pass)) ↔ w.link ≠ .disconnected := by
  have hle := LawfulTask.le_request w.task x tick w.generation
  unfold decide
  by_cases hlink : w.link = .disconnected
  · simp [hlink]
  · simp only [hlink, ↓reduceIte, hid, ne_eq, not_false_eq_true, iff_true]
    exact ⟨_, if_neg (by omega)⟩

theorem decide_of_disconnected [Task τ σ] {x : σ} {tick : Nat} (h : w.link = .disconnected) :
    w.decide x tick = (none, w) := by
  unfold decide
  rw [if_pos h]

/-- The end of a pass that failed, but not because the session has ended. -/
theorem endPass_error (pass : Pass) (task : τ) {e : StoreError} (h : e.code ≠ .sessionExpired) :
    w.endPass s pass task (.error e) =
      ({ w with task, link := if e.isConnectionLoss then .disconnected else w.link }, s) := by
  unfold endPass
  dsimp only
  split
  · rfl
  · rw [if_neg (by simpa [StoreError.isSessionExpired] using h)]

namespace Course

variable {c d : Course τ σ}

/-! ### Passes under way -/

/-- A worker that has a pass under way is not disconnected. -/
def IsLinked (c : Course τ σ) : Prop :=
  c.bench.underway.isSome = true → c.bench.worker.link ≠ .disconnected

theorem Move.isLinked [Task τ σ] (hm : Move c d) (h : c.IsLinked) : d.IsLinked := by
  cases hm with
  | trigger => exact h
  | tick idle =>
      intro hu
      simp only [Course.tick, Option.isSome_map] at hu
      obtain ⟨p, hdue⟩ := Option.isSome_iff_exists.mp hu
      exact decide_link _ hdue
  | work underway step => exact fun _ => h (by rw [underway]; rfl)
  | finish underway => exact fun hu => by cases hu
  | stop idle =>
      intro hu
      have hnone : c.stop.bench.underway = none := idle.1
      rw [hnone] at hu
      cases hu

theorem Reachable.isLinked [Task τ σ] {others : Others τ σ} {task : τ} {s : Store} {y : σ}
    (h : Reachable others task s y c) : c.IsLinked := by
  induction h with
  | refl => exact fun hu => by cases hu
  | tail _ hstep ih =>
      cases hstep with
      | own move => exact move.isLinked ih
      | others => exact ih

/-! ### The tick after a failed pass -/

/-- While a generation is unprocessed and no event waits that would end or cut the session, a tick
runs a pass on it if the worker is not disconnected, or if a waiting event says that it is not. -/
theorem tick_underway_iff [Task τ σ] [LawfulTask τ] {id : SessionId} {generation : Nat}
    (hid : c.bench.worker.session = some id) (hlt : c.bench.worker.processed < generation)
    (hle : generation ≤ c.bench.worker.generation) (harmless : AreHarmless (c.store.inbox id)) :
    (∃ a x, c.tick.bench.underway = some (a, x) ∧ a.session = id ∧
      generation ≤ a.pass.generation) ↔
    c.bench.worker.link ≠ .disconnected ∨ Connects (c.store.inbox id) := by
  let begun : Worker τ := { c.bench.worker with ticks := c.bench.worker.ticks + 1 }
  let settled : Worker τ := (begun.settle c.store receive receive).1
  obtain ⟨-, hkept, hlink⟩ := begun.settle_harmless c.store hid harmless
  have hadv : Advances begun settled := begun.advances_settle c.store
  have hadv' := settled.advances_decide c.shared c.bench.worker.ticks
  have hle' : generation ≤ settled.generation := Nat.le_trans hle hadv.generation_le
  have hlt' : settled.processed < settled.generation :=
    hadv.processed_eq ▸ Nat.lt_of_lt_of_le hlt hle'
  have hdecide : (∃ pass, (settled.decide c.shared c.bench.worker.ticks).1 = some (id, pass)) ↔
      settled.link ≠ .disconnected := settled.decide_eq_some_iff hkept hlt'
  have hunderway : c.tick.bench.underway =
      ((settled.decide c.shared c.bench.worker.ticks).1).map fun p =>
        ({ session := p.1, pass := p.2, began := c.bench.moment + 2 },
          Task.work (settled.decide c.shared c.bench.worker.ticks).2.task p.1 p.2) := rfl
  refine Iff.trans ?_ (hdecide.trans hlink)
  rw [hunderway]
  constructor
  · rintro ⟨a, x, hmap, ha, -⟩
    obtain ⟨⟨id', pass⟩, hdue, heq⟩ := Option.map_eq_some_iff.mp hmap
    cases heq
    exact ⟨pass, ha ▸ hdue⟩
  · rintro ⟨pass, hdue⟩
    obtain ⟨-, hgen, -⟩ := settled.decide_due hdue
    refine ⟨_, _, by rw [hdue]; rfl, rfl, ?_⟩
    exact hgen ▸ Nat.le_trans hle' hadv'.generation_le

/-- The tick after a pass that failed, with nothing in between, runs a pass for the same or a later
generation on the same session, unless the connection was lost or the time ran out; then it does so
only if an event waits that says that the session is connected. -/
theorem failed_pass_is_repeated_iff [Task τ σ] [LawfulTask τ] {others : Others τ σ} {t : τ}
    {s : Store} {y : σ} (h : Reachable others t s y c) {a : Account} {task : τ} {e : StoreError}
    (underway : c.bench.underway = some (a, .done (task, .error e)))
    (unexpired : e.code ≠ .sessionExpired) (harmless : AreHarmless (c.store.inbox a.session)) :
    (∃ a' x, (c.finish a task (.error e)).tick.bench.underway = some (a', x) ∧
      a'.session = a.session ∧ a.pass.generation ≤ a'.pass.generation) ↔
    (e.code ≠ .connectionLoss ∧ e.code ≠ .operationTimeout) ∨
      ∃ event ∈ c.store.inbox a.session, event.signal = .syncConnected := by
  obtain ⟨-, hlt, hle, hid⟩ := h.sound.underway _ _ underway
  have hlinked : c.bench.worker.link ≠ .disconnected := h.isLinked (by rw [underway]; rfl)
  have hend : (c.finish a task (.error e)).bench.worker =
      { c.bench.worker with
        task, link := if e.isConnectionLoss then .disconnected else c.bench.worker.link } :=
    congrArg Prod.fst (endPass_error _ c.store a.pass task unexpired)
  have hstore : (c.finish a task (.error e)).store = c.store :=
    congrArg Prod.snd (endPass_error _ c.store a.pass task unexpired)
  have hlink : (c.finish a task (.error e)).bench.worker.link ≠ .disconnected ↔
      e.code ≠ .connectionLoss ∧ e.code ≠ .operationTimeout := by
    rw [hend]
    unfold StoreError.isConnectionLoss
    by_cases hloss : e.code = .connectionLoss
    · simp [hloss]
    · by_cases htimeout : e.code = .operationTimeout
      · simp [htimeout]
      · simp [hloss, htimeout, hlinked]
  have hid' : (c.finish a task (.error e)).bench.worker.session = some a.session := by
    rw [hend]
    exact hid
  have hlt' : (c.finish a task (.error e)).bench.worker.processed < a.pass.generation := by
    rw [hend]
    exact hlt
  have hle' : a.pass.generation ≤ (c.finish a task (.error e)).bench.worker.generation := by
    rw [hend]
    exact hle
  have htick := tick_underway_iff hid' hlt' hle' (hstore ▸ harmless)
  rwa [hlink, hstore] at htick

/-- A worker whose only task is an attempt that fails. -/
def failing (code : StoreError.Code) : Rehearsal.Work := .chore ⟨[.fails ⟨code.text, code⟩], 0⟩

/-- A worker at the end of a pass that failed. -/
def failedOnce (code : StoreError.Code) : Course Rehearsal.Work (List Rehearsal.Entry) :=
  let c : Course Rehearsal.Work (List Rehearsal.Entry) := (start (failing code) {} []).tick
  { c with
    shared := [.pass ⟨1, 0, 2, .fails ⟨code.text, code⟩, 0⟩]
    bench :=
      { c.bench with
        underway := some (⟨1, ⟨0, 2⟩, 2, []⟩, .done (.chore ⟨[], 0⟩, .error ⟨code, "/work"⟩)) } }

theorem reachable_failedOnce (others : Others Rehearsal.Work (List Rehearsal.Entry))
    (code : StoreError.Code) : Reachable others (failing code) {} [] (failedOnce code) := by
  have hstart : Reachable others (failing code) {} [] (start (failing code) {} []) := .refl
  have htick := hstart.tail (.own (.tick ⟨rfl, rfl⟩))
  have hrun : (Task.work (failing code) 1 ⟨0, 2⟩).run 1 0
      ⟨(start (failing code) {} []).tick.store, [], {}⟩ =
        (.finished (.chore ⟨[], 0⟩, .error ⟨code, "/work"⟩),
          ⟨(failedOnce code).store, (failedOnce code).shared, {}⟩) := rfl
  have hpass : Relation.ReflTransGen Move (start (failing code) {} []).tick (failedOnce code) :=
    moves_steps (b := (failedOnce code).bench) (a := ⟨1, ⟨0, 2⟩, 2, []⟩) (Script.steps_run hrun)
  exact htick.trans (hpass.lift (fun d => d) fun _ _ hm => .own hm)

theorem failed_pass_is_repeated_of_noNode :
    ∃ a' x, ((failedOnce .noNode).finish ⟨1, ⟨0, 2⟩, 2, []⟩ (.chore ⟨[], 0⟩)
        (.error ⟨.noNode, "/work"⟩)).tick.bench.underway = some (a', x) ∧
      a'.session = 1 ∧ 2 ≤ a'.pass.generation :=
  (failed_pass_is_repeated_iff (reachable_failedOnce (fun _ _ _ => True) .noNode) rfl (by decide)
    (by decide)).mpr (.inl (by decide))

/-- After a timeout no pass is run, though the session is live and connected. -/
theorem timeout_is_not_repeated :
    let c := failedOnce .operationTimeout
    let e : StoreError := ⟨.operationTimeout, "/work"⟩
    Reachable (fun _ _ _ => True) (failing .operationTimeout) {} [] c ∧
      c.bench.underway = some (⟨1, ⟨0, 2⟩, 2, []⟩, .done (.chore ⟨[], 0⟩, .error e)) ∧
      c.store.session? 1 = some ⟨1, true⟩ ∧ c.store.inbox 1 = [] ∧
      (c.finish ⟨1, ⟨0, 2⟩, 2, []⟩ (.chore ⟨[], 0⟩) (.error e)).tick.bench.underway = none :=
  ⟨reachable_failedOnce _ _, rfl, by decide, by decide, rfl⟩

/-! ### Waiting for an event -/

/-- The worker waits for an event of its session that says that it is connected. -/
structure IsParked (id : SessionId) (c : Course τ σ) : Prop where
  idle : c.bench.IsIdle
  session : c.bench.worker.session = some id
  link : c.bench.worker.link = .disconnected
  noEvents : c.store.inbox id = []

namespace IsParked

variable {id : SessionId}

theorem trigger (h : c.IsParked id) : c.trigger.IsParked id :=
  ⟨h.idle, h.session, h.link, h.noEvents⟩

theorem tick [Task τ σ] (h : c.IsParked id) : c.tick.IsParked id := by
  let begun : Worker τ := { c.bench.worker with ticks := c.bench.worker.ticks + 1 }
  obtain ⟨hstore, hkept, hlink⟩ := begun.settle_harmless c.store h.session
    (by simp [AreHarmless, h.noEvents])
  have hlink' : (begun.settle c.store receive receive).1.link = .disconnected := by
    simpa [h.noEvents, Connects, begun, h.link] using hlink
  have hbegin : c.bench.worker.beginTick c.store receive receive c.shared =
      (none, begun.settle c.store receive receive) := by
    unfold beginTick
    dsimp only
    rw [decide_of_disconnected _ hlink']
  have htick : c.tick.bench.worker = (begun.settle c.store receive receive).1 ∧
      c.tick.store = (begun.settle c.store receive receive).2 ∧
      c.tick.bench.underway = none ∧ c.tick.bench.isOver = c.bench.isOver := by
    simp [Course.tick, hbegin]
  obtain ⟨hworker, hstore', hnone, hover⟩ := htick
  refine ⟨⟨hnone, hover.trans h.idle.2⟩, hworker ▸ hkept, hworker ▸ hlink', ?_⟩
  rw [hstore', hstore, inbox_clearInbox_self]

end IsParked

/-- Others may do what they like, as long as no event is sent to the session. -/
def silent (τ σ : Type) (id : SessionId) : Others τ σ := fun _ _ after => after.1.inbox id = []

/-- Without an event nothing but its end gets a parked worker out. -/
theorem IsParked.step [Task τ σ] {id : SessionId} (h : c.IsParked id)
    (hs : Step (silent τ σ id) c d) :
    d.IsParked id ∨ (d.bench.isOver = true ∧ d.bench.underway = none) := by
  cases hs with
  | own move =>
      cases move with
      | trigger => exact .inl h.trigger
      | tick idle => exact .inl h.tick
      | work underway step => cases h.idle.1.symm.trans underway
      | finish underway => cases h.idle.1.symm.trans underway
      | stop idle => exact .inr ⟨rfl, idle.1⟩
  | others noEvents => exact .inl ⟨h.idle, h.session, h.link, noEvents⟩

theorem Step.over [Task τ σ] {others : Others τ σ} (hs : Step others c d)
    (h : c.bench.isOver = true ∧ c.bench.underway = none) :
    d.bench.isOver = true ∧ d.bench.underway = none := by
  cases hs with
  | own move =>
      cases move with
      | trigger => exact h
      | tick idle => exact absurd (h.1.symm.trans idle.2) (by simp)
      | work underway step => cases h.2.symm.trans underway
      | finish underway => cases h.2.symm.trans underway
      | stop idle => exact absurd (h.1.symm.trans idle.2) (by simp)
  | others => exact h

/-- However long the run, a parked worker begins no pass as long as no event reaches its session. -/
theorem IsParked.run [Task τ σ] {id : SessionId} (h : c.IsParked id)
    (hrun : Relation.ReflTransGen (Step (silent τ σ id)) c d) :
    d.IsParked id ∨ (d.bench.isOver = true ∧ d.bench.underway = none) := by
  induction hrun with
  | refl => exact .inl h
  | tail _ hs ih =>
      rcases ih with ih | ih
      · exact ih.step hs
      · exact .inr (hs.over ih)

/-- After a pass that lost the connection or ran out of time, with no event waiting, there is no
pass any more until an event reaches the session. -/
theorem no_pass_after_loss [Task τ σ] [LawfulTask τ] {others : Others τ σ} {t : τ} {s : Store}
    {y : σ} (h : Reachable others t s y c) {a : Account} {task : τ} {e : StoreError}
    (underway : c.bench.underway = some (a, .done (task, .error e)))
    (lost : e.isConnectionLoss = true) (runs : c.bench.isOver = false)
    (noEvents : c.store.inbox a.session = [])
    (hrun : Relation.ReflTransGen (Step (silent τ σ a.session)) (c.finish a task (.error e)) d) :
    d.bench.underway = none := by
  obtain ⟨-, -, -, hid⟩ := h.sound.underway _ _ underway
  have hend : c.bench.worker.endPass c.store a.pass task (.error e) =
      ({ c.bench.worker with task, link := .disconnected }, c.store) := by
    unfold endPass
    dsimp only
    rw [if_pos lost]
  have hparked : (c.finish a task (.error e)).IsParked a.session :=
    ⟨⟨rfl, runs⟩, (congrArg (·.1.session) hend).trans hid, congrArg (·.1.link) hend,
      (congrArg (·.2.inbox a.session) hend).trans noEvents⟩
  rcases hparked.run hrun with hparked' | hover
  · exact hparked'.idle.1
  · exact hover.2

end Course

end Worker

end ServiceRegistry
