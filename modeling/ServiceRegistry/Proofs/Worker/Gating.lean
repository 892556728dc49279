import ServiceRegistry.Proofs.Worker.Retries

/-! # Work is gated by the connection

What a worker goes through is told by marks: it opens a session, takes an event, begins a pass, and
a pass fails (`Worker.Mark`). A life of a worker is any run of it over any store: before the events
are taken, before a session is opened and before the events are taken again, there can be any store,
and a pass can end in any way (`Worker.Life`).

A pass is begun on the session that is held, for a generation above the last processed one. Once the
connection of a session was lost no pass is begun until an event says that it is back or another
session is opened, and a session that ended is done with (`Worker.work_is_gated`). One step adds one
mark, and each way to do so keeps `Worker.Gate`. -/

namespace ServiceRegistry

namespace Worker

variable {τ σ : Type}

/-! ### Marks -/

/-- What a worker goes through that says when it may work. -/
inductive Mark where
  | opened (id : SessionId)
  /-- An event of the session that is held is taken. -/
  | took (id : SessionId) (e : Store.Event)
  /-- A pass begins on a session. -/
  | began (id : SessionId) (pass : Pass)
  /-- A pass on a session fails. -/
  | failed (id : SessionId) (e : StoreError)

namespace Mark

/-- The session that it is about. -/
def session : Mark → SessionId
  | opened id => id
  | took id _ => id
  | began id _ => id
  | failed id _ => id

/-- The connection of a session is lost. -/
def Loses (id : SessionId) : Mark → Prop
  | took i e => i = id ∧ e.signal = .disconnected
  | failed i e => i = id ∧ e.isConnectionLoss = true
  | _ => False

/-- A session is connected again, or another one is opened. -/
def Restores (id : SessionId) : Mark → Prop
  | opened i => i ≠ id
  | took i e => i = id ∧ e.signal = .syncConnected
  | _ => False

/-- A session ends. -/
def Ends (id : SessionId) : Mark → Prop
  | took i e => i = id ∧ e.signal = .expired
  | failed i e => i = id ∧ e.isSessionExpired = true
  | _ => False

variable {id : SessionId} {m : Mark}

theorem Loses.session_eq (h : m.Loses id) : m.session = id := by
  cases m with
  | opened | began => exact h.elim
  | took | failed => exact h.1

theorem Ends.session_eq (h : m.Ends id) : m.session = id := by
  cases m with
  | opened | began => exact h.elim
  | took | failed => exact h.1

end Mark

/-- The connection of a session was lost and is not back. The latest mark comes first. -/
def IsDown (id : SessionId) : List Mark → Prop
  | [] => False
  | m :: ms => m.Loses id ∨ ¬m.Restores id ∧ IsDown id ms

/-- A session has ended. -/
def HasEnded (id : SessionId) (ms : List Mark) : Prop := ∃ m ∈ ms, m.Ends id

/-- No mark is about a session that ended before, and no pass begins while a connection is down. -/
def IsGated : List Mark → Prop
  | [] => True
  | m :: ms => (¬HasEnded m.session ms) ∧
      (∀ id pass, m = .began id pass → ∀ lost, ¬IsDown lost ms) ∧ IsGated ms

variable {ms : List Mark} {id : SessionId}

theorem IsDown.exists_mem (h : IsDown id ms) : ∃ m ∈ ms, m.session = id := by
  induction ms with
  | nil => exact h.elim
  | cons m ms ih =>
      rcases h with hm | ⟨-, h⟩
      · exact ⟨m, List.mem_cons_self, hm.session_eq⟩
      · obtain ⟨m', hm', hid⟩ := ih h
        exact ⟨m', List.mem_cons_of_mem _ hm', hid⟩

/-- A connection that was lost is down as long as nothing brings it back. -/
theorem isDown_append {between earlier : List Mark} {m : Mark} (hm : m.Loses id)
    (h : ∀ m' ∈ between, ¬m'.Restores id) : IsDown id (between ++ m :: earlier) := by
  induction between with
  | nil => exact .inl hm
  | cons m' between ih =>
      exact .inr ⟨h m' List.mem_cons_self, ih fun m'' h' => h m'' (List.mem_cons_of_mem _ h')⟩

theorem IsGated.of_append {later earlier : List Mark} (h : IsGated (later ++ earlier)) :
    IsGated earlier := by
  induction later with
  | nil => exact h
  | cons m later ih => exact ih h.2.2

/-- Nothing is heard any more of a session that has ended. -/
theorem IsGated.session_ne {later earlier : List Mark} {m : Mark}
    (h : IsGated (later ++ m :: earlier)) (hm : m.Ends id) : ∀ m' ∈ later, m'.session ≠ id := by
  induction later with
  | nil => exact fun m' h' => by cases h'
  | cons m₁ later ih =>
      intro m' hm'
      rcases List.mem_cons.mp hm' with rfl | hm'
      · rintro rfl
        exact h.1 ⟨m, by simp, hm⟩
      · exact ih h.2.2 m' hm'

/-! ### What each step adds -/

/-- What the marks say about a worker: sessions are opened before anything else is heard of them,
and a worker that has lost its connection, or whose session has ended, knows it. -/
structure Gate (ms : List Mark) (w : Worker τ) : Prop where
  opened : ∀ id, w.session = some id → .opened id ∈ ms
  known : ∀ m ∈ ms, .opened m.session ∈ ms
  down : ∀ id, IsDown id ms → w.link = .disconnected ∧ ∀ id', w.session = some id' → id' = id
  ended : ∀ id, HasEnded id ms → w.session ≠ some id
  gated : IsGated ms

namespace Gate

variable {w w' : Worker τ}

theorem start (task : τ) : Gate [] ({ task } : Worker τ) where
  opened id h := by cases h
  known m h := by cases h
  down id h := h.elim
  ended id h := by
    obtain ⟨m, hm, -⟩ := h
    cases hm
  gated := trivial

/-- Nothing is heard, and the worker opens no session and is not connected again. -/
theorem mono (h : Gate ms w) (hsession : ∀ id, w'.session = some id → w.session = some id)
    (hlink : w.link = .disconnected → w'.link = .disconnected) : Gate ms w' where
  opened id hid := h.opened id (hsession id hid)
  known := h.known
  down id hdown :=
    ⟨hlink (h.down id hdown).1, fun id' hid' => (h.down id hdown).2 id' (hsession id' hid')⟩
  ended id hended hid := h.ended id hended (hsession id hid)
  gated := h.gated

/-- Something is heard of the session that is held, and it is kept or given up. -/
theorem hear {m : Mark} (h : Gate ms w) (hid : w.session = some id) (hm : m.session = id)
    (hsession : w'.session = some id ∧ ¬m.Ends id ∨ w'.session = none)
    (hlost : m.Loses id → w'.link = .disconnected)
    (hdown : ¬m.Restores id → w.link = .disconnected → w'.link = .disconnected)
    (hbegan : ∀ i pass, m = .began i pass → w.link ≠ .disconnected) : Gate (m :: ms) w' := by
  have hsome : ∀ i, w'.session = some i → i = id := by
    intro i hi
    rcases hsession with ⟨hsome, -⟩ | hnone
    · exact Option.some.inj (hi.symm.trans hsome)
    · cases hi.symm.trans hnone
  refine ⟨fun i hi => ?_, fun m' hm' => ?_, fun i hi => ?_, fun i hi => ?_, ?_, ?_, h.gated⟩
  · obtain rfl := hsome i hi
    exact List.mem_cons_of_mem _ (h.opened i hid)
  · rcases List.mem_cons.mp hm' with rfl | hm'
    · exact List.mem_cons_of_mem _ (hm ▸ h.opened _ hid)
    · exact List.mem_cons_of_mem _ (h.known m' hm')
  · rcases hi with hloses | ⟨hrestores, hi⟩
    · obtain rfl : id = i := hm.symm.trans hloses.session_eq
      exact ⟨hlost hloses, hsome⟩
    · obtain ⟨hlink, hheld⟩ := h.down i hi
      obtain rfl := hheld id hid
      exact ⟨hdown hrestores hlink, hsome⟩
  · intro hheld
    obtain rfl := hsome i hheld
    obtain ⟨m', hm', hends⟩ := hi
    rcases List.mem_cons.mp hm' with rfl | hm'
    · rcases hsession with ⟨-, hgoes⟩ | hnone
      · exact hgoes hends
      · cases hheld.symm.trans hnone
    · exact h.ended i ⟨m', hm', hends⟩ hid
  · exact fun hended => h.ended _ hended (hm ▸ hid)
  · exact fun i pass hm' lost hlost => hbegan i pass hm' (h.down lost hlost).1

theorem note (h : Gate ms w) (hid : w.session = some id) {e : Store.Event}
    (he : e.signal ≠ .expired) : Gate (.took id e :: ms) (w.note e) := by
  refine h.hear hid rfl (.inl ⟨(w.note_session e).trans hid, fun hends => he hends.2⟩)
    (fun hloses => ?_) (fun hrestores hlink => ?_) nofun
  · simp [Worker.note, hloses.2]
  · have hsync : e.signal ≠ .syncConnected := fun hsync => hrestores ⟨rfl, hsync⟩
    unfold Worker.note
    split
    · exact absurd ‹_› hsync
    all_goals first | rfl | exact hlink

theorem close_link (w : Worker τ) (s : Store) : (w.close s).1.link = .disconnected := by
  unfold close
  split <;> rfl

/-- What is heard of the session makes the worker give it up. -/
theorem close {m : Mark} (h : Gate ms w) (hid : w.session = some id) (hm : m.session = id)
    (hbegan : ∀ i pass, m ≠ .began i pass) (s : Store) : Gate (m :: ms) (w.close s).1 :=
  h.hear hid hm (.inr (w.close_session s)) (fun _ => close_link w s) (fun _ _ => close_link w s)
    fun i pass hm' => absurd hm' (hbegan i pass)

/-- A session is opened that was not opened before. -/
theorem opening (h : Gate ms w) (hnew : .opened id ∉ ms) (hsession : w'.session = some id) :
    Gate (.opened id :: ms) w' := by
  have hother : ∀ i, (∃ m ∈ ms, m.session = i) → i ≠ id := by
    rintro _ ⟨m, hm, rfl⟩ rfl
    exact hnew (h.known m hm)
  have hended : ∀ i, HasEnded i ms → i ≠ id := fun i ⟨m, hm, hends⟩ =>
    hother i ⟨m, hm, hends.session_eq⟩
  refine ⟨fun i hi => ?_, fun m hm => ?_, fun i hi => ?_, fun i hi hheld => ?_, ?_, nofun, h.gated⟩
  · cases hsession.symm.trans hi
    exact List.mem_cons_self
  · rcases List.mem_cons.mp hm with rfl | hm
    · exact List.mem_cons_self
    · exact List.mem_cons_of_mem _ (h.known m hm)
  · rcases hi with hloses | ⟨hrestores, hi⟩
    · exact hloses.elim
    · exact absurd (Ne.symm (hother i hi.exists_mem)) hrestores
  · cases hsession.symm.trans hheld
    obtain ⟨m, hm, hends⟩ := hi
    rcases List.mem_cons.mp hm with rfl | hm
    · exact hends.elim
    · exact hended id ⟨m, hm, hends⟩ rfl
  · exact fun hi => hended id hi rfl

end Gate

/-! ### Ticks over any store -/

variable (w : Worker τ)

/-- Events are taken up to the one that says that the session has ended. -/
def heedMarks (id : SessionId) : List Store.Event → List Mark → List Mark
  | [], ms => ms
  | e :: es, ms =>
    if e.signal = .expired then .took id e :: ms else heedMarks id es (.took id e :: ms)

/-- What is taken when the events are in the inbox of a store. -/
def receiveMarks (s : Store) (ms : List Mark) : List Mark :=
  match w.session with
  | none => ms
  | some id => heedMarks id (s.inbox id) ms

/-- The session that a store opens. -/
def openMarks (s : Store) (ms : List Mark) : List Mark :=
  match w.session, s.connect.1 with
  | none, .ok id => .opened id :: ms
  | _, _ => ms

/-- The start of a tick, with one store when the events are taken, one when a session is opened and
one when the events are taken again. -/
def tickOn [Task τ σ] (s₁ s₂ s₃ : Store) (x : σ) : Option (SessionId × Pass) × Worker τ :=
  let (due, w, _) :=
    w.beginTick s₁ (fun w _ => ((w.receive s₁).1, s₂)) (fun w _ => w.receive s₃) x
  (due, w)

/-- The marks of what comes first in a tick. -/
def settleMarks (s₁ s₂ s₃ : Store) (ms : List Mark) : List Mark :=
  let taken := w.receiveMarks s₁ ms
  let w := (w.receive s₁).1
  if w.link = .connected then taken
  else (w.open' s₂).1.receiveMarks s₃ (w.openMarks s₂ taken)

/-- The marks of a tick. -/
def tickMarks [Task τ σ] (s₁ s₂ s₃ : Store) (x : σ) (ms : List Mark) : List Mark :=
  let settled := { w with ticks := w.ticks + 1 }.settleMarks s₁ s₂ s₃ ms
  match (w.tickOn s₁ s₂ s₃ x).1 with
  | none => settled
  | some (id, pass) => .began id pass :: settled

/-- The mark of the end of a pass. -/
def endMarks (id : SessionId) (result : Except StoreError Bool) (ms : List Mark) : List Mark :=
  match result with
  | .ok _ => ms
  | .error e => .failed id e :: ms

/-- A run of a worker over any store, with its marks, the latest first, and the pass that is under
way. A session that is opened is none that was opened before. -/
inductive Life [Task τ σ] : List Mark → Worker τ → Option (SessionId × Pass) → Prop
  | start (task : τ) : Life [] { task } none
  | trigger {ms : List Mark} {w : Worker τ} {due : Option (SessionId × Pass)}
      (h : Life ms w due) : Life ms w.trigger due
  | tick {ms : List Mark} {w : Worker τ} (h : Life ms w none) (s₁ s₂ s₃ : Store) (x : σ)
      (new : .opened (s₂.opened + 1) ∉ ms) :
      Life (w.tickMarks s₁ s₂ s₃ x ms) (w.tickOn s₁ s₂ s₃ x).2 (w.tickOn s₁ s₂ s₃ x).1
  | endPass {ms : List Mark} {w : Worker τ} {id : SessionId} {pass : Pass}
      (h : Life ms w (some (id, pass))) (s : Store) (task : τ) (result : Except StoreError Bool) :
      Life (endMarks id result ms) (w.endPass s pass task result).1 none
  | stop {ms : List Mark} {w : Worker τ} (h : Life ms w none) (s : Store) :
      Life ms (w.close s).1 none

namespace Gate

variable {w : Worker τ}

theorem heed (h : Gate ms w) (hid : w.session = some id) (s : Store) (es : List Store.Event) :
    Gate (heedMarks id es ms) (w.heed s es).1 := by
  induction es generalizing w ms with
  | nil => exact h
  | cons e es ih =>
      unfold heedMarks Worker.heed
      split
      · exact h.close hid rfl (fun _ _ hm => by cases hm) s
      · next he => exact ih (h.note hid he) ((w.note_session e).trans hid)

theorem receive (h : Gate ms w) (s : Store) : Gate (w.receiveMarks s ms) (w.receive s).1 := by
  unfold receiveMarks Worker.receive
  cases hid : w.session with
  | none => exact h
  | some id => exact h.heed hid _ _

theorem open' (h : Gate ms w) (s : Store) (hnew : .opened (s.opened + 1) ∉ ms) :
    Gate (w.openMarks s ms) (w.open' s).1 := by
  unfold openMarks Worker.open'
  cases hid : w.session with
  | some id => exact h
  | none =>
      rcases s.connect_cases with ⟨code, s', hc, -, -⟩ | hc
      · rw [hc]
        exact h
      · rw [hc]
        exact h.opening hnew rfl

/-- Taking events adds nothing on opened sessions. -/
theorem opened_mem_receiveMarks {s : Store} (h : .opened id ∈ w.receiveMarks s ms) :
    .opened id ∈ ms := by
  have hheed : ∀ i es ms, .opened id ∈ heedMarks i es ms → .opened id ∈ ms := by
    intro i es
    induction es with
    | nil => exact fun ms h => h
    | cons e es ih =>
        intro ms h
        unfold heedMarks at h
        split at h
        · simpa using h
        · simpa using ih _ h
  unfold receiveMarks at h
  split at h
  · exact h
  · exact hheed _ _ _ h

theorem opened_mem_endMarks {i : SessionId} {result : Except StoreError Bool}
    (h : .opened id ∈ endMarks i result ms) : .opened id ∈ ms := by
  cases result with
  | ok complete => exact h
  | error e => simpa [endMarks] using h

theorem settle (h : Gate ms w) (s₁ s₂ s₃ : Store) (hnew : .opened (s₂.opened + 1) ∉ ms) :
    Gate (w.settleMarks s₁ s₂ s₃ ms) (w.settle s₁ (fun w _ => ((w.receive s₁).1, s₂))
      (fun w _ => w.receive s₃)).1 := by
  unfold settleMarks Worker.settle
  dsimp only
  split
  · exact h.receive s₁
  · have hopened := (h.receive s₁).open' s₂ fun hmem => hnew (opened_mem_receiveMarks hmem)
    exact hopened.receive s₃

theorem decide_keeps_link [Task τ σ] (w : Worker τ) (x : σ) (tick : Nat) :
    (w.decide x tick).2.link = w.link := by
  unfold decide
  split
  · rfl
  · dsimp only
    split
    all_goals rfl

theorem tick [Task τ σ] (h : Gate ms w) (s₁ s₂ s₃ : Store) (x : σ)
    (hnew : .opened (s₂.opened + 1) ∉ ms) :
    Gate (w.tickMarks s₁ s₂ s₃ x ms) (w.tickOn s₁ s₂ s₃ x).2 := by
  let begun : Worker τ := { w with ticks := w.ticks + 1 }
  let settled := (begun.settle s₁ (fun w _ => ((w.receive s₁).1, s₂)) (fun w _ => w.receive s₃)).1
  have hbegun : Gate ms begun := h.mono (fun _ hid => hid) fun hlost => hlost
  have hsettled : Gate (begun.settleMarks s₁ s₂ s₃ ms) settled := hbegun.settle s₁ s₂ s₃ hnew
  have hsession := settled.decide_session x w.ticks
  have hlink := decide_keeps_link settled x w.ticks
  have hdecided : Gate (begun.settleMarks s₁ s₂ s₃ ms) (w.tickOn s₁ s₂ s₃ x).2 :=
    hsettled.mono (fun _ hid => hsession ▸ hid) fun hlost => hlink.trans hlost
  unfold tickMarks
  dsimp only
  split
  · exact hdecided
  · next id pass hdue =>
    have hid := (decide_due settled hdue).1
    exact hdecided.hear hid rfl (.inl ⟨hid, fun hends => hends⟩) (fun hloses => hloses.elim)
      (fun _ hlost => hlost) fun _ _ _ => decide_link settled hdue

theorem endPass (h : Gate ms w) (hid : w.session = some id) (s : Store) (pass : Pass) (task : τ)
    (result : Except StoreError Bool) :
    Gate (endMarks id result ms) (w.endPass s pass task result).1 := by
  have htask : Gate ms { w with task } := h.mono (fun _ hid => hid) fun hlost => hlost
  cases result with
  | ok complete =>
      refine h.mono (fun _ hid => hid) fun hlost => ?_
      simp [Worker.endPass, hlost]
  | error e =>
      unfold Worker.endPass endMarks
      dsimp only
      split
      · next hloss =>
        have hgoes : ¬Mark.Ends id (.failed id e) := by
          rintro ⟨-, hexpired⟩
          simp [StoreError.isConnectionLoss, StoreError.isSessionExpired] at hloss hexpired
          simp [hexpired] at hloss
        exact h.hear hid rfl (.inl ⟨hid, hgoes⟩) (fun _ => rfl) (fun _ _ => rfl)
          fun _ _ hm => by cases hm
      · next hloss =>
        split
        · exact htask.close hid rfl (fun _ _ hm => by cases hm) s
        · next hexpired =>
          exact h.hear hid rfl (.inl ⟨hid, fun hends => hexpired hends.2⟩)
            (fun hloses => absurd hloses.2 hloss) (fun _ hlost => hlost) fun _ _ hm => by cases hm

end Gate

/-! ### Lives -/

variable {w : Worker τ} {due : Option (SessionId × Pass)}

/-- All through a life the gate is kept, and the pass under way runs on the session that is held,
for a generation above the last processed one. -/
theorem Life.gate [Task τ σ] (h : Life ms w due) :
    Gate ms w ∧ ∀ id pass, due = some (id, pass) →
      w.session = some id ∧ w.processed < pass.generation := by
  induction h with
  | start task => exact ⟨.start task, nofun⟩
  | trigger _ ih => exact ⟨ih.1.mono (fun _ hid => hid) fun hlost => hlost, ih.2⟩
  | tick _ s₁ s₂ s₃ x new ih =>
      refine ⟨ih.1.tick s₁ s₂ s₃ x new, fun id pass hdue => ?_⟩
      obtain ⟨hid, -, hlt⟩ := decide_due _ hdue
      exact ⟨hid, hlt⟩
  | endPass _ s task result ih =>
      exact ⟨ih.1.endPass (ih.2 _ _ rfl).1 s _ task result, nofun⟩
  | stop _ s ih =>
      refine ⟨ih.1.mono (fun id hid => ?_) fun _ => Gate.close_link _ s, nofun⟩
      cases (close_session _ s).symm.trans hid

/-! ### Runs are lives -/

/-- The marks of what comes first in a tick open no session but the next one. -/
theorem opened_mem_settleMarks {s₁ s₂ s₃ : Store} (h : .opened id ∈ w.settleMarks s₁ s₂ s₃ ms) :
    .opened id ∈ ms ∨ (w.receive s₁).1.link ≠ .connected ∧
      id = ((w.receive s₁).1.open' s₂).2.opened := by
  unfold settleMarks at h
  dsimp only at h
  split at h
  · exact .inl (Gate.opened_mem_receiveMarks h)
  · next hlink =>
    have hopen := Gate.opened_mem_receiveMarks h
    unfold openMarks at hopen
    unfold open'
    cases hheld : (w.receive s₁).1.session with
    | some held =>
        simp only [hheld] at hopen
        exact .inl (Gate.opened_mem_receiveMarks hopen)
    | none =>
        rcases s₂.connect_cases with ⟨code, s', hc, -, -⟩ | hc
        · simp only [hheld, hc] at hopen
          exact .inl (Gate.opened_mem_receiveMarks hopen)
        · simp only [hheld, hc, List.mem_cons, Mark.opened.injEq] at hopen ⊢
          rcases hopen with rfl | hopen
          · exact .inr ⟨hlink, rfl⟩
          · exact .inl (Gate.opened_mem_receiveMarks hopen)

theorem endPass_opened (w : Worker τ) (s : Store) (pass : Pass) (task : τ)
    (result : Except StoreError Bool) : (w.endPass s pass task result).2.opened = s.opened := by
  unfold endPass
  dsimp only
  split
  · rfl
  · split
    · rfl
    · split
      · exact close_opened _ s
      · rfl

namespace Course

variable [Task τ σ] {c d : Course τ σ}

/-- The tick of a course is a tick on the stores that come one after the other in it. -/
theorem exists_life_tick {ms : List Mark} (h : Life ms c.bench.worker none)
    (hms : ∀ id, .opened id ∈ ms → id ≤ c.store.opened) :
    ∃ ms', Life ms' c.tick.bench.worker
        (c.tick.bench.underway.map fun u => (u.1.session, u.1.pass)) ∧
      ∀ id, .opened id ∈ ms' → id ≤ c.tick.store.opened := by
  let begun : Worker τ := { c.bench.worker with ticks := c.bench.worker.ticks + 1 }
  let s₂ := (begun.receive c.store).2
  let s₃ := ((begun.receive c.store).1.open' s₂).2
  let out := c.bench.worker.tickOn c.store s₂ s₃ c.shared
  have hopened : s₂.opened = c.store.opened := begun.receive_opened c.store
  have hlife : Life (c.bench.worker.tickMarks c.store s₂ s₃ c.shared ms) out.2 out.1 :=
    h.tick c.store s₂ s₃ c.shared fun hmem => by
      have := hms _ hmem
      omega
  have hworker : c.tick.bench.worker = out.2 := rfl
  have hdue : c.tick.bench.underway.map (fun u => (u.1.session, u.1.pass)) = out.1 := by
    have hunderway : c.tick.bench.underway = out.1.map fun u =>
        ({ session := u.1, pass := u.2, began := c.bench.moment + 2 },
          Task.work out.2.task u.1 u.2) := rfl
    rw [hunderway, Option.map_map]
    exact Option.map_id'
  refine ⟨_, by rw [hworker, hdue]; exact hlife, fun id hid => ?_⟩
  have hsettled : .opened id ∈ begun.settleMarks c.store s₂ s₃ ms := by
    unfold tickMarks at hid
    dsimp only at hid
    split at hid
    · exact hid
    · simpa using hid
  rcases begun.opened_mem_settleMarks hsettled with hmem | ⟨hlink, rfl⟩
  · have hdeeds : Store.ByDeeds (Owns (c.bench.worker.Mine c.store) fun _ => True) c.store
        c.tick.store := c.bench.worker.byDeeds_beginTick c.store c.shared
    exact Nat.le_trans (hms id hmem) hdeeds.opened_le
  · have hstore : c.tick.store = (((begun.receive c.store).1.open' s₂).1.receive s₃).2 := by
      have hsettle : c.tick.store = (begun.settle c.store receive receive).2 := rfl
      rw [hsettle]
      unfold settle
      dsimp only
      rw [if_neg hlink]
    rw [hstore, receive_opened]

/-- Every run in which the store does not open a session twice is a life of the worker. -/
theorem Reachable.exists_life {others : Others τ σ} {task : τ} {s : Store} {y : σ}
    (h : Reachable others task s y c)
    (hothers : ∀ b before after, others b before after → before.1.opened ≤ after.1.opened) :
    ∃ ms, Life ms c.bench.worker (c.bench.underway.map fun u => (u.1.session, u.1.pass)) ∧
      ∀ id, .opened id ∈ ms → id ≤ c.store.opened := by
  induction h with
  | refl => exact ⟨[], .start task, fun id hid => by cases hid⟩
  | @tail d _ _ step ih =>
      obtain ⟨ms, hlife, hms⟩ := ih
      cases step with
      | others h => exact ⟨ms, hlife, fun id hid => Nat.le_trans (hms id hid) (hothers _ _ _ h)⟩
      | own move =>
          cases move with
          | trigger => exact ⟨ms, hlife.trigger, hms⟩
          | tick idle =>
              rw [idle.1] at hlife
              exact exists_life_tick hlife hms
          | work underway step =>
              rw [underway] at hlife
              refine ⟨ms, hlife, fun id hid => Nat.le_trans (hms id hid) ?_⟩
              rcases step.store_cases with ⟨r, -, rfl⟩ | ⟨-, rfl⟩
              · exact Store.opened_le_perform _ (.serve _ r)
              · exact Nat.le_refl _
          | @finish a task result underway =>
              have hopened : (d.finish a task result).store.opened = d.store.opened :=
                endPass_opened d.bench.worker d.store a.pass task result
              rw [underway] at hlife
              refine ⟨_, hlife.endPass d.store task result, fun id hid => ?_⟩
              rw [hopened]
              exact hms id (Gate.opened_mem_endMarks hid)
          | stop idle =>
              have hunderway : d.stop.bench.underway = none := idle.1
              have hopened : d.stop.store.opened = d.store.opened :=
                d.bench.worker.close_opened d.store
              rw [idle.1] at hlife
              rw [hunderway, hopened]
              exact ⟨ms, hlife.stop d.store, hms⟩

/-- So in every run the gate is kept, and a pass under way runs on the session that is held, for a
generation above the last processed one. -/
theorem Reachable.gate {others : Others τ σ} {task : τ} {s : Store} {y : σ}
    (h : Reachable others task s y c)
    (hothers : ∀ b before after, others b before after → before.1.opened ≤ after.1.opened) :
    ∃ ms, Life ms c.bench.worker (c.bench.underway.map fun u => (u.1.session, u.1.pass)) ∧
      Gate ms c.bench.worker ∧ ∀ a x, c.bench.underway = some (a, x) →
        c.bench.worker.session = some a.session ∧ c.bench.worker.processed < a.pass.generation := by
  obtain ⟨ms, hlife, -⟩ := h.exists_life hothers
  refine ⟨ms, hlife, hlife.gate.1, fun a x hu => hlife.gate.2 a.session a.pass ?_⟩
  rw [hu]
  rfl

end Course

/-! ### What waits for a session that has ended -/

/-- The end of a session is the last that is heard of it. -/
theorem heed_append (w : Worker τ) (s : Store) {e : Store.Event} (he : e.signal = .expired)
    (es es' : List Store.Event) : w.heed s (es ++ e :: es') = w.heed s (es ++ [e]) := by
  induction es generalizing w with
  | nil => simp [heed, he]
  | cons e' es ih =>
      simp only [List.cons_append, heed]
      split
      · rfl
      · exact ih _

theorem heed_worker (w : Worker τ) (s s' : Store) (es : List Store.Event) :
    (w.heed s es).1 = (w.heed s' es).1 := by
  induction es generalizing w with
  | nil => rfl
  | cons e es ih =>
      unfold heed
      split
      · unfold close
        split <;> rfl
      · exact ih _

/-- What waits for another session than the one that is held has no effect. -/
theorem receive_clearInbox (s : Store) (hid : w.session ≠ some id) :
    (w.receive (s.clearInbox id)).1 = (w.receive s).1 := by
  unfold receive
  cases hheld : w.session with
  | none => rfl
  | some held =>
      have hne : held ≠ id := by
        rintro rfl
        exact hid hheld
      dsimp only
      rw [s.inbox_clearInbox_of_ne held (Ne.symm hne)]
      exact heed_worker _ _ _ _

theorem tickOn_clearInbox [Task τ σ] (hid : w.session ≠ some id) (s₁ s₂ s₃ : Store) (x : σ)
    (hnew : s₂.opened + 1 ≠ id) :
    w.tickOn (s₁.clearInbox id) s₂ (s₃.clearInbox id) x = w.tickOn s₁ s₂ s₃ x := by
  let begun : Worker τ := { w with ticks := w.ticks + 1 }
  have hfirst : (begun.receive (s₁.clearInbox id)).1 = (begun.receive s₁).1 :=
    receive_clearInbox s₁ hid
  have hagain : (((begun.receive s₁).1.open' s₂).1.receive (s₃.clearInbox id)).1 =
      (((begun.receive s₁).1.open' s₂).1.receive s₃).1 := by
    refine receive_clearInbox s₃ fun hheld => ?_
    rcases open_session_eq _ s₂ hheld with hheld | rfl
    · exact hid (begun.receive_session s₁ hheld)
    · exact hnew rfl
  have hsettle : (begun.settle (s₁.clearInbox id)
        (fun w _ => ((w.receive (s₁.clearInbox id)).1, s₂))
        fun w _ => w.receive (s₃.clearInbox id)).1 =
      (begun.settle s₁ (fun w _ => ((w.receive s₁).1, s₂)) fun w _ => w.receive s₃).1 := by
    unfold settle
    dsimp only
    rw [hfirst]
    split
    · rfl
    · exact hagain
  exact congrArg (fun settled => settled.decide x w.ticks) hsettle

/-- Work is gated by the connection. A pass under way runs on the session that is held, for a
generation above the last processed one. After the connection of a session was lost, no pass begins
before that session is connected again or another one is opened. After a session has ended nothing
is heard of it any more: no pass begins on it, and what still waits for it has no effect.

Every run of a course is such a life (`Course.Reachable.exists_life`, `Course.Reachable.gate`). -/
theorem work_is_gated [Task τ σ] (h : Life ms w due) :
    (∀ id pass, due = some (id, pass) → w.session = some id ∧ w.processed < pass.generation) ∧
    (∀ later id pass between m earlier lost,
      ms = later ++ .began id pass :: (between ++ m :: earlier) → m.Loses lost →
        ∃ m' ∈ between, m'.Restores lost) ∧
    (∀ later m earlier id, ms = later ++ m :: earlier → m.Ends id →
      (∀ m' ∈ later, m'.session ≠ id) ∧
      ∀ s₁ s₂ s₃ (x : σ), .opened (s₂.opened + 1) ∉ ms →
        w.tickOn (s₁.clearInbox id) s₂ (s₃.clearInbox id) x = w.tickOn s₁ s₂ s₃ x) ∧
    (∀ s es (e : Store.Event) es', e.signal = .expired →
      w.heed s (es ++ e :: es') = w.heed s (es ++ [e])) := by
  obtain ⟨hgate, hdue⟩ := h.gate
  refine ⟨hdue, ?_, ?_, fun s es e es' he => heed_append w s he es es'⟩
  · rintro later id pass between m earlier lost rfl hloses
    apply Classical.byContradiction
    intro hnone
    refine hgate.gated.of_append.2.1 id pass rfl lost
      (isDown_append hloses fun m' hm' hrestores => ?_)
    exact hnone ⟨m', hm', hrestores⟩
  · intro later m earlier id hms hends
    have hended : HasEnded id ms := ⟨m, by simp [hms], hends⟩
    refine ⟨(hms ▸ hgate.gated).session_ne hends, fun s₁ s₂ s₃ x hnew => ?_⟩
    refine tickOn_clearInbox (hgate.ended id hended) s₁ s₂ s₃ x ?_
    rintro rfl
    obtain ⟨m', hm', hends'⟩ := hended
    exact hnew (hends'.session_eq ▸ hgate.known m' hm')

/-- Work that is done at once. -/
def resting : Rehearsal.Work := .chore ⟨[], 0⟩

/-- The connection of the first session is lost and comes back, and then the session ends. -/
theorem life_of_two_sessions :
    Life [.began 2 ⟨2, 3⟩, .opened 2, .failed 1 ⟨.sessionExpired, "/"⟩, .began 1 ⟨1, 2⟩,
        .took 1 ⟨.syncConnected, .none, none⟩, .failed 1 ⟨.connectionLoss, "/"⟩,
        .began 1 ⟨0, 2⟩, .opened 1]
      { task := resting, generation := 3, ticks := 3, session := some 2, link := .connecting }
      (some (2, ⟨2, 3⟩)) := by
  let posted := ({ opened := 1 } : Store).post 1 ⟨.syncConnected, .none, none⟩
  have hopened : Life [.began 1 ⟨0, 2⟩, .opened 1]
      { task := resting, generation := 2, ticks := 1, session := some 1, link := .connecting }
      (some (1, ⟨0, 2⟩)) := (Life.start resting).tick {} {} {} [] (by simp)
  have hback : Life [.began 1 ⟨1, 2⟩, .took 1 ⟨.syncConnected, .none, none⟩,
        .failed 1 ⟨.connectionLoss, "/"⟩, .began 1 ⟨0, 2⟩, .opened 1]
      { task := resting, generation := 2, ticks := 2, session := some 1, link := .connected }
      (some (1, ⟨1, 2⟩)) :=
    (hopened.endPass {} resting (.error ⟨.connectionLoss, "/"⟩)).tick posted { opened := 1 } {} []
      (by simp [endMarks])
  exact (hback.endPass {} resting (.error ⟨.sessionExpired, "/"⟩)).tick {} { opened := 1 } {} []
    (by simp [endMarks])

/-- The pass after the loss waited for the event, and the last one runs on the second session. -/
theorem work_is_gated_of_two_sessions :
    ∃ (ms : List Mark) (w : Worker Rehearsal.Work), Life ms w (some (2, ⟨2, 3⟩)) ∧
      w.session = some 2 ∧ w.processed < 3 ∧
      (∃ m' ∈ [Mark.took 1 ⟨.syncConnected, .none, none⟩], m'.Restores 1) ∧
      (∀ m' ∈ [Mark.began 2 ⟨2, 3⟩, .opened 2], m'.session ≠ 1) := by
  obtain ⟨hdue, hdown, hended, -⟩ := work_is_gated life_of_two_sessions
  obtain ⟨hsession, hlt⟩ := hdue _ _ rfl
  refine ⟨_, _, life_of_two_sessions, hsession, hlt, ?_, ?_⟩
  · exact hdown [_, _, _] 1 ⟨1, 2⟩ [_] (.failed 1 ⟨.connectionLoss, "/"⟩) _ 1 rfl ⟨rfl, rfl⟩
  · exact (hended [_, _] (.failed 1 ⟨.sessionExpired, "/"⟩) _ 1 rfl ⟨rfl, rfl⟩).1

end Worker

end ServiceRegistry
