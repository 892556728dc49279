import Mathlib.Data.List.Infix
import ServiceRegistry.Proofs.Store.Exactness
import ServiceRegistry.Proofs.Store.Sessions
import ServiceRegistry.Proofs.Worker.Deeds

/-! # Who has which session

A worker holds one session at a time and gives it up by closing it (`Worker.Handles`). The history
of a run lists all deeds on the store, those of the worker and those of others, in order
(`Course.History`); it tells which sessions the worker opened and which it closed, and played again
it leads to the present store.

However the run goes, at no moment of it are two of these sessions live. All of them but the one
that is held were closed exactly once, and a session that is held and has no events waiting is live.
After the end nothing is left of them but persistent nodes (`Course.sessions_are_owned`). -/

namespace ServiceRegistry

namespace Worker

open Store

variable {τ σ : Type}

/-! ### The deeds of a worker -/

section Deeds

variable (w : Worker τ) (s : Store)

/-- The deeds of closing the session, if there is one. -/
def closeDeeds : List Deed :=
  match w.session with
  | some id => [.close id, .takeEvents id]
  | none => []

/-- The deeds of opening a session if there is none. -/
def openDeeds : List Deed :=
  match w.session with
  | some _ => []
  | none => [.connect]

/-- The deeds that some events lead to. -/
def heedDeeds (w : Worker τ) : List Store.Event → List Deed
  | [] => []
  | e :: es => if e.signal = .expired then w.closeDeeds else heedDeeds (w.note e) es

/-- The deeds of taking the events that wait. -/
def receiveDeeds : List Deed :=
  match w.session with
  | none => []
  | some id => .takeEvents id :: w.heedDeeds (s.inbox id)

/-- The deeds at the start of a tick. -/
def settleDeeds : List Deed :=
  let (first, s') := w.receive s
  w.receiveDeeds s ++
    if first.link = .connected then []
    else first.openDeeds ++ (first.open' s').1.receiveDeeds (first.open' s').2

/-- The deeds at the end of a pass. -/
def endPassDeeds (result : Except StoreError Bool) : List Deed :=
  match result with
  | .ok _ => []
  | .error e =>
    if e.isConnectionLoss then [] else if e.isSessionExpired then w.closeDeeds else []

end Deeds

/-- Deeds of someone who holds at most one session. A session is opened only while none is held,
calls are made on the one that is held, and it is given up by closing it. -/
inductive Handles : Store → Option SessionId → List Deed → Store → Option SessionId → Prop
  | done (s : Store) (held : Option SessionId) : Handles s held [] s held
  | connect {s s' : Store} {held : Option SessionId} {ds : List Deed}
      (rest : Handles s.connect.2 s.connect.1.toOption ds s' held) :
      Handles s none (.connect :: ds) s' held
  | close {s s' : Store} {id : SessionId} {held : Option SessionId} {ds : List Deed}
      (rest : Handles (s.close id) none ds s' held) : Handles s (some id) (.close id :: ds) s' held
  | serve {s s' : Store} {id : SessionId} {held : Option SessionId} {ds : List Deed} (r : Request)
      (rest : Handles (s.serve id r).2 (some id) ds s' held) :
      Handles s (some id) (.serve id r :: ds) s' held
  | takeEvents {s s' : Store} {held held' : Option SessionId} {ds : List Deed} (id : SessionId)
      (rest : Handles (s.clearInbox id) held ds s' held') :
      Handles s held (.takeEvents id :: ds) s' held'

namespace Handles

theorem append {s s' s'' : Store} {held held' held'' : Option SessionId} {ds ds' : List Deed}
    (h : Handles s held ds s' held') (h' : Handles s' held' ds' s'' held'') :
    Handles s held (ds ++ ds') s'' held'' := by
  induction h with
  | done => exact h'
  | connect _ ih => exact .connect (ih h')
  | close _ ih => exact .close (ih h')
  | serve r _ ih => exact .serve r (ih h')
  | takeEvents id _ ih => exact .takeEvents id (ih h')

variable (w : Worker τ) (s : Store)

theorem of_close : Handles s w.session w.closeDeeds (w.close s).2 (w.close s).1.session := by
  unfold closeDeeds Worker.close
  cases w.session with
  | none => exact .done s none
  | some id => exact .close (.takeEvents id (.done _ none))

theorem of_open : Handles s w.session w.openDeeds (w.open' s).2 (w.open' s).1.session := by
  unfold openDeeds open'
  cases hsession : w.session with
  | some id => simpa [hsession] using Handles.done s (some id)
  | none =>
      refine .connect ?_
      rcases hconnect : s.connect with ⟨_ | id, s'⟩
      · simp only [hsession]
        exact .done s' none
      · exact .done s' (some id)

theorem of_heed (es : List Store.Event) :
    Handles s w.session (w.heedDeeds es) (w.heed s es).2 (w.heed s es).1.session := by
  induction es generalizing w with
  | nil => exact .done s _
  | cons e es ih =>
      unfold heedDeeds heed
      split
      · exact of_close w s
      · have hrest := ih (w.note e)
        rwa [note_session] at hrest

theorem of_receive :
    Handles s w.session (w.receiveDeeds s) (w.receive s).2 (w.receive s).1.session := by
  unfold receiveDeeds receive
  cases hsession : w.session with
  | none => simpa [hsession] using Handles.done s none
  | some id =>
      have hrest := of_heed w (s.clearInbox id) (s.inbox id)
      rw [hsession] at hrest
      exact .takeEvents id hrest

theorem of_settle : Handles s w.session (w.settleDeeds s) (w.settle s receive receive).2
    (w.settle s receive receive).1.session := by
  have hfirst := of_receive w s
  unfold settleDeeds settle
  dsimp only
  split
  · rw [List.append_nil]
    exact hfirst
  · exact hfirst.append ((of_open _ _).append (of_receive _ _))

theorem of_endPass (pass : Pass) (task : τ) (result : Except StoreError Bool) :
    Handles s w.session (w.endPassDeeds result) (w.endPass s pass task result).2
      (w.endPass s pass task result).1.session := by
  unfold endPassDeeds endPass
  cases result with
  | ok complete => exact .done s w.session
  | error e =>
      dsimp only
      split
      · exact .done s w.session
      · split
        · exact of_close { w with task } s
        · exact .done s w.session

end Handles

/-! ### Ledgers -/

/-- A deed on the store, and whether it is one of the worker. -/
structure Entry where
  isOwn : Bool
  deed : Deed

/-- The store after some deeds. -/
def replay (s : Store) (es : List Entry) : Store := es.foldl (fun s e => s.perform e.deed) s

/-- The session that the worker opens by a deed, if it does. -/
def Entry.opens (s : Store) : Entry → List SessionId
  | ⟨true, .connect⟩ => s.connect.1.toOption.toList
  | _ => []

/-- The session that the worker closes by a deed, if it does. -/
def Entry.closes : Entry → List SessionId
  | ⟨true, .close id⟩ => [id]
  | _ => []

/-- The sessions that the worker opened, in order. -/
def openedBy (s : Store) : List Entry → List SessionId
  | [] => []
  | e :: es => e.opens s ++ openedBy (s.perform e.deed) es

/-- The sessions for which the worker made a close call, in order, once for each call. -/
def closedBy (es : List Entry) : List SessionId := es.flatMap Entry.closes

theorem replay_concat (s : Store) (es : List Entry) (e : Entry) :
    replay s (es ++ [e]) = (replay s es).perform e.deed := by
  rw [replay, List.foldl_append]
  rfl

theorem openedBy_concat (s : Store) (es : List Entry) (e : Entry) :
    openedBy s (es ++ [e]) = openedBy s es ++ e.opens (replay s es) := by
  induction es generalizing s with
  | nil => simp [openedBy, replay]
  | cons first es ih =>
      rw [List.cons_append, openedBy, ih, openedBy, List.append_assoc]
      rfl

theorem closedBy_concat (es : List Entry) (e : Entry) :
    closedBy (es ++ [e]) = closedBy es ++ e.closes := by
  simp [closedBy]

theorem eq_of_mem_opens {s : Store} {e : Entry} {id : SessionId} (h : id ∈ e.opens s) :
    id = s.opened + 1 ∧ (s.perform e.deed).opened = s.opened + 1 := by
  obtain ⟨own, d⟩ := e
  cases own with
  | false => cases h
  | true =>
      cases d with
      | connect =>
          simp only [Entry.opens, Store.perform] at h ⊢
          rcases s.connect_cases with ⟨_, s', hc, -⟩ | hc
          · rw [hc] at h
            cases h
          · rw [hc] at h ⊢
            exact ⟨List.mem_singleton.mp h, rfl⟩
      | _ => cases h

/-- Of the sessions that the worker opened at most one is live. -/
def AtMostOneLive (s : Store) (ids : List SessionId) : Prop :=
  ∀ id ∈ ids, ∀ id' ∈ ids, s.IsLive id → s.IsLive id' → id = id'

/-- The deeds so far lead to the present store. What the worker opened it has closed, each session
once, but for the one that it holds. -/
structure Ledger (s₀ : Store) (es : List Entry) (s : Store) (held : Option SessionId) : Prop where
  replay_eq : replay s₀ es = s
  opened_eq : openedBy s₀ es = closedBy es ++ held.toList
  ascending : (openedBy s₀ es).Pairwise (· < ·)
  le_opened : ∀ id ∈ openedBy s₀ es, id ≤ s.opened
  gone : ∀ id ∈ closedBy es, ¬s.IsLive id
  moments : ∀ es', es' <+: es → AtMostOneLive (replay s₀ es') (openedBy s₀ es')

namespace Ledger

variable {s₀ s s' : Store} {es : List Entry} {held held' : Option SessionId}

theorem empty (s : Store) : Ledger s [] s none where
  replay_eq := rfl
  opened_eq := rfl
  ascending := .nil
  le_opened id h := by cases h
  gone id h := by cases h
  moments es' h := by
    rw [List.prefix_nil.mp h]
    exact fun id hid => by cases hid

theorem atMostOneLive (hopened : openedBy s₀ es = closedBy es ++ held.toList)
    (hgone : ∀ id ∈ closedBy es, ¬s.IsLive id) : AtMostOneLive s (openedBy s₀ es) := by
  have hheld : ∀ id ∈ openedBy s₀ es, s.IsLive id → held = some id := by
    intro id hid hlive
    rw [hopened] at hid
    rcases List.mem_append.mp hid with hid | hid
    · exact absurd hlive (hgone id hid)
    · simpa using hid
  intro id hid id' hid' hlive hlive'
  exact Option.some_inj.mp ((hheld id hid hlive).symm.trans (hheld id' hid' hlive'))

/-- A deed more. -/
theorem concat (h : Ledger s₀ es s held) (e : Entry)
    (hlist : held.toList ++ e.opens s = e.closes ++ held'.toList)
    (hends : ∀ id ∈ e.closes, ¬(s.perform e.deed).IsLive id) :
    Ledger s₀ (es ++ [e]) (s.perform e.deed) held' := by
  have hreplay : replay s₀ (es ++ [e]) = s.perform e.deed := by rw [replay_concat, h.replay_eq]
  have hopens : openedBy s₀ (es ++ [e]) = openedBy s₀ es ++ e.opens s := by
    rw [openedBy_concat, h.replay_eq]
  have hopened : openedBy s₀ (es ++ [e]) = closedBy (es ++ [e]) ++ held'.toList := by
    rw [hopens, h.opened_eq, closedBy_concat, List.append_assoc, hlist, List.append_assoc]
  have hgone : ∀ id ∈ closedBy (es ++ [e]), ¬(s.perform e.deed).IsLive id := by
    intro id hid
    rw [closedBy_concat] at hid
    rcases List.mem_append.mp hid with hid | hid
    · have hle : id ≤ s.opened :=
        h.le_opened id (h.opened_eq ▸ List.mem_append_left _ hid)
      exact not_isLive_perform hle (h.gone id hid) e.deed
    · exact hends id hid
  refine ⟨hreplay, hopened, ?_, ?_, hgone, ?_⟩
  · rw [hopens]
    refine List.pairwise_append.mpr ⟨h.ascending, ?_, fun id hid id' hid' => ?_⟩
    · obtain ⟨own, d⟩ := e
      unfold Entry.opens
      split
      · cases s.connect.1.toOption <;> simp
      · exact .nil
    · rw [(eq_of_mem_opens hid').1]
      exact Nat.lt_succ_of_le (h.le_opened id hid)
  · intro id hid
    rw [hopens] at hid
    rcases List.mem_append.mp hid with hid | hid
    · exact Nat.le_trans (h.le_opened id hid) (opened_le_perform s e.deed)
    · obtain ⟨rfl, hnew⟩ := eq_of_mem_opens hid
      exact Nat.le_of_eq hnew.symm
  · intro es' hes'
    rcases List.prefix_concat_iff.mp hes' with rfl | hes'
    · rw [hreplay]
      exact atMostOneLive hopened hgone
    · exact h.moments es' hes'

/-- A deed of someone else. -/
theorem other (h : Ledger s₀ es s held) (d : Deed) :
    Ledger s₀ (es ++ [⟨false, d⟩]) (s.perform d) held :=
  h.concat ⟨false, d⟩ (List.append_nil _) fun id hid => by cases hid

/-- The worker's own deeds. -/
theorem handles {ds : List Deed} (hds : Handles s held ds s' held') {es : List Entry}
    (h : Ledger s₀ es s held) : Ledger s₀ (es ++ ds.map (⟨true, ·⟩)) s' held' := by
  induction hds generalizing es with
  | done =>
      rw [List.map_nil, List.append_nil]
      exact h
  | connect _ ih =>
      have hfirst := ih (h.concat ⟨true, .connect⟩ rfl fun id hid => by cases hid)
      rwa [List.append_assoc] at hfirst
  | @close s _ id _ _ _ ih =>
      have hends : ∀ i ∈ Entry.closes ⟨true, .close id⟩, ¬(s.close id).IsLive i := by
        intro i hi
        rw [List.mem_singleton.mp hi]
        exact s.not_isLive_close id
      have hclosed : Ledger s₀ (_ ++ [⟨true, .close id⟩]) (s.close id) none :=
        h.concat ⟨true, .close id⟩ rfl hends
      have hfirst := ih hclosed
      rwa [List.append_assoc] at hfirst
  | serve r _ ih =>
      have hfirst := ih (h.concat ⟨true, .serve _ r⟩ (List.append_nil _) fun id hid => by cases hid)
      rwa [List.append_assoc] at hfirst
  | takeEvents id _ ih =>
      have hfirst := ih (h.concat ⟨true, .takeEvents id⟩ (List.append_nil _)
        fun id hid => by cases hid)
      rwa [List.append_assoc] at hfirst

end Ledger

/-! ### Sessions that are held -/

/-- A session that is held is live, or it has been told that it expired. -/
def IsAware (w : Worker τ) (s : Store) : Prop :=
  ∀ id, w.session = some id → s.IsLive id ∨ ∃ e ∈ s.inbox id, e.signal = .expired

/-- What others may do to the store: anything but what takes having the session. -/
def Foreign (held : Option SessionId) : Deed → Prop
  | .close id => held ≠ some id
  | .takeEvents id => held ≠ some id
  | .serve id _ => held ≠ some id
  | _ => True

namespace IsAware

variable {w : Worker τ} {s : Store}

/-- The session that is held is told of its end by any deed but its own close. -/
theorem perform (h : w.IsAware s) {d : Deed} (hclose : ∀ id, w.session = some id → d ≠ .close id)
    (htake : ∀ id, w.session = some id → d ≠ .takeEvents id) : w.IsAware (s.perform d) := by
  intro id hid
  rcases h id hid with hlive | ⟨e, he, hsignal⟩
  · exact (live_or_told hlive (hclose id hid)).imp_right fun hin => ⟨expired, hin, rfl⟩
  · have htells : Tells "" id s (s.perform d) := tells_perform s (htake id hid)
    exact .inr ⟨e, htells.inbox_subset he, hsignal⟩

theorem foreign (h : w.IsAware s) {d : Deed} (hd : Foreign w.session d) :
    w.IsAware (s.perform d) := by
  refine h.perform (fun id hid heq => ?_) fun id hid heq => ?_
  · subst heq
    exact hd hid
  · subst heq
    exact hd hid

theorem heed_of_session (s : Store) {es : List Store.Event} {id : SessionId}
    (h : (w.heed s es).1.session = some id) :
    (w.heed s es).2 = s ∧ ∀ e ∈ es, e.signal ≠ .expired := by
  induction es generalizing w with
  | nil => exact ⟨rfl, fun e he => by cases he⟩
  | cons e es ih =>
      unfold Worker.heed at h ⊢
      split at h
      · simp [close_session] at h
      · next hsignal =>
        rw [if_neg hsignal]
        obtain ⟨hstore, hrest⟩ := ih h
        refine ⟨hstore, fun e' he' => ?_⟩
        rcases List.mem_cons.mp he' with rfl | he'
        · exact hsignal
        · exact hrest e' he'

/-- After events were taken a session that is held is live. -/
theorem live_of_receive (h : w.IsAware s) {id : SessionId}
    (hid : (w.receive s).1.session = some id) : (w.receive s).2.IsLive id := by
  have hbefore := w.receive_session s hid
  unfold Worker.receive at hid ⊢
  simp only [hbefore] at hid ⊢
  obtain ⟨hstore, hnone⟩ := heed_of_session _ hid
  rw [hstore]
  rcases h id hbefore with hlive | ⟨e, he, hsignal⟩
  · exact hlive
  · exact absurd hsignal (hnone e he)

theorem opening (h : ∀ id, w.session = some id → s.IsLive id) :
    (w.open' s).1.IsAware (w.open' s).2 := by
  intro id hid
  unfold open' at hid ⊢
  cases hsession : w.session with
  | some id' =>
      simp only [hsession] at hid ⊢
      exact .inl (h id (hsession.trans hid))
  | none =>
      simp only [hsession] at hid ⊢
      rcases s.connect_cases with ⟨_, s', hc, -⟩ | hc
      · simp only [hc, hsession] at hid
        cases hid
      · simp only [hc] at hid ⊢
        cases hid
        refine .inl ?_
        simp [IsLive, session?, post]

theorem settle (h : w.IsAware s) :
    (w.settle s Worker.receive Worker.receive).1.IsAware
      (w.settle s Worker.receive Worker.receive).2 := by
  unfold Worker.settle
  dsimp only
  split
  · exact fun id hid => .inl (h.live_of_receive hid)
  · exact fun id hid => .inl ((opening fun id hid => h.live_of_receive hid).live_of_receive hid)

theorem endPass (h : w.IsAware s) (pass : Pass) (task : τ) (result : Except StoreError Bool) :
    (w.endPass s pass task result).1.IsAware (w.endPass s pass task result).2 := by
  unfold Worker.endPass
  cases result with
  | ok complete => exact h
  | error e =>
      dsimp only
      split
      · exact h
      · split
        · intro id hid
          rw [close_session] at hid
          cases hid
        · exact h

end IsAware

/-! ### Histories -/

namespace Course

/-- What the worker and those who hold its handle do, with the deeds that this is for the store. -/
inductive Act [Task τ σ] : Course τ σ → List Deed → Course τ σ → Prop
  | trigger (c : Course τ σ) : Act c [] c.trigger
  | tick {c : Course τ σ} (idle : c.bench.IsIdle) :
      Act c ({ c.bench.worker with ticks := c.bench.worker.ticks + 1 }.settleDeeds c.store) c.tick
  | work {c : Course τ σ} {a : Account} {x x' : Script σ (τ × Except StoreError Bool)}
      {e : Option Exchange} {s : Store} {y : σ} (underway : c.bench.underway = some (a, x))
      (step : x.Step a.session c.store c.shared e x' s y) :
      Act c (e.toList.map fun e => .serve a.session e.request)
        ⟨{ c.bench with underway := some (a.hear e, x') }, s, y⟩
  | finish {c : Course τ σ} {a : Account} {task : τ} {result : Except StoreError Bool}
      (underway : c.bench.underway = some (a, .done (task, result))) :
      Act c (c.bench.worker.endPassDeeds result) (c.finish a task result)
  | stop {c : Course τ σ} (idle : c.bench.IsIdle) : Act c c.bench.worker.closeDeeds c.stop

theorem move_iff_exists_act [Task τ σ] {c d : Course τ σ} : Move c d ↔ ∃ ds, Act c ds d := by
  constructor
  · rintro (_ | idle | ⟨underway, step⟩ | underway | idle)
    · exact ⟨_, .trigger c⟩
    · exact ⟨_, .tick idle⟩
    · exact ⟨_, .work underway step⟩
    · exact ⟨_, .finish underway⟩
    · exact ⟨_, .stop idle⟩
  · rintro ⟨ds, _ | idle | ⟨underway, step⟩ | underway | idle⟩
    · exact .trigger c
    · exact .tick idle
    · exact .work underway step
    · exact .finish underway
    · exact .stop idle

/-- After a tick the session is that with which the worker settled. -/
theorem tick_session [Task τ σ] (c : Course τ σ) : c.tick.bench.worker.session =
    (({ c.bench.worker with ticks := c.bench.worker.ticks + 1 } : Worker τ).settle c.store receive
      receive).1.session :=
  decide_session _ c.shared c.bench.worker.ticks

namespace Act

variable {c d : Course τ σ} {ds : List Deed}

/-- A worker whose pass runs on the session that it holds does nothing but handle sessions. -/
theorem handles [Task τ σ] (act : Act c ds d)
    (h : ∀ a x, c.bench.underway = some (a, x) → c.bench.worker.session = some a.session) :
    Handles c.store c.bench.worker.session ds d.store d.bench.worker.session := by
  cases act with
  | trigger => exact .done _ _
  | tick idle =>
      rw [tick_session]
      exact Handles.of_settle
        { c.bench.worker with ticks := c.bench.worker.ticks + 1 } c.store
  | @work a x _ _ _ _ underway step =>
      dsimp only
      rw [h a x underway]
      rcases step.store_cases with ⟨r, rfl, rfl⟩ | ⟨rfl, rfl⟩
      · exact .serve r (.done _ _)
      · exact .done _ _
  | @finish a task result underway =>
      exact Handles.of_endPass c.bench.worker c.store a.pass task result
  | stop idle => exact Handles.of_close c.bench.worker c.store

/-- It runs on that session to its end. -/
theorem underway [Task τ σ] (act : Act c ds d)
    (h : ∀ a x, c.bench.underway = some (a, x) → c.bench.worker.session = some a.session) :
    ∀ a x, d.bench.underway = some (a, x) → d.bench.worker.session = some a.session := by
  intro a x hunderway
  cases act with
  | trigger => exact h a x hunderway
  | tick idle =>
      obtain ⟨⟨id, pass⟩, hdue, heq⟩ := Option.map_eq_some_iff.mp hunderway
      cases heq
      exact (c.bench.worker.beginTick_due c.store c.shared id pass hdue).1
  | work underway step =>
      cases hunderway
      have hsession := h _ _ underway
      exact hsession
  | finish underway => cases hunderway
  | stop idle => cases idle.1.symm.trans hunderway

end Act

/-- A run with all deeds on the store, in order. Others may do anything to the shared state, and to
the store what does not take having the session that the worker holds. -/
inductive History [Task τ σ] (task : τ) (s₀ : Store) (y₀ : σ) : List Entry → Course τ σ → Prop
  | start : History task s₀ y₀ [] (start task s₀ y₀)
  | own {es : List Entry} {ds : List Deed} {c d : Course τ σ} (h : History task s₀ y₀ es c)
      (act : Act c ds d) : History task s₀ y₀ (es ++ ds.map (⟨true, ·⟩)) d
  | deed {es : List Entry} {c : Course τ σ} {d : Deed} (h : History task s₀ y₀ es c)
      (foreign : Foreign c.bench.worker.session d) :
      History task s₀ y₀ (es ++ [⟨false, d⟩]) { c with store := c.store.perform d }
  | shared {es : List Entry} {c : Course τ σ} (y : σ) (h : History task s₀ y₀ es c) :
      History task s₀ y₀ es { c with shared := y }

/-- Others do not use the session that the worker holds. -/
def amongOthers (τ σ : Type) : Others τ σ := fun b before after =>
  ByDeeds (Foreign b.worker.session) before.1 after.1

theorem History.deeds [Task τ σ] {task : τ} {s₀ s : Store} {y₀ : σ} {es : List Entry}
    {c : Course τ σ} (h : History task s₀ y₀ es c)
    (hdeeds : ByDeeds (Foreign c.bench.worker.session) c.store s) :
    ∃ es, History task s₀ y₀ es { c with store := s } := by
  obtain ⟨bench, store, y⟩ := c
  dsimp only at hdeeds ⊢
  induction hdeeds with
  | refl => exact ⟨es, h⟩
  | step _ hd ih =>
      obtain ⟨es, hes⟩ := ih
      exact ⟨_, .deed hes hd⟩

/-- Every run has its history. -/
theorem reachable_iff_exists_history [Task τ σ] {task : τ} {s₀ : Store} {y₀ : σ} {c : Course τ σ} :
    Reachable (amongOthers τ σ) task s₀ y₀ c ↔ ∃ es, History task s₀ y₀ es c := by
  constructor
  · intro h
    induction h with
    | refl => exact ⟨[], .start⟩
    | tail _ step ih =>
        obtain ⟨es, h⟩ := ih
        cases step with
        | own move =>
            obtain ⟨ds, act⟩ := move_iff_exists_act.mp move
            exact ⟨_, .own h act⟩
        | others deeds =>
            obtain ⟨es, h⟩ := h.deeds deeds
            exact ⟨es, .shared _ h⟩
  · rintro ⟨es, h⟩
    induction h with
    | start => exact .refl
    | own _ act ih => exact ih.tail (.own (move_iff_exists_act.mpr ⟨_, act⟩))
    | deed _ foreign ih => exact ih.tail (.others (.single foreign _))
    | shared y _ ih => exact ih.tail (.others (.refl _))

/-! ### What holds all through a run -/

/-- The ledger is kept, and the worker is aware of the end of its session. -/
structure Tenure (s₀ : Store) (es : List Entry) (c : Course τ σ) : Prop where
  ledger : Ledger s₀ es c.store c.bench.worker.session
  underway : ∀ a x, c.bench.underway = some (a, x) → c.bench.worker.session = some a.session
  closed : c.bench.isOver = true → c.bench.underway = none ∧ c.bench.worker.session = none
  aware : c.bench.worker.IsAware c.store

namespace Tenure

variable {s₀ : Store} {es : List Entry} {c d : Course τ σ}

theorem start (task : τ) (s : Store) (y : σ) : Tenure s [] (Course.start task s y) where
  ledger := .empty s
  underway a x h := by cases h
  closed h := by cases h
  aware id hid := by cases hid

theorem act [Task τ σ] {ds : List Deed} (h : Tenure s₀ es c) (act : Act c ds d) :
    Tenure s₀ (es ++ ds.map (⟨true, ·⟩)) d where
  ledger := h.ledger.handles (act.handles h.underway)
  underway := act.underway h.underway
  closed hover := by
    cases act with
    | trigger => exact h.closed hover
    | tick idle => cases idle.2.symm.trans hover
    | work underway step => cases underway.symm.trans (h.closed hover).1
    | finish underway => cases underway.symm.trans (h.closed hover).1
    | stop idle => exact ⟨idle.1, c.bench.worker.close_session c.store⟩
  aware := by
    cases act with
    | trigger => exact h.aware
    | tick idle =>
        let begun : Worker τ := { c.bench.worker with ticks := c.bench.worker.ticks + 1 }
        have haware : begun.IsAware c.store := h.aware
        exact fun id hid => haware.settle id ((tick_session c).symm.trans hid)
    | @work a _ _ _ _ _ underway step =>
        rcases step.store_cases with ⟨r, -, rfl⟩ | ⟨-, rfl⟩
        · exact h.aware.perform (d := .serve a.session r) (fun _ _ hd => by cases hd)
            fun _ _ hd => by cases hd
        · exact h.aware
    | @finish a task result underway => exact h.aware.endPass a.pass task result
    | stop idle =>
        intro id hid
        cases (c.bench.worker.close_session c.store).symm.trans hid

end Tenure

theorem History.tenure [Task τ σ] {task : τ} {s₀ : Store} {y₀ : σ} {es : List Entry}
    {c : Course τ σ} (h : History task s₀ y₀ es c) : Tenure s₀ es c := by
  induction h with
  | start => exact .start task s₀ y₀
  | own _ act ih => exact ih.act act
  | @deed _ _ d _ foreign ih =>
      exact ⟨ih.ledger.other d, ih.underway, ih.closed, ih.aware.foreign foreign⟩
  | shared y _ ih => exact ⟨ih.ledger, ih.underway, ih.closed, ih.aware⟩

/-! ### Sessions of a run -/

/-- None of the deeds deletes the node at a path. -/
def Spares (path : String) (s : Store) : List Entry → Prop
  | [] => True
  | e :: es => ¬s.Deletes path e.deed ∧ Spares path (s.perform e.deed) es

theorem persists_replay {path : String} {s : Store} (h : s.Persists path) {es : List Entry}
    (hes : Spares path s es) : (replay s es).Persists path := by
  induction es generalizing s with
  | nil => exact h
  | cons e es ih => exact ih (h.perform hes.1) hes.2

theorem byDeeds_replay (s : Store) (es : List Entry) : ByDeeds (fun _ => True) s (replay s es) := by
  have hfoldl : ByDeeds (fun _ => True) s ((es.map (·.deed)).foldl perform s) :=
    byDeeds_foldl (fun _ _ => trivial) s
  rwa [List.foldl_map] at hfoldl

/-- How the sessions that a worker opened fared. -/
structure SessionsInOrder (s₀ : Store) (es : List Entry) (c : Course τ σ) : Prop where
  /-- The history leads to the present store. -/
  replay_eq : replay s₀ es = c.store
  /-- At no moment were two of them live. -/
  one_live : ∀ es', es' <+: es → AtMostOneLive (replay s₀ es') (openedBy s₀ es')
  /-- All but the one that is held were closed, in order and each once. -/
  handed_over : openedBy s₀ es = closedBy es ++ c.bench.worker.session.toList
  /-- A session that is held and has no events waiting is live. -/
  held_live : ∀ id, c.bench.worker.session = some id → c.store.inbox id = [] → c.store.IsLive id
  /-- After the end each was closed exactly once, none is live, and none owns a node. -/
  ended : c.bench.isOver = true → ∀ id ∈ openedBy s₀ es, (closedBy es).count id = 1 ∧
    ¬c.store.IsLive id ∧
    ∀ path node, c.store.nodes.find? path = some node → node.owner ≠ some id
  /-- A persistent node that the worker made is still there unless it was deleted. -/
  persists : ∀ es₁ es₂ id path data,
    es = es₁ ++ ⟨true, .serve id (.create path data .persistent)⟩ :: es₂ →
    ((replay s₀ es₁).create id path data .persistent).1 = .ok () →
    Spares path ((replay s₀ es₁).perform (.serve id (.create path data .persistent))) es₂ →
    c.store.Persists path

/-- Sessions are opened one after the other, closed exactly once, and leave nothing behind but
persistent nodes. -/
theorem sessions_are_owned [Task τ σ] {task : τ} {s₀ : Store} {y₀ : σ} {es : List Entry}
    {c : Course τ σ} (hs₀ : ByDeeds (fun _ => True) {} s₀) (h : History task s₀ y₀ es c) :
    SessionsInOrder s₀ es c := by
  have htenure := h.tenure
  have hledger := htenure.ledger
  refine ⟨hledger.replay_eq, hledger.moments, hledger.opened_eq, ?_, ?_, ?_⟩
  · intro id hid hempty
    rcases htenure.aware id hid with hlive | ⟨e, he, -⟩
    · exact hlive
    · rw [hempty] at he
      cases he
  · intro hover id hid
    have hclosed : openedBy s₀ es = closedBy es := by
      rw [hledger.opened_eq, (htenure.closed hover).2]
      exact List.append_nil _
    have hnodup : (closedBy es).Nodup := by
      rw [← hclosed]
      exact hledger.ascending.imp Nat.ne_of_lt
    have hgone := hledger.gone id (hclosed ▸ hid)
    refine ⟨List.count_eq_one_of_mem hnodup (hclosed ▸ hid), hgone, ?_⟩
    intro path node hfind howner
    have howned : c.store.AreOwned := by
      rw [← hledger.replay_eq]
      exact areOwned_of_byDeeds (hs₀.trans (byDeeds_replay s₀ es))
    exact hgone (howned path node id hfind howner)
  · rintro es₁ es₂ id path data rfl hmade hspares
    rw [← hledger.replay_eq, replay, List.foldl_append]
    exact persists_replay (persists_create _ id path data hmade) hspares

/-- A run in which a job has made a node, and then the session expires. -/
def expiredAfterJob : Course (Jobs.Runner Jobs.PathBuild) (Jobs.Board Jobs.PathBuild Unit) :=
  { jobDone with store := jobDone.store.expire 1 }

theorem reachable_expiredAfterJob :
    Reachable (amongOthers (Jobs.Runner Jobs.PathBuild) (Jobs.Board Jobs.PathBuild Unit)) {} {}
      boardOfOne expiredAfterJob := by
  refine (reachable_jobDone (amongOthers _ _)).tail (.others ?_)
  exact ByDeeds.single (d := .expire 1) trivial jobDone.store

/-- The run goes on with a second session and ends; the node stays. -/
theorem sessions_are_owned_after_expiry :
    ∃ es, History {} {} boardOfOne es expiredAfterJob.round.stop ∧
      SessionsInOrder {} es expiredAfterJob.round.stop ∧
      expiredAfterJob.round.stop.bench.isOver = true ∧
      expiredAfterJob.round.stop.store.opened = 2 ∧
      expiredAfterJob.round.stop.store.children "/" = ["a"] := by
  have hreach := reachable_round reachable_expiredAfterJob ⟨rfl, rfl⟩ 0 {}
  obtain ⟨es, h⟩ := reachable_iff_exists_history.mp (hreach.tail (.own (.stop ⟨rfl, rfl⟩)))
  exact ⟨es, h, sessions_are_owned (.refl {}) h, by decide, by decide, by decide⟩

end Course

end Worker

end ServiceRegistry
