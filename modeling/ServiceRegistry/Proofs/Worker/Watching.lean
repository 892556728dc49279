import ServiceRegistry.Proofs.Worker.Deeds

/-! # No change of a directory is missed

While others do what they like with the store, a survey knows the present children of its root
whenever it has nothing to do: between two ticks, with a session that is live, no events waiting and
the current generation processed, the children are those that the last completed pass was given
(`no_change_is_missed`).

The invariant (`Attends`) follows the list that a pass was given, from its first call on: as long as
the pass is for the current generation and its session is live, either the children are still the
same and are watched, or the session has been told (`Watched`). -/

namespace ServiceRegistry

namespace Worker

open Store

variable {ν σ : Type}

/-! ### What is known of a list -/

/-- If the session is live, it has been told that the children changed, or they are these and are
watched. -/
def Watched (root : String) (id : SessionId) (names : List String) (s : Store) : Prop :=
  (s.session? id).isSome = true →
    childrenChanged root ∈ s.inbox id ∨ (s.children root = names ∧ (root, id) ∈ s.watches)

theorem Watched.tells {root : String} {id : SessionId} {names : List String} {s s' : Store}
    (h : Watched root id names s) (hid : id ≤ s.opened) (ht : Tells root id s s') :
    Watched root id names s' := by
  intro hlive
  rcases h (ht.live hid hlive) with htold | ⟨hsame, harmed⟩
  · exact .inl (ht.inbox_subset htold)
  · rcases ht.watch hid hlive harmed with ⟨hsame', harmed'⟩ | htold
    · exact .inr ⟨hsame'.trans hsame, harmed'⟩
    · exact .inl htold

/-- What stands with a pass of a survey of a root. -/
inductive Stage (root : String) (c : Course (Survey ν) σ) [Visitor ν σ] (a : Account)
    (x : Script σ (Survey ν × Except StoreError Bool)) : Prop
  /-- The root is to be listed first. -/
  | begun (t : Survey ν) (root_eq : t.root = root) (rest : x = Task.work t a.session a.pass)
      (heard : a.heard = [])
  /-- The root could not be listed. -/
  | failed (t : Survey ν) (e : StoreError) (root_eq : t.root = root)
      (rest : x = .done (t, .error e))
  /-- The root was listed, and the visitors have the list. -/
  | listed (names : List String) (heard : a.heard.head? = some ⟨.list root true, .ok names⟩)
      (watched : a.pass.generation = c.bench.worker.generation →
        Watched root a.session names c.store)
      (rest : x.Keeps {} fun r => r.1.root = root)

/-- What a survey knows of the children of its root. -/
structure Attends [Visitor ν σ] (root : String) (c : Course (Survey ν) σ) : Prop where
  sound : c.bench.Sound
  opened : c.bench.worker.Opened c.store
  root_eq : c.bench.worker.task.root = root
  underway : ∀ a x, c.bench.underway = some (a, x) → Stage root c a x
  completed : ∀ a, c.bench.completed.head? = some a →
    a.pass.generation = c.bench.worker.generation → ∀ id, c.bench.worker.session = some id →
      ∃ names, a.heard.head? = some ⟨.list root true, .ok names⟩ ∧ Watched root id names c.store

namespace Attends

variable [Visitor ν σ] {root : String} {c : Course (Survey ν) σ}

theorem start (t : Survey ν) (s : Store) (y : σ) : Attends t.root (Course.start t s y) where
  sound := .start t
  opened id h := by simp [Course.start] at h
  root_eq := rfl
  underway a x h := by simp [Course.start] at h
  completed a h := by simp [Course.start] at h

omit [Visitor ν σ] in
/-- A pass before the one under way is of no account any more. -/
theorem generation_lt (h : c.bench.Sound) {a a' : Account}
    {x : Script σ (Survey ν × Except StoreError Bool)} (hu : c.bench.underway = some (a, x))
    (ha : c.bench.completed.head? = some a') : a'.pass.generation < c.bench.worker.generation := by
  obtain ⟨-, hlt, hle, -⟩ := h.underway a x hu
  have := h.le_of_mem (List.mem_of_mem_head? ha)
  omega

/-! ### Others -/

theorem others {s : Store} {y : σ} (h : Attends root c)
    (ht : ∀ id, c.bench.worker.session = some id → Tells root id c.store s)
    (ho : c.store.opened ≤ s.opened) : Attends root { c with store := s, shared := y } where
  sound := h.sound
  opened id hid := Nat.le_trans (h.opened id hid) ho
  root_eq := h.root_eq
  underway a x hu := by
    obtain ⟨-, -, -, hid⟩ := h.sound.underway a x hu
    cases h.underway a x hu with
    | begun t root_eq rest heard => exact .begun t root_eq rest heard
    | failed t e root_eq rest => exact .failed t e root_eq rest
    | listed names heard watched rest =>
        exact .listed names heard
          (fun hgen => (watched hgen).tells (h.opened _ hid) (ht _ hid)) rest
  completed a ha hgen id hid := by
    obtain ⟨names, heard, watched⟩ := h.completed a ha hgen id hid
    exact ⟨names, heard, watched.tells (h.opened id hid) (ht id hid)⟩

/-! ### The worker's own moves -/

theorem trigger (h : Attends root c) : Attends root c.trigger where
  sound := Course.sound_trigger h.sound
  opened := h.opened
  root_eq := h.root_eq
  underway a x hu := by
    obtain ⟨-, -, hle, -⟩ := h.sound.underway a x hu
    cases h.underway a x hu with
    | begun t root_eq rest heard => exact .begun t root_eq rest heard
    | failed t e root_eq rest => exact .failed t e root_eq rest
    | listed names heard watched rest =>
        refine .listed names heard (fun hgen => ?_) rest
        simp only [Course.trigger, Worker.trigger] at hgen
        omega
  completed a ha hgen := by
    have := h.sound.le_generation (List.mem_of_mem_head? ha)
    simp only [Course.trigger, Worker.trigger] at hgen
    omega

theorem root_beginTick (w : Worker (Survey ν)) (s : Store) (x : σ) :
    (w.beginTick s receive receive x).2.1.task.root = w.task.root := by
  have hdecide : ∀ (w : Worker (Survey ν)) (tick : Nat),
      (w.decide x tick).2.task.root = w.task.root := by
    intro w tick
    have hrequest : (w.task.request x tick w.generation).1.root = w.task.root := by
      unfold Survey.request
      split <;> rfl
    unfold decide
    split
    · rfl
    · dsimp only
      split
      all_goals exact hrequest
  exact (hdecide _ w.ticks).trans (congrArg Survey.root (settle_task _ s))

theorem tick [LawfulVisitor ν] (h : Attends root c) : Attends root c.tick := by
  refine ⟨Course.sound_tick h.sound, c.bench.worker.opened_beginTick c.store c.shared h.opened,
    (root_beginTick _ _ _).trans h.root_eq, ?_, ?_⟩
  · intro a x hu
    simp only [Course.tick, Option.map_eq_some_iff, Prod.mk.injEq, Prod.exists] at hu
    obtain ⟨id, pass, -, rfl, rfl⟩ := hu
    exact .begun _ ((root_beginTick _ _ _).trans h.root_eq) rfl rfl
  · intro a ha hgen id hid
    have hsame := Course.generation_tick h.sound (List.mem_of_mem_head? ha) hgen
    obtain ⟨hid', hstore, hquiet⟩ := c.bench.worker.beginTick_quiet c.store hid hsame
    obtain ⟨names, heard, watched⟩ := h.completed a ha (hgen.trans hsame) id hid'
    refine ⟨names, heard, fun hlive => ?_⟩
    have hstore' : c.tick.store = c.store.clearInbox id := hstore
    rw [hstore'] at hlive ⊢
    rcases watched hlive with htold | hwatched
    · exact absurd (hquiet _ htold rfl) (by simp [childrenChanged])
    · exact .inr hwatched

/-- After the list, the rest of a pass leaves the root of the survey. -/
theorem keeps_afterList (t : Survey ν) (id : SessionId) (pass : Pass) (names : List String) :
    ((do
      let (visitors, result) ← Survey.visitAll names id pass.generation t.visitors
      return ({ t with visitors }, result.map fun _ => true) :
        Script σ (Survey ν × Except StoreError Bool))).Keeps {} fun r => r.1.root = t.root :=
  Script.keeps_bind ((Script.keeps_trivial _).mono fun _ _ => rfl)

theorem work (h : Attends root c) {a : Account}
    {x x' : Script σ (Survey ν × Except StoreError Bool)} {e : Option Exchange} {s : Store} {y : σ}
    (hu : c.bench.underway = some (a, x)) (hstep : x.Step a.session c.store c.shared e x' s y) :
    Attends root ⟨{ c.bench with underway := some (a.hear e, x') }, s, y⟩ := by
  obtain ⟨-, -, -, hid⟩ := h.sound.underway a x hu
  have hmove := Course.Move.work hu hstep
  refine ⟨Course.sound_work h.sound e hu, hmove.opened h.sound h.opened, h.root_eq, ?_, ?_⟩
  · intro a' x'' hu'
    simp only [Option.some.injEq, Prod.mk.injEq] at hu'
    obtain ⟨rfl, rfl⟩ := hu'
    cases h.underway a x hu with
    | begun t root_eq rest heard =>
        subst rest root_eq
        cases hstep with
        | call r next =>
            rcases c.store.list_cases a.session t.root true with
              ⟨code, s', hlist, -⟩ | ⟨s', hlist, halike, -, -⟩
            · refine .failed t ⟨code, t.root⟩ rfl ?_
              simp only [Store.serve, hlist]
              rfl
            · refine .listed (c.store.children t.root) ?_ (fun _ _ => .inr ⟨?_, ?_⟩) ?_
              · simp [Account.hear, heard, Store.serve, hlist]
              · simp only [Store.serve, hlist, ↓reduceIte]
                rw [← halike.children_eq t.root]
                exact children_congr fun path _ _ => by simp
              · simp [Store.serve, hlist, Account.hear]
              · simp only [Store.serve, hlist]
                exact keeps_afterList t a.session a.pass _
    | failed t e' root_eq rest =>
        subst rest
        cases hstep
    | listed names heard watched rest =>
        have htells : Tells root a.session c.store s := tells_scriptStep hstep a.session
        refine .listed names ?_ (fun hgen => (watched hgen).tells (h.opened _ hid) htells)
          (rest.step hstep trivial fun _ _ _ => trivial).1
        simp only [Account.hear]
        rw [List.head?_append_of_ne_nil _ (List.ne_nil_of_mem (List.mem_of_mem_head? heard))]
        exact heard
  · intro a' ha hgen
    exact absurd hgen (Nat.ne_of_lt (generation_lt h.sound hu ha))

theorem finish (h : Attends root c) {a : Account} {t : Survey ν} {result : Except StoreError Bool}
    (hu : c.bench.underway = some (a, .done (t, result))) : Attends root (c.finish a t result) := by
  have hmove := Course.Move.finish hu
  obtain ⟨-, -, -, hid⟩ := h.sound.underway _ _ hu
  have hgen : (c.finish a t result).bench.worker.generation = c.bench.worker.generation :=
    c.bench.worker.endPass_generation c.store a.pass t result
  refine ⟨Course.sound_finish h.sound hu, hmove.opened h.sound h.opened, ?_, ?_, ?_⟩
  · rw [show (c.finish a t result).bench.worker.task = t from endPass_task _ _ _ _ _]
    cases h.underway _ _ hu with
    | begun t' root_eq rest heard => cases rest
    | failed t' e root_eq rest =>
        cases rest
        exact root_eq
    | listed names heard watched rest => exact rest
  · intro a' x' hu'
    exact absurd hu'.symm (Option.some_ne_none _)
  · intro a' ha hgen' id hid'
    have hsession := c.bench.worker.endPass_session c.store a.pass t result id hid'
    cases hok : Course.isComplete result with
    | false =>
        have hcompleted : (c.finish a t result).bench.completed = c.bench.completed :=
          if_neg (by simp [hok])
        rw [hcompleted] at ha
        exact absurd (hgen'.trans hgen) (Nat.ne_of_lt (generation_lt h.sound hu ha))
    | true =>
        have hcompleted : (c.finish a t result).bench.completed = a :: c.bench.completed :=
          if_pos hok
        rw [hcompleted, List.head?_cons, Option.some.injEq] at ha
        subst ha
        cases h.underway _ _ hu with
        | begun t' root_eq rest heard => cases rest
        | failed t' e root_eq rest =>
            cases rest
            simp [Course.isComplete] at hok
        | listed names heard watched rest =>
            cases hsession.symm.trans hid
            refine ⟨names, heard, ?_⟩
            cases result with
            | error e => simp [Course.isComplete] at hok
            | ok complete => exact watched (hgen'.trans hgen)

theorem stop (h : Attends root c) (idle : c.bench.IsIdle) : Attends root c.stop := by
  have hmove : Course.Move c c.stop := .stop idle
  have hnone : c.stop.bench.worker.session = none := c.bench.worker.close_session c.store
  refine ⟨Course.sound_stop h.sound idle, hmove.opened h.sound h.opened, ?_, ?_, ?_⟩
  · exact (congrArg Survey.root (c.bench.worker.close_task c.store)).trans h.root_eq
  · intro a x hu
    simp [Course.stop, idle.1] at hu
  · intro a ha hgen id hid
    cases hnone.symm.trans hid

theorem move [LawfulVisitor ν] {d : Course (Survey ν) σ} (h : Attends root c)
    (hm : Course.Move c d) : Attends root d := by
  cases hm with
  | trigger => exact h.trigger
  | tick idle => exact h.tick
  | work underway step => exact h.work underway step
  | finish underway => exact h.finish underway
  | stop idle => exact h.stop idle

end Attends

/-! ### Amid others -/

/-- Others may do anything to the shared state and to the store, but do not take the events of the
session that the worker holds. -/
def amidDeeds (ν σ : Type) : Course.Others (Survey ν) σ := fun b before after =>
  ByDeeds (fun d => ∀ id, b.worker.session = some id → d ≠ .takeEvents id) before.1 after.1

theorem Course.Reachable.attends [Visitor ν σ] [LawfulVisitor ν] {t : Survey ν} {s : Store} {y : σ}
    {c : Course (Survey ν) σ} (h : Reachable (amidDeeds ν σ) t s y c) : Attends t.root c := by
  induction h with
  | refl => exact .start t s y
  | tail _ hstep ih =>
      cases hstep with
      | own move => exact ih.move move
      | others deeds =>
          exact ih.others (fun id hid => tells_of_byDeeds deeds fun d hd => hd id hid)
            deeds.opened_le

/-- A survey that holds a live session, has no events waiting and has processed the current
generation was given the present children of its root in its last completed pass. -/
theorem no_change_is_missed [Visitor ν σ] [LawfulVisitor ν] {t : Survey ν} {s : Store} {y : σ}
    {c : Course (Survey ν) σ} (h : Course.Reachable (amidDeeds ν σ) t s y c) {id : SessionId}
    (held : c.bench.worker.session = some id) (live : (c.store.session? id).isSome = true)
    (noEvents : c.store.inbox id = [])
    (processed : c.bench.worker.processed = c.bench.worker.generation) :
    ∃ a, c.bench.completed.head? = some a ∧ a.session = id ∧
      a.heard.head? = some ⟨.list t.root true, .ok (c.store.children t.root)⟩ := by
  have hattends := h.attends
  obtain ⟨a, ha, hgen, hid, -⟩ := h.serves.served processed id held
  obtain ⟨names, heard, watched⟩ := hattends.completed a ha hgen id held
  rcases watched live with htold | ⟨hsame, -⟩
  · rw [noEvents] at htold
    cases htold
  · exact ⟨a, ha, hid, hsame ▸ heard⟩

/-- A run with a pass of a survey, after which a node is put below its root. -/
def surveyedThenPut : Course (Survey Rehearsal.Visitor) (List Rehearsal.Entry) :=
  let c : Course (Survey Rehearsal.Visitor) (List Rehearsal.Entry) :=
    (Course.start Course.topLevelSurvey {} []).round
  { c with store := c.store.put "/a" [] }

theorem reachable_surveyedThenPut :
    Course.Reachable (amidDeeds _ _) Course.topLevelSurvey {} [] surveyedThenPut := by
  have hfirst : Course.Reachable (amidDeeds _ _) Course.topLevelSurvey {} []
      (Course.start Course.topLevelSurvey {} []).round :=
    Course.reachable_round .refl ⟨rfl, rfl⟩ 0 {}
  refine hfirst.tail (.others ?_)
  exact ByDeeds.single (d := .put "/a" []) (fun _ _ h => by cases h) _

theorem no_change_is_missed_after_put :
    ∃ a, surveyedThenPut.round.bench.completed.head? = some a ∧ a.session = 1 ∧
      a.heard.head? = some ⟨.list "/" true, .ok (surveyedThenPut.round.store.children "/")⟩ ∧
      surveyedThenPut.round.store.children "/" = ["a"] := by
  have hreach := Course.reachable_round reachable_surveyedThenPut ⟨rfl, rfl⟩ 0 {}
  have held : surveyedThenPut.round.bench.worker.session = some 1 := by decide
  obtain ⟨a, ha, hid, heard⟩ :=
    no_change_is_missed hreach held (by decide) (by decide) (by decide)
  exact ⟨a, ha, hid, heard, by decide⟩

end Worker

end ServiceRegistry
