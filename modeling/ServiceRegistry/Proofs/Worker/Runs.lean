import Mathlib.Logic.Relation
import ServiceRegistry.Client
import ServiceRegistry.Jobs.PathBuild
import ServiceRegistry.Proofs.Script.Steps
import ServiceRegistry.Rehearsal

/-! # Runs of a worker

A run of a worker goes on by ticks, by single steps of the pass that is under way, by the end of
that pass, by requests from outside and by the end of the worker. Between any two of these the store
and the shared state may be changed by others (`Worker.Course.Step`).

No request for a pass is lost (`requests_are_served`): completed passes have ascending generations,
and when the last processed generation is the current one, the last completed pass began after the
latest request and ran on the session that is held. It is only asked of a task that it never lowers
the generation counter (`LawfulTask`). -/

namespace ServiceRegistry

/-! ### Lawful tasks -/

/-- Being asked for a pass, the visitor never lowers the generation counter. -/
class LawfulVisitor (ν : Type) {σ : Type} [Visitor ν σ] : Prop where
  le_request (v : ν) (x : σ) (tick generation : Nat) :
    generation ≤ (Visitor.request v x tick generation).2

/-- Being asked for a pass, the task never lowers the generation counter. -/
class LawfulTask (τ : Type) {σ : Type} [Task τ σ] : Prop where
  le_request (t : τ) (x : σ) (tick generation : Nat) :
    generation ≤ (Task.request t x tick generation).2

theorem Survey.le_requestAll {ν σ : Type} [Visitor ν σ] [LawfulVisitor ν] (x : σ) (tick : Nat)
    (vs : List ν) (generation : Nat) : generation ≤ (requestAll x tick vs generation).2 := by
  induction vs generalizing generation with
  | nil => exact Nat.le_refl _
  | cons v vs ih => exact Nat.le_trans (LawfulVisitor.le_request v x tick generation) (ih _)

instance {ν σ : Type} [Visitor ν σ] [LawfulVisitor ν] : LawfulTask (Survey ν) where
  le_request t x tick generation := by
    simp only [Task.request, Survey.request]
    split
    · exact Nat.le_succ _
    · exact Survey.le_requestAll x tick t.visitors generation

instance {J κ : Type} [Jobs.Job J κ] : LawfulTask (Jobs.Runner J) where
  le_request r b tick generation := by
    simp only [Task.request, Jobs.Runner.request]
    split <;> omega

theorem Publisher.le_request (p : Publisher) (roster : Roster) (generation : Nat) :
    generation ≤ (p.request roster generation).2 := by
  unfold request
  split <;> simp

instance : LawfulVisitor Client.Member where
  le_request m x tick generation := by
    cases m with
    | follower f => exact Nat.le_refl _
    | publisher p => exact p.le_request x.roster generation

instance : LawfulVisitor Rehearsal.Visitor where
  le_request v x tick generation := by
    simp only [Visitor.request]
    split <;> omega

instance : LawfulTask Rehearsal.Work where
  le_request w x tick generation := by
    cases w with
    | chore t => exact Nat.le_refl _
    | survey t => exact LawfulTask.le_request t x tick generation

namespace Worker

variable {τ σ : Type}

/-! ### Runs -/

/-- What is known of a pass. -/
structure Account where
  session : SessionId
  pass : Pass
  /-- The moment at which the pass began. -/
  began : Nat
  /-- The calls that the pass has made so far. -/
  heard : List Exchange := []

/-- One call more, if a step made one. -/
def Account.hear (a : Account) (e : Option Exchange) : Account :=
  { a with heard := a.heard ++ e.toList }

/-- A worker in the course of a run. Moments are counted to tell what came first. -/
structure Bench (τ σ : Type) where
  worker : Worker τ
  /-- The pass that is under way, and what is left of it. -/
  underway : Option (Account × Script σ (τ × Except StoreError Bool)) := none
  /-- The completed passes, the last one first. -/
  completed : List Account := []
  moment : Nat := 0
  /-- The moment of the latest request: when the generation counter last rose. -/
  raised : Nat := 0
  isOver : Bool := false

/-- The worker waits for its next tick. -/
def Bench.IsIdle (b : Bench τ σ) : Prop := b.underway = none ∧ b.isOver = false

instance (b : Bench τ σ) : Decidable b.IsIdle := inferInstanceAs (Decidable (_ ∧ _))

/-- A worker in the course of a run, with the store and the shared state. -/
structure Course (τ σ : Type) where
  bench : Bench τ σ
  store : Store
  shared : σ

namespace Course

variable (c : Course τ σ)

/-- A pass is asked for. -/
def trigger : Course τ σ :=
  { c with bench :=
    { c.bench with
      worker := c.bench.worker.trigger
      moment := c.bench.moment + 1
      raised := c.bench.moment + 1 } }

/-- A tick: the requests that it hears of come before the pass that it begins. -/
def tick [Task τ σ] : Course τ σ :=
  let (due, worker, store) := c.bench.worker.beginTick c.store receive receive c.shared
  { c with
    store
    bench :=
      { c.bench with
        worker
        underway := due.map fun (id, pass) =>
          ({ session := id, pass, began := c.bench.moment + 2 }, Task.work worker.task id pass)
        moment := c.bench.moment + 2
        raised :=
          if c.bench.worker.generation < worker.generation then c.bench.moment + 1
          else c.bench.raised } }

/-- Is the pass that ends so complete? -/
def isComplete : Except StoreError Bool → Bool
  | .ok complete => complete
  | .error _ => false

/-- The end of a pass. -/
def finish (a : Account) (task : τ) (result : Except StoreError Bool) : Course τ σ :=
  let (worker, store) := c.bench.worker.endPass c.store a.pass task result
  { c with
    store
    bench :=
      { c.bench with
        worker
        underway := none
        completed := if isComplete result then a :: c.bench.completed else c.bench.completed } }

/-- The end of the worker. -/
def stop : Course τ σ :=
  let (worker, store) := c.bench.worker.close c.store
  { c with store, bench := { c.bench with worker, isOver := true } }

/-- What the worker and those who hold its handle do. -/
inductive Move [Task τ σ] : Course τ σ → Course τ σ → Prop
  | trigger (c : Course τ σ) : Move c c.trigger
  | tick {c : Course τ σ} (idle : c.bench.IsIdle) : Move c c.tick
  | work {c : Course τ σ} {a : Account} {x x' : Script σ (τ × Except StoreError Bool)}
      {e : Option Exchange} {s : Store} {y : σ} (underway : c.bench.underway = some (a, x))
      (step : x.Step a.session c.store c.shared e x' s y) :
      Move c ⟨{ c.bench with underway := some (a.hear e, x') }, s, y⟩
  | finish {c : Course τ σ} {a : Account} {task : τ} {result : Except StoreError Bool}
      (underway : c.bench.underway = some (a, .done (task, result))) :
      Move c (c.finish a task result)
  | stop {c : Course τ σ} (idle : c.bench.IsIdle) : Move c c.stop

/-- What others may do to the store and the shared state, given the worker. -/
abbrev Others (τ σ : Type) := Bench τ σ → Store × σ → Store × σ → Prop

/-- A step of a run. -/
inductive Step [Task τ σ] (others : Others τ σ) : Course τ σ → Course τ σ → Prop
  | own {c d : Course τ σ} (move : Move c d) : Step others c d
  | others {c : Course τ σ} {s : Store} {y : σ} (h : others c.bench (c.store, c.shared) (s, y)) :
      Step others c { c with store := s, shared := y }

/-- A worker at its start. -/
def start (task : τ) (s : Store) (y : σ) : Course τ σ := ⟨{ worker := { task } }, s, y⟩

/-- A course is reached by a run from the start of a worker with some task. -/
def Reachable [Task τ σ] (others : Others τ σ) (task : τ) (s : Store) (y : σ)
    (c : Course τ σ) : Prop := Relation.ReflTransGen (Step others) (start task s y) c

/-- The steps of a pass, one after the other. -/
theorem moves_steps [Task τ σ] {b : Bench τ σ} {a : Account}
    {x x' : Script σ (τ × Except StoreError Bool)} {s s' : Store} {y y' : σ} {es : List Exchange}
    (hs : x.Steps a.session s y es x' s' y') :
    Relation.ReflTransGen Move ⟨{ b with underway := some (a, x) }, s, y⟩
      ⟨{ b with underway := some ({ a with heard := a.heard ++ es }, x') }, s', y'⟩ := by
  obtain ⟨session, pass, began, heard⟩ := a
  dsimp only at hs ⊢
  induction hs generalizing heard with
  | refl x s y => rw [List.append_nil]
  | step first steps ih =>
      rename_i x _ _ t _ _ y _ _ e _
      have hmove : Move ⟨{ b with underway := some (⟨session, pass, began, heard⟩, x) }, t, y⟩
          ⟨{ b with underway := some (Account.hear ⟨session, pass, began, heard⟩ e, _) }, _, _⟩ :=
        .work rfl first
      rw [← List.append_assoc]
      exact .head hmove (ih _)

/-- A tick, and the pass that it begins if that ends without waiting. -/
def round [Task τ σ] (c : Course τ σ) (now : Nat := 0) (ids : IdSource := {}) : Course τ σ :=
  let c := c.tick
  match c.bench.underway with
  | none => c
  | some (a, x) =>
    let scene := ⟨c.store, c.shared, ids⟩
    match x.run a.session now scene with
    | (.waiting _ _, _) => c
    | (.finished (task, result), scene') =>
      finish ⟨c.bench, scene'.store, scene'.shared⟩
        { a with heard := a.heard ++ x.heard a.session now scene } task result

/-- What is left of a round after its tick. -/
theorem moves_tick_round [Task τ σ] (c : Course τ σ) (now : Nat) (ids : IdSource) :
    Relation.ReflTransGen Move c.tick (c.round now ids) := by
  unfold round
  dsimp only
  split
  · exact .refl
  · next a x hu =>
      split
      · exact .refl
      · next task' result scene' hrun =>
          have hsteps := moves_steps (b := c.tick.bench) (Script.steps_run hrun)
          have hbegun : (⟨{ c.tick.bench with underway := some (a, x) }, c.tick.store,
              c.tick.shared⟩ : Course τ σ) = c.tick := by
            rw [← hu]
          rw [hbegun] at hsteps
          exact hsteps.tail (.finish rfl)

theorem moves_round [Task τ σ] {c : Course τ σ} (idle : c.bench.IsIdle) (now : Nat)
    (ids : IdSource) : Relation.ReflTransGen Move c (c.round now ids) :=
  .head (.tick idle) (c.moves_tick_round now ids)

theorem reachable_round [Task τ σ] {others : Others τ σ} {task : τ} {s : Store} {y : σ}
    {c : Course τ σ} (h : Reachable others task s y c) (idle : c.bench.IsIdle) (now : Nat)
    (ids : IdSource) : Reachable others task s y (c.round now ids) :=
  h.trans ((moves_round idle now ids).lift (fun d => d) fun _ _ hm => .own hm)

end Course

/-! ### What ticks do to a worker -/

/-- The counter did not fall, nothing was processed, and a new session raised the counter. -/
structure Advances (w w' : Worker τ) : Prop where
  processed_eq : w'.processed = w.processed
  generation_le : w.generation ≤ w'.generation
  session : ∀ id, w'.session = some id → w.session = some id ∨ w.generation < w'.generation

namespace Advances

theorem refl (w : Worker τ) : Advances w w := ⟨rfl, Nat.le_refl _, fun _ h => .inl h⟩

theorem trans {w w' w'' : Worker τ} (h : Advances w w') (h' : Advances w' w'') :
    Advances w w'' where
  processed_eq := h'.processed_eq.trans h.processed_eq
  generation_le := Nat.le_trans h.generation_le h'.generation_le
  session id hid := by
    have := h.generation_le
    have := h'.generation_le
    rcases h'.session id hid with hid | hlt
    · rcases h.session id hid with hid | hlt
      · exact .inl hid
      · exact .inr (by omega)
    · exact .inr (by omega)

end Advances

variable (w : Worker τ) (s : Store)

theorem advances_note (e : Store.Event) : Advances w (w.note e) := by
  unfold note
  split
  · refine ⟨rfl, ?_, fun _ h => .inl h⟩
    dsimp only
    split <;> omega
  all_goals exact ⟨rfl, Nat.le_refl _, fun _ h => .inl h⟩

theorem close_session : (w.close s).1.session = none := by
  unfold close
  split
  · rfl
  · assumption

theorem close_generation : (w.close s).1.generation = w.generation := by
  unfold close
  split <;> rfl

theorem close_processed : (w.close s).1.processed = w.processed := by
  unfold close
  split <;> rfl

theorem advances_close : Advances w (w.close s).1 where
  processed_eq := w.close_processed s
  generation_le := Nat.le_of_eq (w.close_generation s).symm
  session id h := by simp [w.close_session s] at h

theorem advances_heed (es : List Store.Event) : Advances w (w.heed s es).1 := by
  induction es generalizing w with
  | nil => exact .refl w
  | cons e es ih =>
      unfold heed
      split
      · exact w.advances_close s
      · exact (w.advances_note e).trans (ih _)

theorem advances_receive : Advances w (w.receive s).1 := by
  unfold receive
  split
  · exact .refl w
  · exact advances_heed w _ _

theorem advances_open : Advances w (w.open' s).1 := by
  unfold open'
  split
  · exact .refl w
  · split
    · exact ⟨rfl, Nat.le_succ _, fun _ _ => .inr (Nat.lt_succ_self _)⟩
    · exact .refl w

theorem advances_settle : Advances w (w.settle s receive receive).1 := by
  unfold settle
  dsimp only
  split
  · exact w.advances_receive s
  · exact ((w.advances_receive s).trans (advances_open _ _)).trans (advances_receive _ _)

theorem advances_decide [Task τ σ] [LawfulTask τ] (x : σ) (tick : Nat) :
    Advances w (w.decide x tick).2 := by
  have hle := LawfulTask.le_request w.task x tick w.generation
  unfold decide
  split
  · exact .refl w
  · dsimp only
    split
    all_goals exact ⟨rfl, hle, fun _ h => .inl h⟩

/-- A pass that is due is due for the current generation, on the session that is held. -/
theorem decide_due [Task τ σ] {x : σ} {tick : Nat} {id : SessionId} {pass : Pass}
    (h : (w.decide x tick).1 = some (id, pass)) :
    (w.decide x tick).2.session = some id ∧
      pass.generation = (w.decide x tick).2.generation ∧
      (w.decide x tick).2.processed < pass.generation := by
  unfold decide at h ⊢
  by_cases hlink : w.link = .disconnected
  · simp [hlink] at h
  · simp only [hlink, ↓reduceIte] at h ⊢
    cases hs : w.session with
    | none => simp [hs] at h
    | some id' =>
        simp only [hs, Option.ite_none_left_eq_some, Nat.not_le, Option.some.injEq,
          Prod.mk.injEq] at h ⊢
        obtain ⟨hlt, rfl, rfl⟩ := h
        exact ⟨rfl, rfl, hlt⟩

theorem advances_beginTick [Task τ σ] [LawfulTask τ] (x : σ) :
    Advances w (w.beginTick s receive receive x).2.1 := by
  have h := (advances_settle { w with ticks := w.ticks + 1 } s).trans (advances_decide _ x w.ticks)
  exact ⟨h.processed_eq, h.generation_le, h.session⟩

theorem beginTick_due [Task τ σ] (x : σ) (id : SessionId) (pass : Pass)
    (h : (w.beginTick s receive receive x).1 = some (id, pass)) :
    (w.beginTick s receive receive x).2.1.session = some id ∧
      pass.generation = (w.beginTick s receive receive x).2.1.generation ∧
      (w.beginTick s receive receive x).2.1.processed < pass.generation :=
  decide_due _ h

/-- The end of a pass leaves the counter and keeps or drops the session. -/
theorem endPass_generation (pass : Pass) (task : τ) (result : Except StoreError Bool) :
    (w.endPass s pass task result).1.generation = w.generation := by
  unfold endPass
  dsimp only
  split
  · rfl
  · split
    · rfl
    · split
      · exact close_generation _ s
      · rfl

theorem endPass_session (pass : Pass) (task : τ) (result : Except StoreError Bool) (id : SessionId)
    (h : (w.endPass s pass task result).1.session = some id) : w.session = some id := by
  unfold endPass at h
  dsimp only at h
  split at h
  · exact h
  · split at h
    · exact h
    · split at h
      · simp [close_session] at h
      · exact h

theorem endPass_processed (pass : Pass) (task : τ) (result : Except StoreError Bool) :
    (w.endPass s pass task result).1.processed =
      if Course.isComplete result then pass.generation else w.processed := by
  unfold endPass
  dsimp only
  cases result with
  | ok complete => cases complete <;> rfl
  | error e =>
      dsimp only
      split
      · rfl
      · split
        · exact close_processed _ s
        · rfl

/-! ### The counter and the passes -/

/-- If the pass is for the current generation, it began after the latest request and runs on the
session that is held, if one is. -/
def Bench.IsCurrent (b : Bench τ σ) (a : Account) : Prop :=
  a.pass.generation = b.worker.generation →
    b.raised < a.began ∧ ∀ id, b.worker.session = some id → a.session = id

theorem Bench.IsCurrent.transfer {b b' : Bench τ σ} {a : Account} (h : b.IsCurrent a)
    (hgen : b'.worker.generation = b.worker.generation) (hraised : b'.raised = b.raised)
    (hsession : ∀ id, b'.worker.session = some id → b.worker.session = some id) :
    b'.IsCurrent a := by
  intro ha
  obtain ⟨hbegan, hid⟩ := h (ha.trans hgen)
  exact ⟨hraised ▸ hbegan, fun id h' => hid id (hsession id h')⟩

/-- How the counter, the completed passes and the pass under way belong together. -/
structure Bench.Sound (b : Bench τ σ) : Prop where
  processed_le : b.worker.processed ≤ b.worker.generation
  generation_pos : 0 < b.worker.generation
  raised_le : b.raised ≤ b.moment
  last : (b.completed.head?.map (·.pass.generation)).getD 0 = b.worker.processed
  descending : b.completed.Pairwise fun a a' => a'.pass.generation < a.pass.generation
  completed : ∀ a ∈ b.completed, b.IsCurrent a
  underway : ∀ a x, b.underway = some (a, x) →
    b.IsCurrent a ∧ b.worker.processed < a.pass.generation ∧
      a.pass.generation ≤ b.worker.generation ∧ b.worker.session = some a.session

namespace Bench.Sound

variable {b : Bench τ σ}

theorem le_of_mem (h : b.Sound) {a : Account} (ha : a ∈ b.completed) :
    a.pass.generation ≤ b.worker.processed := by
  have hlast := h.last
  have hdesc := h.descending
  cases hc : b.completed with
  | nil => simp [hc] at ha
  | cons a' as =>
      rw [hc] at hlast hdesc ha
      simp only [List.head?_cons, Option.map_some, Option.getD_some] at hlast
      rcases List.mem_cons.mp ha with rfl | ha
      · exact Nat.le_of_eq hlast
      · exact hlast ▸ Nat.le_of_lt ((List.pairwise_cons.mp hdesc).1 a ha)

theorem le_generation (h : b.Sound) {a : Account} (ha : a ∈ b.completed) :
    a.pass.generation ≤ b.worker.generation := Nat.le_trans (h.le_of_mem ha) h.processed_le

theorem start (task : τ) : ({ worker := { task } } : Bench τ σ).Sound where
  processed_le := Nat.zero_le _
  generation_pos := Nat.one_pos
  raised_le := Nat.le_refl _
  last := rfl
  descending := .nil
  completed a ha := by simp at ha
  underway a x h := by simp at h

/-- When the current generation was processed, the last completed pass was for it. -/
theorem served (h : b.Sound) (hproc : b.worker.processed = b.worker.generation) {id : SessionId}
    (hid : b.worker.session = some id) :
    ∃ a, b.completed.head? = some a ∧ a.pass.generation = b.worker.generation ∧
      a.session = id ∧ b.raised < a.began := by
  have hpos := h.generation_pos
  have hlast := h.last
  cases hc : b.completed with
  | nil =>
      simp only [hc, List.head?_nil, Option.map_none, Option.getD_none] at hlast
      omega
  | cons a as =>
      simp only [hc, List.head?_cons, Option.map_some, Option.getD_some] at hlast
      have hgen : a.pass.generation = b.worker.generation := hlast.trans hproc
      obtain ⟨hbegan, hsession⟩ := h.completed a (by simp [hc]) hgen
      exact ⟨a, rfl, hgen, hsession id hid, hbegan⟩

end Bench.Sound

namespace Course

variable {c d : Course τ σ}

theorem sound_trigger (h : c.bench.Sound) : c.trigger.bench.Sound where
  processed_le := Nat.le_succ_of_le h.processed_le
  generation_pos := Nat.succ_pos _
  raised_le := Nat.le_refl _
  last := h.last
  descending := h.descending
  completed a ha hgen := by
    have := h.le_generation ha
    simp only [trigger, Worker.trigger] at hgen
    omega
  underway a x hu := by
    obtain ⟨-, hlt, hle, hs⟩ := h.underway a x hu
    refine ⟨fun hgen => ?_, hlt, Nat.le_succ_of_le hle, hs⟩
    simp only [trigger, Worker.trigger] at hgen
    omega

/-- If a pass is for the current generation after a tick, the counter did not rise in it. -/
theorem generation_tick [Task τ σ] [LawfulTask τ] (h : c.bench.Sound) {a : Account}
    (ha : a ∈ c.bench.completed) (hgen : a.pass.generation = c.tick.bench.worker.generation) :
    c.tick.bench.worker.generation = c.bench.worker.generation := by
  have hadv := (c.bench.worker.advances_beginTick c.store c.shared).generation_le
  exact Nat.le_antisymm (hgen ▸ h.le_generation ha) hadv

theorem sound_tick [Task τ σ] [LawfulTask τ] (h : c.bench.Sound) : c.tick.bench.Sound := by
  have hadv := c.bench.worker.advances_beginTick c.store c.shared
  have hdue := c.bench.worker.beginTick_due c.store c.shared
  simp only [tick]
  generalize c.bench.worker.beginTick c.store receive receive c.shared = begun at hadv hdue ⊢
  obtain ⟨due, w, s⟩ := begun
  have hraised := h.raised_le
  refine ⟨?_, ?_, ?_, ?_, h.descending, ?_, ?_⟩
  · exact hadv.processed_eq ▸ Nat.le_trans h.processed_le hadv.generation_le
  · exact Nat.lt_of_lt_of_le h.generation_pos hadv.generation_le
  · dsimp only
    split <;> omega
  · exact h.last.trans hadv.processed_eq.symm
  · intro a ha hgen
    have hle := h.le_of_mem ha
    have hproc := h.processed_le
    have hadv' := hadv.generation_le
    dsimp only at hgen hadv'
    have hsame : c.bench.worker.generation = w.generation := by omega
    dsimp only
    rw [if_neg (by omega)]
    obtain ⟨hbegan, hsession⟩ := h.completed a ha (hgen.trans hsame.symm)
    refine ⟨hbegan, fun id hid => hsession id ?_⟩
    rcases hadv.session id hid with hid | hlt
    · exact hid
    · dsimp only at hlt
      omega
  · intro a x hu
    cases due with
    | none => simp at hu
    | some p =>
        obtain ⟨id, pass⟩ := p
        obtain ⟨hid, hgen, hlt⟩ := hdue id pass rfl
        simp only [Option.map_some, Option.some.injEq, Prod.mk.injEq] at hu
        obtain ⟨rfl, rfl⟩ := hu
        refine ⟨fun _ => ⟨?_, fun id' hid' => ?_⟩, hlt, Nat.le_of_eq hgen, hid⟩
        · dsimp only
          split <;> omega
        · exact Option.some.inj (hid.symm.trans hid')

theorem sound_work (h : c.bench.Sound) {a : Account}
    {x x' : Script σ (τ × Except StoreError Bool)} (e : Option Exchange)
    (hu : c.bench.underway = some (a, x)) :
    Bench.Sound { c.bench with underway := some (a.hear e, x') } where
  processed_le := h.processed_le
  generation_pos := h.generation_pos
  raised_le := h.raised_le
  last := h.last
  descending := h.descending
  completed := h.completed
  underway a' x'' hu' := by
    simp only [Option.some.injEq, Prod.mk.injEq] at hu'
    obtain ⟨rfl, rfl⟩ := hu'
    exact h.underway a x hu

theorem sound_finish (h : c.bench.Sound) {a : Account} {task : τ}
    {result : Except StoreError Bool}
    (hu : c.bench.underway = some (a, .done (task, result))) :
    (c.finish a task result).bench.Sound := by
  obtain ⟨hcur, hlt, hle, -⟩ := h.underway _ _ hu
  have hgen := c.bench.worker.endPass_generation c.store a.pass task result
  have hproc := c.bench.worker.endPass_processed c.store a.pass task result
  have hsession := c.bench.worker.endPass_session c.store a.pass task result
  have hkeep : ∀ a', c.bench.IsCurrent a' → (c.finish a task result).bench.IsCurrent a' :=
    fun a' ha' => ha'.transfer hgen rfl hsession
  have hnone : ∀ a' x, (c.finish a task result).bench.underway = some (a', x) → False :=
    fun a' x hu' => absurd hu'.symm (Option.some_ne_none _)
  have hpos : 0 < (c.finish a task result).bench.worker.generation :=
    Nat.lt_of_lt_of_eq h.generation_pos hgen.symm
  cases hok : isComplete result with
  | true =>
      have hproc' : (c.finish a task result).bench.worker.processed = a.pass.generation :=
        hproc.trans (if_pos hok)
      have hcompleted : (c.finish a task result).bench.completed = a :: c.bench.completed :=
        if_pos hok
      refine ⟨?_, hpos, h.raised_le, ?_, ?_, ?_, fun a' x hu' => (hnone a' x hu').elim⟩
      · exact hproc' ▸ hgen.symm ▸ hle
      · rw [hcompleted, hproc']
        rfl
      · rw [hcompleted]
        exact List.pairwise_cons.mpr
          ⟨fun a' ha' => Nat.lt_of_le_of_lt (h.le_of_mem ha') hlt, h.descending⟩
      · rw [hcompleted]
        intro a' ha'
        rcases List.mem_cons.mp ha' with rfl | ha'
        · exact hkeep _ hcur
        · exact hkeep _ (h.completed a' ha')
  | false =>
      have hproc' : (c.finish a task result).bench.worker.processed =
          c.bench.worker.processed := hproc.trans (if_neg (by simp [hok]))
      have hcompleted : (c.finish a task result).bench.completed = c.bench.completed :=
        if_neg (by simp [hok])
      refine ⟨?_, hpos, h.raised_le, ?_, ?_, ?_, fun a' x hu' => (hnone a' x hu').elim⟩
      · exact hproc' ▸ hgen.symm ▸ h.processed_le
      · rw [hcompleted, hproc']
        exact h.last
      · rw [hcompleted]
        exact h.descending
      · rw [hcompleted]
        exact fun a' ha' => hkeep a' (h.completed a' ha')

theorem sound_stop (h : c.bench.Sound) (idle : c.bench.IsIdle) : c.stop.bench.Sound where
  processed_le := by
    simp only [stop, close_processed, close_generation]
    exact h.processed_le
  generation_pos := by
    simp only [stop, close_generation]
    exact h.generation_pos
  raised_le := h.raised_le
  last := h.last.trans (c.bench.worker.close_processed c.store).symm
  descending := h.descending
  completed a ha := (h.completed a ha).transfer (c.bench.worker.close_generation c.store) rfl
    fun id hid => by simp [stop, close_session] at hid
  underway a x hu := by simp [stop, idle.1] at hu

theorem Move.sound [Task τ σ] [LawfulTask τ] (hm : Move c d) (h : c.bench.Sound) :
    d.bench.Sound := by
  cases hm with
  | trigger => exact sound_trigger h
  | tick idle => exact sound_tick h
  | work underway step => exact sound_work h _ underway
  | finish underway => exact sound_finish h underway
  | stop idle => exact sound_stop h idle

theorem Step.sound [Task τ σ] [LawfulTask τ] {others : Others τ σ} (hs : Step others c d)
    (h : c.bench.Sound) : d.bench.Sound := by
  cases hs with
  | own move => exact move.sound h
  | others => exact h

theorem Reachable.sound [Task τ σ] [LawfulTask τ] {others : Others τ σ} {task : τ} {s : Store}
    {y : σ} (h : Reachable others task s y c) : c.bench.Sound := by
  induction h with
  | refl => exact .start task
  | tail _ hstep ih => exact hstep.sound ih

/-- The last processed generation never falls. -/
theorem Move.processed_le [Task τ σ] [LawfulTask τ] (hm : Move c d) (h : c.bench.Sound) :
    c.bench.worker.processed ≤ d.bench.worker.processed := by
  cases hm with
  | trigger => exact Nat.le_refl _
  | tick idle =>
      have hadv := c.bench.worker.advances_beginTick c.store c.shared
      exact Nat.le_of_eq hadv.processed_eq.symm
  | work underway step => exact Nat.le_refl _
  | finish underway =>
      rename_i a task result
      obtain ⟨-, hlt, -, -⟩ := h.underway _ _ underway
      have hproc := c.bench.worker.endPass_processed c.store a.pass task result
      change _ ≤ (c.bench.worker.endPass c.store a.pass task result).1.processed
      rw [hproc]
      split
      · exact Nat.le_of_lt hlt
      · exact Nat.le_refl _
  | stop idle => exact (close_processed _ _).symm ▸ Nat.le_refl _

/-- No request for a pass is lost. -/
structure Serves [Task τ σ] (others : Others τ σ) (c : Course τ σ) : Prop where
  processed_le : c.bench.worker.processed ≤ c.bench.worker.generation
  processed_mono : ∀ d, Step others c d → c.bench.worker.processed ≤ d.bench.worker.processed
  /-- The last completed pass stands first. -/
  ascending : c.bench.completed.Pairwise fun a a' => a'.pass.generation < a.pass.generation
  served : c.bench.worker.processed = c.bench.worker.generation →
    ∀ id, c.bench.worker.session = some id →
      ∃ a, c.bench.completed.head? = some a ∧ a.pass.generation = c.bench.worker.generation ∧
        a.session = id ∧ c.bench.raised < a.began

theorem Reachable.serves [Task τ σ] [LawfulTask τ] {others : Others τ σ} {task : τ} {s : Store}
    {y : σ} (h : Reachable others task s y c) : c.Serves others where
  processed_le := h.sound.processed_le
  processed_mono d hstep := by
    cases hstep with
    | own move => exact move.processed_le h.sound
    | others => exact Nat.le_refl _
  ascending := h.sound.descending
  served hproc _ hid := h.sound.served hproc hid

/-- Workers that survey a directory with whatever lawful visitors, and workers that run jobs of
whatever kind, lose no request for a pass, whatever others do in the meantime. -/
theorem requests_are_served :
    (∀ (ν σ : Type) [Visitor ν σ] [LawfulVisitor ν] (others : Others (Survey ν) σ) (t : Survey ν)
      (s : Store) (y : σ) (c : Course (Survey ν) σ),
      Reachable others t s y c → c.Serves others) ∧
    ∀ (J κ : Type) [Jobs.Job J κ] (others : Others (Jobs.Runner J) (Jobs.Board J κ))
      (r : Jobs.Runner J) (s : Store) (b : Jobs.Board J κ)
      (c : Course (Jobs.Runner J) (Jobs.Board J κ)), Reachable others r s b c → c.Serves others :=
  ⟨fun _ _ _ _ _ _ _ _ _ h => h.serves, fun _ _ _ _ _ _ _ _ h => h.serves⟩

/-- A survey of the top level with a visitor that asks for nothing. -/
def topLevelSurvey : Survey Rehearsal.Visitor := .make "/" 10 [⟨"watch", [], []⟩]

/-- A run with two passes of it, the second of them asked for from outside. -/
def surveyedTwice : Course (Survey Rehearsal.Visitor) (List Rehearsal.Entry) :=
  (start topLevelSurvey {} []).round.trigger.round

/-- A board on which one job waits. -/
def boardOfOne : Jobs.Board Jobs.PathBuild Unit :=
  (({ common := () } : Jobs.Board Jobs.PathBuild Unit).submit ⟨"/a/b"⟩ 3).2

/-- A run in which that job is done. -/
def jobDone : Course (Jobs.Runner Jobs.PathBuild) (Jobs.Board Jobs.PathBuild Unit) :=
  (start {} {} boardOfOne).round

theorem reachable_surveyedTwice
    (others : Others (Survey Rehearsal.Visitor) (List Rehearsal.Entry)) :
    Reachable others topLevelSurvey {} [] surveyedTwice := by
  have hstart : Reachable others topLevelSurvey {} [] (start topLevelSurvey {} []) := .refl
  have hfirst := reachable_round hstart ⟨rfl, rfl⟩ 0 {}
  exact reachable_round (hfirst.tail (.own (.trigger _))) ⟨rfl, rfl⟩ 0 {}

theorem reachable_jobDone
    (others : Others (Jobs.Runner Jobs.PathBuild) (Jobs.Board Jobs.PathBuild Unit)) :
    Reachable others {} {} boardOfOne jobDone :=
  reachable_round .refl ⟨rfl, rfl⟩ 0 {}

theorem requests_are_served_of_survey_and_job :
    surveyedTwice.Serves (fun _ _ _ => True) ∧
      surveyedTwice.bench.worker.processed = surveyedTwice.bench.worker.generation ∧
      surveyedTwice.bench.worker.session = some 1 ∧ surveyedTwice.bench.completed.length = 2 ∧
      jobDone.Serves (fun _ _ _ => True) ∧
      jobDone.bench.worker.processed = jobDone.bench.worker.generation ∧
      jobDone.bench.worker.session = some 1 ∧ jobDone.bench.completed.length = 1 :=
  ⟨requests_are_served.1 _ _ _ _ _ _ _ (reachable_surveyedTwice _), by decide, by decide,
    by decide, requests_are_served.2 _ _ _ _ _ _ _ (reachable_jobDone _), by decide, by decide,
    by decide⟩

end Course

end Worker

end ServiceRegistry
