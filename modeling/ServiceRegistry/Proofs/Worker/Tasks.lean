import ServiceRegistry.Proofs.Worker.Runs

/-! # Workers and their tasks

A worker looks into its task only when it asks for a pass. So what it does with its session and with
the result of a pass is the same with any other task in its place (`Worker.mapTask`), and so is a
tick if the two tasks ask for the same passes (`mapTask_beginTick`). -/

namespace ServiceRegistry.Worker

variable {τ τ' σ σ' : Type}

/-- The worker with another task in the place of its own. -/
def mapTask (f : τ → τ') (w : Worker τ) : Worker τ' where
  task := f w.task
  generation := w.generation
  processed := w.processed
  ticks := w.ticks
  session := w.session
  link := w.link

/-- The same, for what a worker leaves of itself and of the store. -/
def mapLeft (f : τ → τ') (out : Worker τ × Store) : Worker τ' × Store := (out.1.mapTask f, out.2)

variable (f : τ → τ') (w : Worker τ) (s : Store)

theorem mapTask_close : (w.mapTask f).close s = mapLeft f (w.close s) := by
  obtain ⟨task, generation, processed, ticks, session, link⟩ := w
  cases session <;> rfl

theorem mapTask_open : (w.mapTask f).open' s = mapLeft f (w.open' s) := by
  obtain ⟨task, generation, processed, ticks, session, link⟩ := w
  cases session with
  | some id => rfl
  | none =>
      unfold open' mapTask mapLeft
      dsimp only
      split <;> rfl

theorem mapTask_note (e : Store.Event) : (w.mapTask f).note e = (w.note e).mapTask f := by
  unfold note
  split <;> rfl

theorem mapTask_heed (es : List Store.Event) :
    (w.mapTask f).heed s es = mapLeft f (w.heed s es) := by
  induction es generalizing w with
  | nil => rfl
  | cons e es ih =>
      unfold heed
      split
      · exact w.mapTask_close f s
      · rw [mapTask_note]
        exact ih _

theorem mapTask_receive : (w.mapTask f).receive s = mapLeft f (w.receive s) := by
  obtain ⟨task, generation, processed, ticks, session, link⟩ := w
  cases session with
  | none => rfl
  | some id => exact mapTask_heed f _ _ _

theorem mapTask_settle :
    (w.mapTask f).settle s receive receive = mapLeft f (w.settle s receive receive) := by
  unfold settle
  rw [mapTask_receive]
  generalize w.receive s = out
  obtain ⟨w', s'⟩ := out
  dsimp only [mapLeft]
  have hlink : (w'.mapTask f).link = w'.link := rfl
  rw [hlink]
  split
  · rfl
  · rw [mapTask_open]
    exact mapTask_receive f _ _

theorem mapTask_endPass (pass : Pass) (task : τ) (result : Except StoreError Bool) :
    (w.mapTask f).endPass s pass (f task) result = mapLeft f (w.endPass s pass task result) := by
  unfold endPass
  cases result with
  | ok complete => rfl
  | error e =>
      dsimp only
      split
      · rfl
      · split
        · exact mapTask_close f { w with task } s
        · rfl

/-- A tick is the same with a task in the place of another that asks for the same passes. -/
theorem mapTask_beginTick [Task τ σ] [Task τ' σ'] (x : σ) (x' : σ')
    (hrequest : ∀ (t : τ) (tick generation : Nat), Task.request (f t) x' tick generation =
      (f (Task.request t x tick generation).1, (Task.request t x tick generation).2)) :
    (w.mapTask f).beginTick s receive receive x' =
      ((w.beginTick s receive receive x).1, (w.beginTick s receive receive x).2.1.mapTask f,
        (w.beginTick s receive receive x).2.2) := by
  have hdecide : ∀ (w : Worker τ) (tick : Nat), (w.mapTask f).decide x' tick =
      ((w.decide x tick).1, (w.decide x tick).2.mapTask f) := by
    intro w tick
    obtain ⟨task, generation, processed, ticks, session, link⟩ := w
    unfold Worker.decide mapTask
    dsimp only
    rw [hrequest]
    split
    · rfl
    · cases session <;> rfl
  have hticked : ({ w.mapTask f with ticks := (w.mapTask f).ticks + 1 } : Worker τ') =
      mapTask f { w with ticks := w.ticks + 1 } := rfl
  unfold beginTick
  simp only [hticked, mapTask_settle, mapLeft, hdecide]
  rfl

/-- The next steps of the pass that is under way. -/
theorem Course.moves_of_steps [Task τ σ] {c : Course τ σ} {a : Account}
    {x x' : Script σ (τ × Except StoreError Bool)} {s : Store} {y : σ} {es : List Exchange}
    (underway : c.bench.underway = some (a, x))
    (hs : x.Steps a.session c.store c.shared es x' s y) :
    Relation.ReflTransGen Move c
      ⟨{ c.bench with underway := some ({ a with heard := a.heard ++ es }, x') }, s, y⟩ := by
  obtain ⟨⟨worker, _, completed, moment, raised, isOver⟩, store, shared⟩ := c
  dsimp only at underway hs
  subst underway
  exact moves_steps (b := ⟨worker, none, completed, moment, raised, isOver⟩) hs

end ServiceRegistry.Worker
