import ServiceRegistry.Proofs.Script.Turns
import ServiceRegistry.Proofs.Worker.Deeds
import ServiceRegistry.Proofs.Worker.Gating

/-! # Single passes

A worker that is not disconnected has a session (`Worker.Course.Reachable.holds`). So when its task
asks for a generation above the last processed one, a tick that finds it not disconnected begins a
pass (`Worker.Course.tick_link_iff`). What is under way from then on is a run of that pass amid
others, until it ends (`Worker.Course.exists_turns`). -/

namespace ServiceRegistry.Worker

open Relation

variable {τ σ : Type} (w : Worker τ) (s : Store)

/-! ### Sessions -/

/-- There is a session unless the worker is disconnected. -/
def Holds : Prop := w.link ≠ .disconnected → w.session.isSome = true

theorem holds_close : (w.close s).1.Holds := fun hlink => absurd (Gate.close_link w s) hlink

theorem holds_heed (es : List Store.Event) (h : w.session.isSome = true) :
    (w.heed s es).1.Holds := by
  induction es generalizing w with
  | nil => exact fun _ => h
  | cons e es ih =>
      unfold heed
      split
      · exact w.holds_close s
      · exact ih (w.note e) (by rwa [note_session])

theorem holds_receive (h : w.Holds) : (w.receive s).1.Holds := by
  unfold receive
  split
  · exact h
  · next id hid => exact w.holds_heed _ _ (by rw [hid]; rfl)

theorem holds_open (h : w.Holds) : (w.open' s).1.Holds := by
  unfold open'
  split
  · exact h
  · split
    · exact fun _ => rfl
    · exact h

theorem holds_settle (h : w.Holds) : (w.settle s receive receive).1.Holds := by
  unfold settle
  dsimp only
  split
  · exact w.holds_receive s h
  · exact holds_receive _ _ (holds_open _ _ (w.holds_receive s h))

theorem holds_beginTick [Task τ σ] (x : σ) (h : w.Holds) :
    (w.beginTick s receive receive x).2.1.Holds := by
  intro hlink
  have hsettled := holds_settle { w with ticks := w.ticks + 1 } s h
  refine (congrArg Option.isSome (decide_session _ x w.ticks)).trans (hsettled ?_)
  exact fun hdisconnected => hlink ((Gate.decide_keeps_link _ x w.ticks).trans hdisconnected)

theorem holds_endPass (pass : Pass) (task : τ) (result : Except StoreError Bool)
    (h : w.Holds) : (w.endPass s pass task result).1.Holds := by
  unfold endPass
  dsimp only
  split
  · exact fun hlink => h fun hdisconnected => hlink (by simp [hdisconnected])
  · split
    · exact fun hlink => absurd rfl hlink
    · split
      · exact holds_close _ s
      · exact h

namespace Course

variable {c d : Course τ σ} [Task τ σ]

theorem Move.holds (hm : Move c d) (h : c.bench.worker.Holds) : d.bench.worker.Holds := by
  cases hm with
  | trigger => exact h
  | tick idle => exact holds_beginTick _ c.store c.shared h
  | work underway step => exact h
  | finish underway => exact holds_endPass _ _ _ _ _ h
  | stop idle => exact holds_close _ c.store

theorem Reachable.holds {others : Others τ σ} {task : τ} {s : Store} {y : σ}
    (h : Reachable others task s y c) : c.bench.worker.Holds := by
  induction h with
  | refl => exact fun hlink => absurd rfl hlink
  | tail _ hstep ih =>
      cases hstep with
      | own move => exact move.holds ih
      | others => exact ih

/-! ### From a tick to the end of a pass -/

/-- If the task asks for a generation that was not processed, whatever the generation is by then, a
tick begins a pass if and only if it finds the worker not disconnected. -/
theorem tick_link_iff {others : Others τ σ} {task : τ} {s : Store} {y : σ}
    (h : Reachable others task s y c)
    (hasks : ∀ generation, c.bench.worker.generation ≤ generation → c.bench.worker.processed <
      (Task.request c.bench.worker.task c.shared c.bench.worker.ticks generation).2) :
    c.tick.bench.worker.link ≠ .disconnected ↔
      ∃ a, c.tick.bench.underway =
        some (a, Task.work c.tick.bench.worker.task a.session a.pass) := by
  let begun : Worker τ := { c.bench.worker with ticks := c.bench.worker.ticks + 1 }
  let settled : Worker τ := (begun.settle c.store receive receive).1
  have hadv : Advances begun settled := begun.advances_settle c.store
  have htask : settled.task = c.bench.worker.task := begun.settle_task c.store
  have hholds : settled.Holds := begun.holds_settle c.store h.holds
  have hlink : c.tick.bench.worker.link = settled.link := Gate.decide_keeps_link settled _ _
  have hunderway : c.tick.bench.underway =
      ((settled.decide c.shared c.bench.worker.ticks).1).map fun p =>
        ({ session := p.1, pass := p.2, began := c.bench.moment + 2 },
          Task.work c.tick.bench.worker.task p.1 p.2) := rfl
  let generation := (Task.request settled.task c.shared c.bench.worker.ticks settled.generation).2
  have hlt : settled.processed < generation := by
    simp only [generation, hadv.processed_eq, htask]
    exact hasks settled.generation hadv.generation_le
  rw [hunderway]
  refine ⟨fun hne => ?_, fun ⟨a, ha⟩ hdisconnected => ?_⟩
  · rw [hlink] at hne
    obtain ⟨id, hid⟩ := Option.isSome_iff_exists.mp (hholds hne)
    have hdue : (settled.decide c.shared c.bench.worker.ticks).1 =
        some (id, ⟨c.bench.worker.ticks, generation⟩) := by
      rw [Worker.decide, if_neg hne]
      dsimp only
      rw [hid]
      exact if_neg (Nat.not_le.mpr hlt)
    exact ⟨_, congrArg (Option.map _) hdue⟩
  · rw [decide_of_disconnected settled (hlink ▸ hdisconnected)] at ha
    cases ha

/-- A step of a run in which the pass that is under way goes on. -/
def GoesOn (others : Others τ σ) (c d : Course τ σ) : Prop :=
  Step others c d ∧ c.bench.underway.isSome = true ∧ d.bench.underway.isSome = true

theorem isSome_of_goesOn {others : Others τ σ} (h : ReflTransGen (GoesOn others) c d)
    (hd : d.bench.underway.isSome = true) : c.bench.underway.isSome = true := by
  rcases ReflTransGen.cases_head h with rfl | ⟨_, hstep, -⟩
  · exact hd
  · exact hstep.2.1

/-- As long as a pass goes on, it is a run of its script amid others, and its account has the calls
that were made. -/
theorem exists_turns {others : Others τ σ} {acts : Store × σ → Store × σ → Prop}
    (hacts : ∀ b before after, b.isOver = false → others b before after → acts before after)
    (h : ReflTransGen (GoesOn others) c d) {a : Account}
    {x : Script σ (τ × Except StoreError Bool)} (underway : c.bench.underway = some (a, x))
    (isOver : c.bench.isOver = false) :
    ∃ a' x' ts, d.bench.underway = some (a', x') ∧ d.bench.isOver = false ∧
      a'.session = a.session ∧ a'.heard = a.heard ++ ts.map (·.exchange) ∧
      x.Turns acts a.session (c.store, c.shared) ts x' (d.store, d.shared) := by
  induction h with
  | refl => exact ⟨a, x, [], underway, isOver, rfl, (List.append_nil _).symm, .refl _ _⟩
  | tail _ hstep ih =>
      obtain ⟨a', x', ts, hunderway, hover, hsession, hheard, hturns⟩ := ih
      obtain ⟨hstep, -, hon⟩ := hstep
      cases hstep with
      | others hothers =>
          have hact := hacts _ _ _ hover hothers
          have hmore := hturns.trans (.others hact (.refl x' _))
          exact ⟨a', x', _, hunderway, hover, hsession, by simpa using hheard, hmore⟩
      | own move =>
          cases move with
          | trigger => exact ⟨a', x', ts, hunderway, hover, hsession, hheard, hturns⟩
          | tick idle => simp [idle.1] at hunderway
          | stop idle => simp [idle.1] at hunderway
          | finish => cases hon
          | @work _ _ x'' e _ _ underway' step =>
              obtain ⟨rfl, rfl⟩ := Prod.mk.inj (Option.some.inj (underway'.symm.trans hunderway))
              refine ⟨_, x'', ts ++ (e.toList.map _ ++ []), rfl, hover, hsession, ?_,
                hturns.trans (.own (hsession ▸ step) (.refl _ _))⟩
              rw [Account.hear, hheard]
              cases e <;> simp

end Course

end ServiceRegistry.Worker
