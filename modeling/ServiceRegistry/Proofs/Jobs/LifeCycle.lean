import ServiceRegistry.Proofs.Jobs.Attempts
import ServiceRegistry.Proofs.Worker.Deeds

/-! # The life of a job

In a run of a worker that takes watched jobs from a board, the chronicle tells how each job lived
(`Board.LifeCycle`): the jobs are tried in the order in which they were accepted, one attempt after
the other, no more often than they may be and not after a success; and how a job ended is what its
attempts came to. When the board was closed, every job has ended or is known never to end.

The invariant of a run is that the runner rests between two passes, and that what is left of a pass
upholds that it will (`WatchedCourse.Stage`). -/

namespace ServiceRegistry.Jobs

open Relation Worker

variable {J κ : Type}

/-! ### Lives -/

/-- The life of a job that may be tried so often. While a pass is under way, a job that has not
ended may have been tried for the last time just now. -/
structure Board.Life (b : Board (Watched J) (Chronicle κ)) (atRest : Prop) (id : JobId)
    (limit : Nat) (t : Ticket (Watched J)) : Prop where
  begun_le : begun b.common.marks id ≤ max 1 limit
  done_iff : t.state ≠ .running ∨ atRest →
    (t.state = .done ↔ (results b.common.marks id).getLast? = some (.ok true))
  failed_iff : t.state ≠ .running ∨ atRest →
    (t.state = .failed ↔ (results b.common.marks id).length = max 1 limit ∧
      ∀ r ∈ results b.common.marks id, r ≠ .ok true)
  /-- A job that is skipped might have been tried once more. -/
  cancelled : t.state = .cancelled → t.cancelRequested = true ∧
    begun b.common.marks id < max 1 limit ∧ ∀ r ∈ results b.common.marks id, r ≠ .ok true
  /-- Nothing is known of the end of a job before it ended or the board was closed. -/
  awaited : t.state = .running → b.isClosed = false → b.outcome? id = none
  /-- The three ways in which a job may be found when the worker is gone. -/
  found : t.state ≠ .running ∨ b.isClosed = true →
    (∃ w : Watched J, w.id = id ∧ (t.state = .done ∨ t.state = .cancelled) ∧
      b.outcome? id = some (.ok w)) ∨
    (t.state = .failed ∧ b.outcome? id = some (.error .failed)) ∨
    (t.state = .running ∧ b.outcome? id = some (.error .processorGone))

/-- What the chronicle of a board tells. -/
structure Board.LifeCycle (b : Board (Watched J) (Chronicle κ)) (atRest : Prop) : Prop where
  /-- Every attempt ends before the next one begins. -/
  one_by_one : ∃ ongoing, Alternates b.common.marks ongoing
  in_order : b.common.marks.Pairwise fun x y => x.id ≤ y.id
  /-- Before a job is tried, those that were accepted before it have ended. -/
  turn : ∀ x ∈ b.common.marks, ∀ (id : Nat) t, id < x.id → b.tickets[id]? = some t →
    t.state ≠ .running
  after_success : b.common.marks.Pairwise fun x y => ∀ id, x = .ended id (.ok true) → y.id ≠ id
  limits_length : b.common.limits.length = b.tickets.length
  life : ∀ (id : JobId) t limit, b.tickets[id]? = some t → b.common.limits[id]? = some limit →
    b.Life atRest id limit t

namespace Board.At

variable {b : Board (Watched J) (Chronicle κ)} {hand : Option Hold}

/-- An attempt that goes on is one at the job in hand. -/
theorem begun_eq (h : b.At hand) {id : JobId} (hid : hand.map (·.id) ≠ some id) :
    begun b.common.marks id = (results b.common.marks id).length := by
  rw [h.alternates.begun_eq, if_neg, Nat.add_zero]
  intro hongoing
  obtain ⟨g, rfl, hg⟩ := Option.bind_eq_some_iff.mp hongoing
  refine hid ?_
  unfold Hold.ongoing at hg
  split at hg
  · exact hg
  · cases hg

theorem begun_le (h : b.At hand) {id limit : Nat} (hl : b.common.limits[id]? = some limit)
    (hp : b.tickets.length ≤ b.waiting.length + id ∨ hand.map (·.id) = some id) :
    begun b.common.marks id ≤ max 1 limit := by
  rcases hp with hwaits | hhand
  · have hne : hand.map (·.id) ≠ some id := fun hhand => by
      obtain ⟨g, rfl, rfl⟩ := Option.map_eq_some_iff.mp hhand
      have := (h.fits g rfl).latest
      omega
    rw [h.begun_eq hne, h.results_of_waits hwaits]
    exact Nat.zero_le _
  · obtain ⟨g, rfl, rfl⟩ := Option.map_eq_some_iff.mp hhand
    obtain ⟨-, left_pos, limit', earlier, hl', hearlier, htries, -⟩ := h.fits g rfl
    obtain rfl : limit' = limit := Option.some.inj (hl'.symm.trans hl)
    rw [h.alternates.begun_eq, hearlier, List.length_append, Option.bind_some]
    have hlast : g.phase.results.length + (if g.ongoing = some g.id then 1 else 0) ≤ 1 := by
      unfold Hold.ongoing
      cases g.phase <;> simp [Phase.results]
    omega

/-- A job that may still be tried is not at its end. -/
theorem life_of_pending {atRest : Prop} {id : JobId} {limit : Nat} {t : Ticket (Watched J)}
    (ht : b.tickets[id]? = some t) (hstate : t.state = .running) (hreply : t.reply = .awaited)
    (hopen : b.isClosed = false) (hbegun : begun b.common.marks id ≤ max 1 limit)
    (hrest : atRest → (∀ r ∈ results b.common.marks id, r ≠ .ok true) ∧
      (results b.common.marks id).length < max 1 limit) : b.Life atRest id limit t where
  begun_le := hbegun
  done_iff h := by
    obtain ⟨hfail, -⟩ := hrest (h.resolve_left fun hne => hne hstate)
    refine ⟨fun hs => by simp [hstate] at hs, fun hlast => ?_⟩
    exact absurd rfl (hfail _ (List.mem_of_getLast? hlast))
  failed_iff h := by
    obtain ⟨-, hlt⟩ := hrest (h.resolve_left fun hne => hne hstate)
    exact ⟨fun hs => by simp [hstate] at hs, fun hall => by omega⟩
  cancelled hs := by simp [hstate] at hs
  awaited _ _ := by simp [outcome?, ht, hreply]
  found h := by simp [hstate, hopen] at h

theorem life_of_fate {atRest : Prop} {id : JobId} {limit : Nat} {t : Ticket (Watched J)}
    (ht : b.tickets[id]? = some t)
    (hbegun : begun b.common.marks id = (results b.common.marks id).length)
    (hfate : Fate b.isClosed id limit (results b.common.marks id) t) :
    b.Life atRest id limit t := by
  have hlast : (∀ r ∈ results b.common.marks id, r ≠ .ok true) →
      (results b.common.marks id).getLast? ≠ some (.ok true) := fun hfail hlast =>
    hfail _ (List.mem_of_getLast? hlast) rfl
  cases hfate with
  | done job earlier state reply results_eq failures bound =>
      constructor
      · rw [hbegun, results_eq, List.length_append, List.length_singleton]
        omega
      · simp [state, results_eq]
      · simp [state, results_eq]
      · simp [state]
      · simp [state]
      · exact fun _ => .inl ⟨⟨id, job⟩, rfl, .inl state, by simp [outcome?, ht, reply]⟩
  | cancelled job state reply asked failures bound =>
      constructor
      · omega
      · simp [state, hlast failures]
      · simp [state]
        omega
      · exact fun _ => ⟨asked, by omega, failures⟩
      · simp [state]
      · exact fun _ => .inl ⟨⟨id, job⟩, rfl, .inr state, by simp [outcome?, ht, reply]⟩
  | failed state reply failures bound =>
      constructor
      · omega
      · simp [state, hlast failures]
      · exact fun _ => ⟨fun _ => ⟨bound, failures⟩, fun _ => state⟩
      · simp [state]
      · simp [state]
      · exact fun _ => .inr (.inl ⟨state, by simp [outcome?, ht, reply]⟩)
  | left closed state reply failures bound =>
      constructor
      · omega
      · simp [state, hlast failures]
      · simp [state]
        omega
      · simp [state]
      · simp [closed]
      · exact fun _ => .inr (.inr ⟨state, by simp [outcome?, ht, reply]⟩)

theorem life (h : b.At hand) {atRest : Prop} (hrest : atRest → ∀ g, hand = some g → g.phase = .due)
    {id : JobId} {limit : Nat} {t : Ticket (Watched J)} (ht : b.tickets[id]? = some t)
    (hl : b.common.limits[id]? = some limit) : b.Life atRest id limit t := by
  have hid := (List.getElem?_eq_some_iff.mp ht).1
  by_cases hp : b.tickets.length ≤ b.waiting.length + id ∨ hand.map (·.id) = some id
  · obtain ⟨hstate, hreply⟩ := h.pending id t ht hp
    have hopen : b.isClosed = false := Bool.eq_false_iff.mpr fun hclosed => by
      obtain ⟨hwaiting, rfl⟩ := h.closed hclosed
      simp only [hwaiting, List.length_nil, Option.map_none, reduceCtorEq, or_false] at hp
      omega
    refine life_of_pending ht hstate hreply hopen (h.begun_le hl hp) fun hr => ?_
    obtain ⟨limit', hl', htried⟩ := h.may_be_tried (hrest hr) hid hp
    obtain rfl : limit' = limit := Option.some.inj (hl'.symm.trans hl)
    exact htried
  · obtain ⟨hlt, hne⟩ := not_or.mp hp
    obtain ⟨limit', hl', hfate⟩ := h.ended id t ht (Nat.lt_of_not_le hlt) hne
    obtain rfl : limit' = limit := Option.some.inj (hl'.symm.trans hl)
    exact life_of_fate ht (h.begun_eq hne) hfate

theorem lifeCycle (h : b.At hand) {atRest : Prop}
    (hrest : atRest → ∀ g, hand = some g → g.phase = .due) : b.LifeCycle atRest where
  one_by_one := ⟨_, h.alternates⟩
  in_order := h.ordered.imp fun hxy => hxy.1
  turn := h.turn
  after_success := h.ordered.imp fun hxy id hx => Nat.ne_of_gt (hxy.2 id hx)
  limits_length := h.limits_length
  life _ _ _ ht hl := h.life hrest ht hl

end Board.At

/-! ### Runs -/

namespace Runner.Rests

variable {r : Runner (Watched J)} {b b' : Board (Watched J) (Chronicle κ)}

theorem held (h : r.Rests b) : ∃ hand, b.At hand ∧ (∀ g, hand = some g → g.phase = .due) ∧
    hand.map (·.id) = r.current.map (·.id) := by
  unfold Rests at h
  split at h
  · next hcurrent => exact ⟨none, h, fun g hg => by simp at hg, by simp [hcurrent]⟩
  · next order hcurrent =>
      refine ⟨_, h.1, fun g hg => ?_, by simp [hcurrent]⟩
      rw [← Option.some.inj hg]

theorem attend (h : r.Rests b) (hb : b.Attends b') : r.Rests b' := by
  unfold Rests at h ⊢
  split
  · next hcurrent =>
      simp only [hcurrent] at h
      exact h.attend b b' hb
  · next order hcurrent =>
      simp only [hcurrent] at h
      exact ⟨h.1.attend b b' hb, h.2⟩

theorem drift (h : r.Rests b) (hb : ReflTransGen Board.Attends b b') : r.Rests b' :=
  Script.stable_drift (P := r.Rests) (fun _ _ h hb => h.attend hb) h hb

end Runner.Rests

theorem Board.At.drift {b b' : Board (Watched J) (Chronicle κ)} {hand : Option Hold} (h : b.At hand)
    (hb : ReflTransGen Board.Attends b b') : b'.At hand := Script.stable_drift attend h hb

theorem Board.Attends.isClosed {b b' : Board (Watched J) (Chronicle κ)} (h : b.Attends b') :
    b'.isClosed = b.isClosed := by
  obtain ⟨e, rfl⟩ := h
  cases b.watches e with
  | accepted job limit isOpen isClosed waiting tickets limits marks => exact isClosed
  | asked id isClosed waiting tickets limits marks => exact isClosed
  | passed isClosed waiting tickets limits marks => exact isClosed

theorem Board.isClosed_of_drift {b b' : Board (Watched J) (Chronicle κ)}
    (hb : ReflTransGen Board.Attends b b') : b'.isClosed = b.isClosed :=
  Script.stable_drift (P := fun b' => b'.isClosed = b.isClosed)
    (fun _ _ h hb => hb.isClosed.trans h) rfl hb

theorem Board.becomes_of_drift {b b' : Board (Watched J) (Chronicle κ)}
    (hb : ReflTransGen Board.Attends b b') : b.Becomes b' :=
  Script.stable_drift (P := b.Becomes) (fun _ _ h hb => h.trans hb.becomes) (.refl b) hb

/-- The runner of a board stays as it is when a tick begins. -/
theorem Runner.beginTick_task [Job J κ] (w : Worker (Runner J)) (s : Store) (b : Board J κ) :
    (w.beginTick s receive receive b).2.1.task = w.task := by
  have hdecide : ∀ (w : Worker (Runner J)) (tick : Nat), (w.decide b tick).2.task = w.task := by
    intro w tick
    unfold Worker.decide
    split
    · rfl
    · dsimp only
      split <;> rfl
  exact (hdecide _ w.ticks).trans (settle_task _ s)

/-- A course of a worker that takes watched jobs. -/
abbrev WatchedCourse (J κ : Type) := Course (Runner (Watched J)) (Board (Watched J) (Chronicle κ))

/-- The runner rests, is in a pass, or is gone. -/
inductive WatchedCourse.Stage (c : WatchedCourse J κ) : Prop
  | rests (underway : c.bench.underway = none) (rests : c.bench.worker.task.Rests c.shared)
  | works {a : Account} {x : Script _ _} (isOver : c.bench.isOver = false)
      (underway : c.bench.underway = some (a, x)) (held : ∃ hand, c.shared.At hand)
      (upholds : x.Upholds Board.Attends Board.Proceeds (fun out b => out.1.Rests b) c.shared)
  | gone (underway : c.bench.underway = none) (isOver : c.bench.isOver = true)
      (isClosed : c.shared.isClosed = true) (held : c.shared.At none)

namespace WatchedCourse.Stage

variable {c d : WatchedCourse J κ}

theorem lifeCycle (h : c.Stage) : c.shared.LifeCycle (c.bench.underway = none) := by
  cases h with
  | rests underway rests =>
      obtain ⟨hand, hat, hdue, -⟩ := rests.held
      exact hat.lifeCycle fun _ => hdue
  | works isOver underway held upholds =>
      obtain ⟨hand, hat⟩ := held
      exact hat.lifeCycle fun hr => by simp [underway] at hr
  | gone underway isOver isClosed held => exact held.lifeCycle fun _ g hg => by simp at hg

theorem rests_of_isIdle (h : c.Stage) (idle : c.bench.IsIdle) :
    c.bench.worker.task.Rests c.shared := by
  cases h with
  | rests underway rests => exact rests
  | works isOver underway => simp [idle.1] at underway
  | gone underway isOver => simp [idle.2] at isOver

theorem move [Job J κ] (h : c.Stage) (hm : Course.Move c d) :
    d.Stage ∧ c.shared.Becomes d.shared := by
  cases hm with
  | trigger =>
      refine ⟨?_, .refl _⟩
      cases h with
      | rests underway rests => exact .rests underway rests
      | works isOver underway held upholds => exact .works isOver underway held upholds
      | gone underway isOver isClosed held => exact .gone underway isOver isClosed held
  | tick idle =>
      refine ⟨?_, .refl _⟩
      have rests := h.rests_of_isIdle idle
      have htask := Runner.beginTick_task c.bench.worker c.store c.shared
      simp only [Course.tick]
      generalize c.bench.worker.beginTick c.store receive receive c.shared = begun at htask ⊢
      obtain ⟨due, w, s⟩ := begun
      dsimp only at htask
      rw [← htask] at rests
      obtain ⟨hand, hat, -⟩ := rests.held
      cases due with
      | none => exact .rests rfl rests
      | some due => exact .works idle.2 rfl ⟨hand, hat⟩ (w.task.upholds_work due.1 rests)
  | work underway step =>
      cases h with
      | rests underway' => simp [underway] at underway'
      | works isOver underway' held upholds =>
          obtain ⟨rfl, rfl⟩ := Prod.mk.inj (Option.some.inj (underway'.symm.trans underway))
          obtain ⟨hmay, hrest⟩ := upholds.step step
          rcases hmay with rfl | ⟨held', hbecomes⟩
          · exact ⟨.works isOver rfl held hrest, .refl _⟩
          · exact ⟨.works isOver rfl held' hrest, hbecomes⟩
      | gone underway' => simp [underway] at underway'
  | finish underway =>
      refine ⟨?_, .refl _⟩
      cases h with
      | rests underway' => simp [underway] at underway'
      | works isOver underway' held upholds =>
          obtain ⟨rfl, rfl⟩ := Prod.mk.inj (Option.some.inj (underway'.symm.trans underway))
          refine .rests rfl ?_
          have hpost := upholds.post_of_done
          simp only [Course.finish, endPass_task]
          exact hpost
      | gone underway' => simp [underway] at underway'
  | stop idle =>
      refine ⟨.rests idle.1 ?_, .refl _⟩
      simp only [Course.stop, close_task]
      exact h.rests_of_isIdle idle

theorem others {s : Store} {b : Board (Watched J) (Chronicle κ)} (h : c.Stage)
    (hb : workshop Board.Attends c.bench (c.store, c.shared) (s, b)) :
    Stage { c with store := s, shared := b } ∧ c.shared.Becomes b := by
  rcases hb with hdrift | ⟨hover, hopen, hclose⟩
  · have hdrift : ReflTransGen Board.Attends c.shared b := hdrift
    refine ⟨?_, Board.becomes_of_drift hdrift⟩
    cases h with
    | rests underway rests => exact .rests underway (rests.drift hdrift)
    | works isOver underway held upholds =>
        obtain ⟨hand, hat⟩ := held
        exact .works isOver underway ⟨hand, hat.drift hdrift⟩ (upholds.drift hdrift)
    | gone underway isOver isClosed held =>
        have hclosed := (Board.isClosed_of_drift hdrift).trans isClosed
        exact .gone underway isOver hclosed (held.drift hdrift)
  · dsimp only at hopen hclose
    subst hclose
    refine ⟨?_, Board.becomes_close _ _⟩
    cases h with
    | rests underway rests =>
        obtain ⟨hand, hat, hdue, hhand⟩ := rests.held
        exact .gone underway hover rfl (hhand ▸ hat.close hdue)
    | works isOver => simp [isOver] at hover
    | gone underway isOver isClosed => simp [isClosed] at hopen

theorem step [Job J κ] (h : c.Stage) (hs : Course.Step (workshop Board.Attends) c d) :
    d.Stage ∧ c.shared.Becomes d.shared := by
  cases hs with
  | own move => exact h.move move
  | others hb => exact h.others hb

theorem run [Job J κ] (h : c.Stage)
    (hr : ReflTransGen (Course.Step (workshop Board.Attends)) c d) :
    d.Stage ∧ c.shared.Becomes d.shared := by
  induction hr with
  | refl => exact ⟨h, .refl _⟩
  | tail _ hs ih =>
      obtain ⟨hstage, hbecomes⟩ := ih
      obtain ⟨hstage', hbecomes'⟩ := hstage.step hs
      exact ⟨hstage', hbecomes.trans hbecomes'⟩

theorem of_reachable [Job J κ] {s : Store} {k : κ}
    (h : Course.Reachable (workshop Board.Attends) {} s { common := { inner := k } } c) :
    c.Stage := by
  have hstart : Stage (Course.start {} s { common := { inner := k } } : WatchedCourse J κ) :=
    .rests rfl (Board.At.start k)
  exact (hstart.run h).1

end WatchedCourse.Stage

end ServiceRegistry.Jobs
