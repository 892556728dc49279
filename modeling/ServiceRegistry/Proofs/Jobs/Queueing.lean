import ServiceRegistry.Proofs.Jobs.LifeCycle
import ServiceRegistry.Proofs.Jobs.Tallies
import ServiceRegistry.Proofs.Worker.Passes

/-! # The queue of a job board

A pass has a job in hand, either the one that was kept from the last pass or the oldest one that
waits (`Runner.TakesUp`). The job is skipped, or tried once, and then it has ended or is kept with
one attempt less (`Runner.Deals`).

The main result is `queue_is_accounted_for`: the count of the board is right all the time, and while
there is a job that waits or is kept, every tick that does not find the worker disconnected begins
such a pass. For a job that waits, the count makes the runner ask for a pass; for one that is kept,
the generation of the pass that kept it is still unprocessed. -/

namespace ServiceRegistry.Jobs

open Relation Worker

variable {J κ : Type}

/-! ### Passes -/

/-- The board is open, and its count is right. -/
def Board.IsInOrder (b : Board J κ) : Prop := b.isClosed = false ∧ b.Tallies

/-- The terms of the runner of a board: it leaves the board in order. -/
def Runner.terms : Script.Terms (Board J κ) where
  shared := Board.IsInOrder

/-- A pass that is complete leaves no job in hand. -/
def Runner.LetsGo (out : Runner J × Except StoreError Bool) : Prop :=
  Course.isComplete out.2 = true → out.1.current = none

theorem Board.IsInOrder.complete {b : Board J κ} (h : b.IsInOrder) (id : JobId) (state : State)
    (job : J) : (b.complete id state job).IsInOrder := ⟨h.1, h.2.congr rfl rfl rfl rfl⟩

theorem Board.IsInOrder.visits {b b' : Board J κ} (h : b.IsInOrder)
    (hvisits : ReflTransGen Board.IsVisited b b') : b'.IsInOrder := by
  refine Script.stable_drift (P := Board.IsInOrder) (fun b b' hb hvisit => ?_) h hvisits
  obtain ⟨e, he, rfl⟩ := hvisit
  exact ⟨(b.serve_isClosed e).trans hb.1, hb.2.serve hb.1 he⟩

namespace Runner

theorem keeps_retry (r : Runner J) (order : Order J) (out : Bool → Except StoreError Bool)
    (hout : Course.isComplete (out false) = false) :
    ((r.retry order).bind fun next => .done (next.1, out next.2)).Keeps
      (terms (κ := κ)) LetsGo := by
  unfold retry
  dsimp only
  split
  · intro hcomplete
    simp [hout] at hcomplete
  · exact ⟨fun b hb => ⟨hb.complete .., trivial⟩, fun _ => rfl⟩

variable [Job J κ]

theorem keeps_attempt (r : Runner J) (order : Order J) (id : SessionId) :
    (r.attempt order id).Keeps terms LetsGo := by
  intro b hb
  dsimp only
  split
  · exact ⟨fun b hb => ⟨hb.complete .., trivial⟩, fun _ => rfl⟩
  · refine Script.keeps_bind (Script.Keeps.mono (Script.keeps_zoom (Script.keeps_trivial _)
      (fun _ _ => trivial) (fun b k hb _ _ => ⟨⟨hb.1, hb.2.congr rfl rfl rfl rfl⟩, trivial⟩)
      (fun _ _ => trivial) fun _ _ _ => trivial) ?_)
    rintro ⟨job, result⟩ -
    match result with
    | .ok true => exact ⟨fun b hb => ⟨hb.complete .., trivial⟩, fun _ => rfl⟩
    | .ok false => exact r.keeps_retry { order with job } .ok rfl
    | .error e => exact r.keeps_retry { order with job } (fun _ => .error e) rfl

/-- A pass leaves the board in order, and a job stays in hand only if the pass is not complete. -/
theorem keeps_work (r : Runner J) (id : SessionId) : (r.work id).Keeps terms LetsGo := by
  unfold work
  split
  · next order _ => exact r.keeps_attempt order id
  · next hcurrent =>
      intro b hb
      dsimp only
      split
      · exact fun _ => hcurrent
      · exact ⟨fun b hb => ⟨⟨b.pick_isClosed.trans hb.1, hb.2.pick⟩, trivial⟩,
          keeps_attempt _ _ id⟩

end Runner

/-! ### What a pass comes to -/

/-- Amid what others do, the end of a job is noted. -/
def Board.Notes (id : JobId) (state : State) (job : J) (c c' : Store × Board J κ) : Prop :=
  ∃ c₁, Board.Amid c c₁ ∧ Board.Amid (c₁.1, c₁.2.complete id state job) c'

/-- How a job comes into hand, and how often it may still be tried. -/
inductive Runner.TakesUp (r : Runner J) :
    Store × Board J κ → Order J → (left : Nat) → Store × Board J κ → Prop
  | kept {c : Store × Board J κ} {order : Order J} (current : r.current = some order) :
      r.TakesUp c order r.attemptsLeft c
  | picked {c c' : Store × Board J κ} {order : Order J} (current : r.current = none)
      (before : Board.Amid c c') (oldest : c'.2.waiting.head? = some order) :
      r.TakesUp c order order.attempts (c'.1, c'.2.pick)

/-- What an attempt with a result comes to. -/
inductive Runner.Settles (order : Order J) (left : Nat) (job : J) :
    Except StoreError Bool → Store × Board J κ → Runner J × Except StoreError Bool →
      Store × Board J κ → Prop
  | done {c c' : Store × Board J κ} {r : Runner J} (noted : Board.Notes order.id .done job c c')
      (free : r.current = none) : Settles order left job (.ok true) c (r, .ok true) c'
  | kept {c c' : Store × Board J κ} {result : Except StoreError Bool} (failure : result ≠ .ok true)
      (more : 1 < left) (after : Board.Amid c c') :
      Settles order left job result c (⟨some { order with job }, left - 1⟩, result) c'
  | failed {c c' : Store × Board J κ} {result : Except StoreError Bool} {r : Runner J}
      (failure : result ≠ .ok true) (last : left ≤ 1)
      (noted : Board.Notes order.id .failed job c c') (free : r.current = none) :
      Settles order left job result c (r, result.map fun _ => true) c'

/-- What becomes of the job in hand: it is skipped, or tried once. The calls of the pass are those
of the attempt. -/
inductive Runner.Deals [Job J κ] (order : Order J) (left : Nat) (id : SessionId)
    (c : Store × Board J κ) : List Turn → Runner J × Except StoreError Bool →
      Store × Board J κ → Prop
  | skipped {c₁ c' : Store × Board J κ} {r : Runner J} (before : Board.Amid c c₁)
      (asked : c₁.2.isCancelRequested order.id = true)
      (noted : Board.Notes order.id .cancelled order.job c₁ c') (free : r.current = none) :
      Deals order left id c [] (r, .ok true) c'
  | tried {c₁ c₂ c' : Store × Board J κ} {ts : List Turn} {job : J}
      {result : Except StoreError Bool} {out : Runner J × Except StoreError Bool}
      (before : Board.Amid c c₁) (unasked : c₁.2.isCancelRequested order.id = false)
      (attempt : ((Job.attempt order.job id).zoom Board.common fun common (b : Board J κ) =>
        { b with common }).Turns Board.Amid id c₁ ts (.done (job, result)) c₂)
      (settles : Settles order left job result c₂ out c') : Deals order left id c ts out c'

theorem Board.Amid.of_run {c c' : Store × Board J κ} (h : ReflTransGen Board.Amid c c') :
    Board.Amid c c' := by
  induction h with
  | refl => exact .refl
  | tail _ hact ih => exact ih.trans hact

theorem Board.Amid.head?_waiting {c c' : Store × Board J κ} (h : Board.Amid c c') {order : Order J}
    (horder : c.2.waiting.head? = some order) : c'.2.waiting.head? = some order := by
  refine Script.stable_drift (P := fun b => b.waiting.head? = some order) (fun b b' hb hvisit => ?_)
    horder h
  obtain ⟨e, -, rfl⟩ := hvisit
  exact Board.head?_waiting_serve e hb

namespace Runner

variable {id : SessionId} {c c' : Store × Board J κ} {ts : List Turn}
  {out : Runner J × Except StoreError Bool}

/-- The end of a job is noted as the last thing in a pass. -/
theorem notes_of_change {order : JobId} {state : State} {job : J}
    {last out : Runner J × Except StoreError Bool}
    (h : (Script.change (·.complete order state job) (.done last)).Turns Board.Amid id c ts
      (.done out) c') : out = last ∧ ts = [] ∧ Board.Notes order state job c c' := by
  obtain ⟨c₁, hbefore, hdone⟩ := h.of_change
  obtain ⟨hout, hts, hafter⟩ := hdone.of_done
  exact ⟨Script.done.inj hout, hts, c₁, .of_run hbefore, .of_run hafter⟩

theorem retry_settles {r : Runner J} {order : Order J} {job : J} {result : Except StoreError Bool}
    (failure : result ≠ .ok true) (report : Bool → Except StoreError Bool)
    (hkept : report false = result) (hended : report true = result.map fun _ => true)
    (h : ((r.retry { order with job }).bind fun next => .done (next.1, report next.2)).Turns
      Board.Amid id c ts (.done out) c') :
    ts = [] ∧ Settles order r.attemptsLeft job result c out c' := by
  unfold retry at h
  dsimp only at h
  split at h
  · obtain ⟨hout, hts, hafter⟩ := h.of_done
    obtain rfl := Script.done.inj hout
    exact ⟨hts, hkept ▸ .kept (hkept.symm ▸ failure) (by omega) (.of_run hafter)⟩
  · obtain ⟨rfl, hts, hnoted⟩ := notes_of_change h
    rw [hended]
    exact ⟨hts, .failed failure (by omega) hnoted rfl⟩

variable [Job J κ]

theorem attempt_deals {r : Runner J} {order : Order J}
    (h : (r.attempt order id).Turns Board.Amid id c ts (.done out) c') :
    Deals order r.attemptsLeft id c ts out c' := by
  unfold attempt at h
  obtain ⟨c₁, hbefore, hrest⟩ := h.of_look
  dsimp only at hrest
  split at hrest
  · next hasked =>
      obtain ⟨rfl, rfl, hnoted⟩ := notes_of_change hrest
      exact .skipped (.of_run hbefore) hasked hnoted rfl
  · next hunasked =>
      obtain ⟨⟨job, result⟩, c₂, ts₁, ts₂, rfl, hattempt, hend⟩ := Script.Turns.of_bind hrest
      have hsettles : ts₂ = [] ∧ Settles order r.attemptsLeft job result c₂ out c' := by
        match result with
        | .ok true =>
            obtain ⟨rfl, hts, hnoted⟩ := notes_of_change hend
            exact ⟨hts, .done hnoted rfl⟩
        | .ok false => exact retry_settles (by simp) .ok rfl rfl hend
        | .error e => exact retry_settles (by simp) (fun _ => .error e) rfl rfl hend
      obtain ⟨rfl, hsettles⟩ := hsettles
      rw [List.append_nil]
      exact .tried (.of_run hbefore) (Bool.eq_false_iff.mpr hunasked) hattempt hsettles

/-- A pass of a runner that has a job, or finds one that waits, takes it up and deals with it. -/
theorem work_deals {r : Runner J} (h : (r.work id).Turns Board.Amid id c ts (.done out) c')
    (hjob : c.2.waiting ≠ [] ∨ r.current ≠ none) :
    ∃ order left c₁, r.TakesUp c order left c₁ ∧ Deals order left id c₁ ts out c' := by
  unfold work at h
  split at h
  · next order hcurrent => exact ⟨order, r.attemptsLeft, c, .kept hcurrent, attempt_deals h⟩
  · next hcurrent =>
      obtain ⟨first, hfirst⟩ : ∃ order, c.2.waiting.head? = some order := by
        rw [← Option.isSome_iff_exists, List.isSome_head?]
        simpa [hcurrent] using hjob
      obtain ⟨c₁, hbefore, hrest⟩ := h.of_look
      have hwaiting := (Board.Amid.of_run hbefore).head?_waiting hfirst
      split at hrest
      · next hnil => simp [hnil] at hwaiting
      · next order rest hcons =>
          obtain ⟨c₂, hbefore', hrest⟩ := hrest.of_change
          have hamid := Board.Amid.of_run (hbefore.trans hbefore')
          rw [hcons] at hwaiting
          obtain rfl : order = first := Option.some.inj hwaiting
          exact ⟨order, order.attempts, _, .picked hcurrent hamid (hamid.head?_waiting hfirst),
            attempt_deals hrest⟩

end Runner

/-! ### Runs -/

/-- A course of a worker that takes jobs from a board to which others come with proper errands. -/
structure IsInOrder (c : Course (Runner J) (Board J κ)) : Prop where
  isOpen : c.bench.isOver = false → c.shared.isClosed = false
  tallies : c.shared.isClosed = false → c.shared.Tallies
  underway : ∀ a x, c.bench.underway = some (a, x) →
    c.bench.isOver = false ∧ x.Keeps Runner.terms Runner.LetsGo
  /-- A job that was kept is one of a generation that is not processed. -/
  unprocessed : c.bench.IsIdle → c.bench.worker.task.current ≠ none →
    c.bench.worker.processed < c.bench.worker.generation

theorem amid_of_workshop (b : Bench (Runner J) (Board J κ)) (before after : Store × Board J κ)
    (isOver : b.isOver = false) (h : workshop Board.IsVisited b before after) :
    Board.Amid before after := by
  rcases h with hamid | ⟨hover, -, -⟩
  · exact hamid
  · simp [isOver] at hover

namespace IsInOrder

variable {c d : Course (Runner J) (Board J κ)}

theorem start (s : Store) (k : κ) :
    IsInOrder (Course.start {} s { common := k } : Course (Runner J) (Board J κ)) where
  isOpen _ := rfl
  tallies _ := .start k
  underway a x hu := by cases hu
  unprocessed _ hcurrent := absurd rfl hcurrent

theorem others {s : Store} {b : Board J κ} (h : IsInOrder c)
    (hb : workshop Board.IsVisited c.bench (c.store, c.shared) (s, b)) :
    IsInOrder { c with store := s, shared := b } := by
  rcases hb with hamid | ⟨hover, -, hclose⟩
  · have hclosed : b.isClosed = c.shared.isClosed := Board.isClosed_of_visits hamid
    refine ⟨fun hover => hclosed.trans (h.isOpen hover), fun hopen => ?_, h.underway,
      h.unprocessed⟩
    have hinOrder : c.shared.IsInOrder :=
      ⟨hclosed.symm.trans hopen, h.tallies (hclosed.symm.trans hopen)⟩
    exact (hinOrder.visits hamid).2
  · have hclosed : b.isClosed = true := by
      rw [show b = _ from hclose]
      rfl
    refine ⟨fun hnot => ?_, fun hopen => ?_, h.underway, h.unprocessed⟩
    · simp [hover] at hnot
    · simp [hclosed] at hopen

theorem work (h : IsInOrder c) {a : Account}
    {x x' : Script (Board J κ) (Runner J × Except StoreError Bool)} {e : Option Exchange}
    {s : Store} {b : Board J κ} (underway : c.bench.underway = some (a, x))
    (step : x.Step a.session c.store c.shared e x' s b) :
    IsInOrder ⟨{ c.bench with underway := some (a.hear e, x') }, s, b⟩ := by
  obtain ⟨hover, hkeeps⟩ := h.underway a x underway
  have hopen := h.isOpen hover
  obtain ⟨hkeeps', hinOrder, -⟩ := hkeeps.step step ⟨hopen, h.tallies hopen⟩
    fun _ _ _ => trivial
  refine ⟨fun _ => hinOrder.1, fun _ => hinOrder.2, fun a' x'' hu => ?_, fun hidle => ?_⟩
  · obtain ⟨rfl, rfl⟩ := Prod.mk.inj (Option.some.inj hu)
    exact ⟨hover, hkeeps'⟩
  · cases hidle.1

theorem finish (h : IsInOrder c) (hsound : c.bench.Sound) {a : Account} {r : Runner J}
    {result : Except StoreError Bool} (underway : c.bench.underway = some (a, .done (r, result))) :
    IsInOrder (c.finish a r result) where
  isOpen := h.isOpen
  tallies := h.tallies
  underway a' x hu := by cases hu
  unprocessed _ hcurrent := by
    obtain ⟨-, hletsGo⟩ := h.underway _ _ underway
    obtain ⟨-, hlt, hle, -⟩ := hsound.underway _ _ underway
    have htask : (c.finish a r result).bench.worker.task = r := endPass_task ..
    rw [htask] at hcurrent
    have hincomplete : ¬ Course.isComplete result = true := fun hok => hcurrent (hletsGo hok)
    have hprocessed := c.bench.worker.endPass_processed c.store a.pass r result
    rw [if_neg hincomplete] at hprocessed
    have hgeneration := c.bench.worker.endPass_generation c.store a.pass r result
    exact hprocessed.symm ▸ hgeneration.symm ▸ Nat.lt_of_lt_of_le hlt hle

variable [Job J κ]

theorem tick_task : c.tick.bench.worker.task = c.bench.worker.task :=
  Runner.beginTick_task c.bench.worker c.store c.shared

theorem tick (h : IsInOrder c) (idle : c.bench.IsIdle) : IsInOrder c.tick where
  isOpen := h.isOpen
  tallies := h.tallies
  underway a x hu := by
    obtain ⟨⟨id, pass⟩, -, heq⟩ := Option.map_eq_some_iff.mp hu
    obtain ⟨rfl, rfl⟩ := Prod.mk.inj heq
    exact ⟨idle.2, Runner.keeps_work _ id⟩
  unprocessed _ hcurrent := by
    have hadv := c.bench.worker.advances_beginTick c.store c.shared
    rw [tick_task] at hcurrent
    have hlt := h.unprocessed idle hcurrent
    exact hadv.processed_eq ▸ Nat.lt_of_lt_of_le hlt hadv.generation_le

theorem move (h : IsInOrder c) (hsound : c.bench.Sound) (hm : Course.Move c d) :
    IsInOrder d := by
  cases hm with
  | trigger =>
      exact ⟨h.isOpen, h.tallies, h.underway, fun idle hcurrent =>
        Nat.lt_succ_of_lt (h.unprocessed idle hcurrent)⟩
  | tick idle => exact h.tick idle
  | work underway step => exact h.work underway step
  | finish underway => exact h.finish hsound underway
  | stop idle =>
      refine ⟨fun hnot => (Bool.true_eq_false_eq_False hnot).elim, h.tallies, fun a x hu => ?_,
        fun hidle => (Bool.true_eq_false_eq_False hidle.2).elim⟩
      have hnone : c.stop.bench.underway = none := idle.1
      rw [hnone] at hu
      cases hu

theorem of_reachable {s : Store} {k : κ}
    (h : Course.Reachable (workshop Board.IsVisited) {} s { common := k } c) : IsInOrder c := by
  induction h with
  | refl => exact .start s k
  | tail hrun hstep ih =>
      cases hstep with
      | own move => exact ih.move (Course.Reachable.sound hrun) move
      | others hothers => exact ih.others hothers

end IsInOrder

/-! ### The queue -/

/-- The jobs of a board are accounted for, and none is left lying. -/
structure IsAccountedFor [Job J κ] (c : Course (Runner J) (Board J κ)) : Prop where
  /-- Those who stand in line and those for whom room is kept wait for room. -/
  queued_eq : c.shared.queued =
    c.shared.waiting.length + (c.shared.line.length + c.shared.granted.length)
  waiting_le : c.shared.waiting.length ≤ capacity
  /-- The count is not zero when a job is picked up, -/
  picked : c.shared.waiting ≠ [] → c.shared.pick.queued + 1 = c.shared.queued
  /-- nor when someone leaves the line. -/
  left : ∀ who ∈ c.shared.line, (c.shared.leaveLine who).queued + 1 = c.shared.queued
  /-- If a job waits or is kept, a tick begins a pass unless it finds the worker disconnected, -/
  runs : c.bench.IsIdle → c.shared.waiting ≠ [] ∨ c.bench.worker.task.current ≠ none →
    (c.tick.bench.worker.link ≠ .disconnected ↔
      ∃ a, c.tick.bench.underway = some (a, c.bench.worker.task.work a.session))
  /-- and the pass deals with a job. -/
  deals : c.bench.IsIdle → c.shared.waiting ≠ [] ∨ c.bench.worker.task.current ≠ none →
    ∀ d a out, ReflTransGen (Course.GoesOn (workshop Board.IsVisited)) c.tick d →
      d.bench.underway = some (a, .done out) →
      ∃ order left taken ts, c.bench.worker.task.TakesUp (c.tick.store, c.shared) order left taken ∧
        Runner.Deals order left a.session taken ts out (d.store, d.shared) ∧
        a.heard = ts.map (·.exchange)

section Queue

variable [Job J κ] {s : Store} {k : κ} {c : Course (Runner J) (Board J κ)}

/-- If a job waits, the count makes the runner ask; if one is kept, its generation is not
processed. -/
theorem asks_of_job (h : IsInOrder c) (idle : c.bench.IsIdle)
    (hsound : c.bench.worker.processed ≤ c.bench.worker.generation)
    (hjob : c.shared.waiting ≠ [] ∨ c.bench.worker.task.current ≠ none) (generation : Nat)
    (hle : c.bench.worker.generation ≤ generation) :
    c.bench.worker.processed <
      (Task.request c.bench.worker.task c.shared c.bench.worker.ticks generation).2 := by
  have hrequest : (Task.request c.bench.worker.task c.shared c.bench.worker.ticks generation).2 =
      if 0 < c.shared.queued then generation + 1 else generation := rfl
  rw [hrequest]
  rcases hjob with hwaiting | hcurrent
  · have hqueued := (h.tallies (h.isOpen idle.2)).queued_eq
    have hpos := List.length_pos_iff.mpr hwaiting
    rw [if_pos (by omega)]
    omega
  · have hlt := h.unprocessed idle hcurrent
    split <;> omega

/-- Whatever the jobs do, however the store answers and whenever others come to the board with
proper errands: until the worker is gone, the jobs of the board are accounted for, and none is left
lying. -/
theorem queue_is_accounted_for
    (h : Course.Reachable (workshop Board.IsVisited) {} s { common := k } c)
    (isOpen : c.shared.isClosed = false) : IsAccountedFor c := by
  have hinOrder := IsInOrder.of_reachable h
  have htallies := hinOrder.tallies isOpen
  have hqueued := htallies.queued_eq
  have hfits := htallies.fits
  refine ⟨hqueued, by omega, fun hwaiting => ?_, fun who hwho => ?_, fun idle hjob => ?_,
    fun idle hjob d a out hrun hend => ?_⟩
  · have hpos := List.length_pos_iff.mpr hwaiting
    have hpick := htallies.pick.queued_eq
    rw [c.shared.pick_queued hwaiting]
    omega
  · have hpos := List.length_pos_of_mem hwho
    change c.shared.queued - 1 + 1 = c.shared.queued
    omega
  · have htick := Course.tick_link_iff h (asks_of_job hinOrder idle h.sound.processed_le hjob)
    rw [IsInOrder.tick_task] at htick
    exact htick
  · obtain ⟨⟨a₀, x⟩, hbegun⟩ := Option.isSome_iff_exists.mp
      (Course.isSome_of_goesOn hrun (by rw [hend]; rfl))
    have hx : x = c.bench.worker.task.work a₀.session ∧ a₀.heard = [] := by
      obtain ⟨p, -, heq⟩ := Option.map_eq_some_iff.mp hbegun
      obtain ⟨rfl, rfl⟩ := Prod.mk.inj heq
      exact ⟨congrArg (Runner.work · p.1) IsInOrder.tick_task, rfl⟩
    obtain ⟨a', x', ts, hunderway, -, hsession, hheard, hturns⟩ :=
      Course.exists_turns amid_of_workshop hrun hbegun idle.2
    obtain ⟨rfl, rfl⟩ := Prod.mk.inj (Option.some.inj (hunderway.symm.trans hend))
    obtain ⟨order, left, taken, htakes, hdeals⟩ := Runner.work_deals (hx.1 ▸ hturns) hjob
    refine ⟨order, left, taken, ts, htakes, hsession ▸ hdeals, ?_⟩
    rw [hheard, hx.2, List.nil_append]

end Queue

/-- A board to which a job was offered so often. -/
def offered : Nat → Board PathBuild Unit
  | 0 => { common := () }
  | n + 1 => ((offered n).serve (.submit ⟨"/a"⟩ 2)).2

/-- A full board at which someone stands in line. -/
def crowded : Board PathBuild Unit := ((offered capacity).serve (.standInLine 1)).2

/-- A run in which one of the jobs is done, and room is kept for the one in line. -/
def relieved : Course (Runner PathBuild) (Board PathBuild Unit) :=
  (Course.start {} {} crowded).round

theorem reachable_relieved :
    Course.Reachable (workshop Board.IsVisited) {} {} { common := () } relieved := by
  have hoffered : ∀ n, ReflTransGen Board.IsVisited { common := () } (offered n) := by
    intro n
    induction n with
    | zero => exact .refl
    | succ n ih => exact ih.tail ⟨_, .submit _ _, rfl⟩
  have hproper : (Errand.standInLine 1).IsProper (offered capacity) :=
    .standInLine rfl (by decide) (by decide)
  have hcrowded : ReflTransGen Board.IsVisited { common := () } crowded :=
    (hoffered capacity).tail ⟨_, hproper, rfl⟩
  exact Course.reachable_round (.single (.others (.inl hcrowded))) ⟨rfl, rfl⟩ 0 {}

theorem queue_is_accounted_for_of_crowd :
    IsAccountedFor relieved ∧ relieved.bench.IsIdle ∧ relieved.shared.queued = 20 ∧
      relieved.shared.waiting.length = 19 ∧ relieved.shared.granted = [1] ∧
      relieved.tick.bench.worker.link = .connected :=
  ⟨queue_is_accounted_for reachable_relieved rfl, by decide, by decide, by decide, by decide,
    by decide⟩

end ServiceRegistry.Jobs
