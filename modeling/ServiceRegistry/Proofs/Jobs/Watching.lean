import ServiceRegistry.Proofs.Jobs.LifeCycle
import ServiceRegistry.Proofs.Script.Mirror
import ServiceRegistry.Proofs.Worker.Tasks

/-! # Every run can be watched

A watched job does what the job does, and what it notes besides is not seen without the watch
(`Board.plain`, `Runner.mirrors_work`). So each step of a worker that takes jobs is matched by steps
of a worker that takes the jobs watched (`WatchedCourse.Mirrors.step`), and every run has a
chronicle, which tells the life of every job (`jobs_run_their_course`). -/

namespace ServiceRegistry.Jobs

open Relation Worker

variable {J κ : Type}

/-! ### What is seen without a chronicle -/

/-- The order without the watch. -/
def Order.plain (o : Order (Watched J)) : Order J := ⟨o.id, o.job.job, o.attempts⟩

/-- The reply without the watch. -/
def Reply.plain : Reply (Watched J) → Reply J
  | awaited => .awaited
  | returned w => .returned w.job
  | failed => .failed
  | abandoned => .abandoned

/-- The ticket without the watch. -/
def Ticket.plain (t : Ticket (Watched J)) : Ticket J := ⟨t.state, t.cancelRequested, t.reply.plain⟩

/-- The board without the watch. -/
def Board.plain (b : Board (Watched J) (Chronicle κ)) : Board J κ where
  waiting := b.waiting.map Order.plain
  line := b.line
  granted := b.granted
  queued := b.queued
  tickets := b.tickets.map Ticket.plain
  isClosed := b.isClosed
  common := b.common.inner

/-- The runner without the watch. -/
def Runner.plain (r : Runner (Watched J)) : Runner J := ⟨r.current.map Order.plain, r.attemptsLeft⟩

namespace Board

variable (b : Board (Watched J) (Chronicle κ))

theorem map_modify {α β : Type} {g : α → β} {f : α → α} {f' : β → β} (h : ∀ a, g (f a) = f' (g a))
    (l : List α) (i : Nat) : (l.modify i f).map g = (l.map g).modify i f' := by
  refine List.ext_getElem? fun k => ?_
  simp only [List.getElem?_map, List.getElem?_modify]
  cases l[k]? with
  | none => rfl
  | some a => by_cases hik : i = k <;> simp [hik, h]

theorem plain_updateTicket (id : JobId) {f : Ticket (Watched J) → Ticket (Watched J)}
    {f' : Ticket J → Ticket J} (h : ∀ t, (f t).plain = f' t.plain) :
    (b.updateTicket id f).plain = b.plain.updateTicket id f' := by
  simp only [plain, updateTicket, map_modify h]

theorem plain_complete (id : JobId) (state : State) (w : Watched J) :
    (b.complete id state w).plain = b.plain.complete id state w.job :=
  b.plain_updateTicket id fun t => by cases state <;> rfl

theorem plain_abandon (id : JobId) : (b.abandon id).plain = b.plain.abandon id :=
  b.plain_updateTicket id fun t => by
    obtain ⟨state, asked, reply⟩ := t
    cases reply <;> rfl

theorem plain_close (current : Option JobId) : (b.close current).plain = b.plain.close current := by
  have hfold : ∀ (ids : List JobId) (b : Board (Watched J) (Chronicle κ)),
      (ids.foldl abandon b).plain = ids.foldl abandon b.plain := by
    intro ids
    induction ids with
    | nil => exact fun b => rfl
    | cons id ids ih =>
        exact fun b => (ih _).trans (congrArg (ids.foldl abandon) (b.plain_abandon id))
  have hids : b.plain.waiting.map (·.id) = b.waiting.map (·.id) := List.map_map ..
  unfold close
  rw [hids, ← hfold]
  rfl

theorem plain_pick : b.pick.plain = b.plain.pick := by
  obtain ⟨waiting, line, granted, queued, tickets, isClosed, common⟩ := b
  cases waiting with
  | nil => rfl
  | cons o waiting => cases line <;> rfl

theorem plain_isCancelRequested (id : JobId) :
    b.plain.isCancelRequested id = b.isCancelRequested id := by
  simp only [isCancelRequested, plain, List.getElem?_map, Option.map_map]
  rfl

theorem plain_room : b.plain.room = b.room := by simp [room, plain]

/-- A job that is accepted is seen to be accepted, whatever is noted of it. -/
theorem plain_accept (w : Watched J) (maxAttempts : Nat) (limits : List Nat) :
    plain { (b.accept w maxAttempts).2 with common := { b.common with limits } } =
      (b.plain.accept w.job maxAttempts).2 := by
  simp [accept, plain, Order.plain, Ticket.plain, Reply.plain]

/-- An errand with a watched job is seen as the errand with the job. -/
theorem plain_watch (e : Errand J κ) : (b.watch e).plain = (b.plain.serve e).2 := by
  cases e with
  | submit job maxAttempts =>
      have hplain : (b.plain.isClosed = true ∨ b.plain.room = 0) ↔
          (b.isClosed = true ∨ b.room = 0) := by rw [b.plain_room]; rfl
      unfold watch
      simp only [Errand.watched, serve, submit, Errand.offer?, hplain]
      by_cases hfull : b.isClosed = true ∨ b.room = 0
      · simp only [if_pos hfull]
      · simp only [if_neg hfull]
        exact plain_accept { b with queued := b.queued + 1 } ⟨b.tickets.length, job⟩ maxAttempts _
  | standInLine who => rfl
  | redeem who job maxAttempts =>
      have hplain : b.plain.isClosed = b.isClosed ∧ b.plain.granted = b.granted := ⟨rfl, rfl⟩
      unfold watch
      simp only [Errand.watched, serve, redeem, Errand.offer?, hplain]
      by_cases hgranted : (!b.isClosed && b.granted.contains who) = true
      · simp only [if_pos hgranted]
        exact plain_accept { b with granted := b.granted.filter (· ≠ who) }
          ⟨b.tickets.length, job⟩ maxAttempts _
      · simp only [if_neg hgranted]
        rfl
  | leaveLine who => rfl
  | requestCancel id =>
      have hticket : b.plain.tickets[id]? = b.tickets[id]?.map Ticket.plain := by simp [plain]
      change (b.requestCancel id).2.plain = (b.plain.requestCancel id).2
      unfold requestCancel
      rw [hticket]
      cases b.tickets[id]? with
      | none => rfl
      | some t =>
          by_cases hstate : t.state = .cancelled
          · simp [hstate, Ticket.plain]
          · simp only [hstate, Option.map_some, Ticket.plain, if_false]
            exact b.plain_updateTicket id fun t => rfl
  | share inner => rfl

end Board

/-! ### Passes -/

namespace Runner

/-- What a pass ends in, without the watch. -/
def plainOut {α : Type} (out : Runner (Watched J) × α) : Runner J × α := (out.1.plain, out.2)

theorem mirrors_retry (r : Runner (Watched J)) (order : Order (Watched J)) :
    (r.retry order : Script (Board (Watched J) (Chronicle κ)) _).Mirrors Board.plain plainOut
      (r.plain.retry order.plain) := by
  unfold retry
  dsimp only [plain]
  split
  · exact .done _
  · exact .change (fun b => b.plain_complete order.id .failed order.job) (.done _)

variable [Job J κ]

theorem mirrors_attempt (r : Runner (Watched J)) (order : Order (Watched J)) (session : SessionId) :
    (r.attempt order session).Mirrors Board.plain plainOut
      (r.plain.attempt order.plain session) := by
  unfold attempt
  refine .look fun b => ?_
  have hasked : b.plain.isCancelRequested order.plain.id = b.isCancelRequested order.id :=
    b.plain_isCancelRequested order.id
  simp only [hasked]
  split
  · exact .change (fun b => b.plain_complete order.id .cancelled order.job) (.done _)
  · change ((Script.zoom _ _ (Job.attempt order.job session)).bind _).Mirrors Board.plain plainOut
      ((Script.zoom _ _ (Job.attempt order.job.job session)).bind _)
    rw [zoom_attempt]
    -- The beginning and the end of the attempt are noted aside.
    refine .aside (fun b => rfl) ?_
    rw [Script.bind_assoc]
    refine .bind (Script.mirrors_zoom ?_ ?_ _) fun out => ?_
    · exact fun b => rfl
    · exact fun inner b => rfl
    refine .aside (fun b => rfl) ?_
    obtain ⟨job, result⟩ := out
    have hretry := r.mirrors_retry (κ := κ) ⟨order.id, ⟨order.job.id, job⟩, order.attempts⟩
    match result with
    | .ok true =>
        exact .change (fun b => b.plain_complete order.id .done ⟨order.job.id, job⟩) (.done _)
    | .ok false => exact hretry.bind fun out => .done _
    | .error e => exact hretry.bind fun out => .done _

/-- A pass with watched jobs is seen as a pass with the jobs. -/
theorem mirrors_work (r : Runner (Watched J)) (session : SessionId) :
    (r.work session).Mirrors Board.plain plainOut (r.plain.work session) := by
  unfold work
  obtain ⟨current, left⟩ := r
  cases current with
  | some order => exact mirrors_attempt _ order session
  | none =>
      refine .look fun b => ?_
      dsimp only [Board.plain]
      cases b.waiting with
      | nil => exact .done _
      | cons order waiting =>
          have hattempt := mirrors_attempt ⟨some order, order.attempts⟩ order session
          exact .change Board.plain_pick hattempt

end Runner

/-! ### Runs -/

/-- What is under way in a course with watched jobs and in one with the jobs. -/
def MirrorsPass
    (p : Account × Script (Board (Watched J) (Chronicle κ))
      (Runner (Watched J) × Except StoreError Bool))
    (q : Account × Script (Board J κ) (Runner J × Except StoreError Bool)) : Prop :=
  p.1 = q.1 ∧ p.2.Mirrors Board.plain Runner.plainOut q.2

/-- The course with watched jobs is seen as the other course. -/
structure WatchedCourse.Mirrors (w : WatchedCourse J κ) (c : Course (Runner J) (Board J κ)) :
    Prop where
  worker : c.bench.worker = w.bench.worker.mapTask Runner.plain
  underway : Option.Rel MirrorsPass w.bench.underway c.bench.underway
  completed : c.bench.completed = w.bench.completed
  moment : c.bench.moment = w.bench.moment
  raised : c.bench.raised = w.bench.raised
  isOver : c.bench.isOver = w.bench.isOver
  store : c.store = w.store
  board : c.shared = w.shared.plain

namespace WatchedCourse.Mirrors

variable {w : WatchedCourse J κ} {c d : Course (Runner J) (Board J κ)}

theorem start (s : Store) (k : κ) :
    Mirrors (Course.start {} s { common := { inner := k } })
      (Course.start ({} : Runner J) s { common := k }) :=
  ⟨rfl, .none, rfl, rfl, rfl, rfl, rfl, rfl⟩

theorem isIdle (h : w.Mirrors c) (idle : c.bench.IsIdle) : w.bench.IsIdle := by
  refine ⟨?_, h.isOver ▸ idle.2⟩
  have hrel := h.underway
  rw [idle.1] at hrel
  cases hu : w.bench.underway with
  | none => rfl
  | some p =>
      rw [hu] at hrel
      cases hrel

theorem underway_some (h : w.Mirrors c) {a : Account}
    {x : Script (Board J κ) (Runner J × Except StoreError Bool)}
    (underway : c.bench.underway = some (a, x)) :
    ∃ z, w.bench.underway = some (a, z) ∧ z.Mirrors Board.plain Runner.plainOut x := by
  have hrel := h.underway
  rw [underway] at hrel
  cases hu : w.bench.underway with
  | none =>
      rw [hu] at hrel
      cases hrel
  | some p =>
      rw [hu] at hrel
      obtain ⟨a', z⟩ := p
      cases hrel with
      | some hpass =>
          obtain ⟨rfl, hmirrors⟩ := hpass
          exact ⟨z, rfl, hmirrors⟩

variable [Job J κ]

theorem tick (h : w.Mirrors c) : Mirrors w.tick c.tick := by
  obtain ⟨⟨_, u, completed, moment, raised, isOver⟩, store, shared⟩ := c
  obtain ⟨rfl, hu, rfl, rfl, rfl, rfl, rfl, rfl⟩ := h
  have htick := mapTask_beginTick Runner.plain w.bench.worker w.store w.shared w.shared.plain
    fun r tick generation => rfl
  simp only [Course.tick, htick]
  generalize w.bench.worker.beginTick w.store receive receive w.shared = begun
  obtain ⟨due, w', s⟩ := begun
  refine ⟨rfl, ?_, rfl, rfl, rfl, rfl, rfl, rfl⟩
  cases due with
  | none => exact .none
  | some due => exact .some ⟨rfl, w'.task.mirrors_work due.1⟩

theorem work (h : w.Mirrors c) {a : Account}
    {x x' : Script (Board J κ) (Runner J × Except StoreError Bool)} {e : Option Exchange}
    {s : Store} {b : Board J κ} (underway : c.bench.underway = some (a, x))
    (hstep : x.Step a.session c.store c.shared e x' s b) :
    ∃ w' : WatchedCourse J κ, ReflTransGen Course.Move w w' ∧
      w'.Mirrors ⟨{ c.bench with underway := some (a.hear e, x') }, s, b⟩ := by
  obtain ⟨z, hz, hmirrors⟩ := h.underway_some underway
  rw [h.store, h.board] at hstep
  obtain ⟨z', b', hsteps, hsee, hmirrors'⟩ := hmirrors.step hstep
  exact ⟨_, Course.moves_of_steps hz hsteps, h.worker, .some ⟨rfl, hmirrors'⟩, h.completed,
    h.moment, h.raised, h.isOver, rfl, hsee.symm⟩

theorem finish (h : w.Mirrors c) {a : Account} {r : Runner J} {result : Except StoreError Bool}
    (underway : c.bench.underway = some (a, .done (r, result))) :
    ∃ w' : WatchedCourse J κ, ReflTransGen Course.Move w w' ∧
      w'.Mirrors (c.finish a r result) := by
  obtain ⟨z, hz, hmirrors⟩ := h.underway_some underway
  obtain ⟨⟨r', result'⟩, b', hsteps, hsee, hread⟩ := hmirrors.ends rfl a.session w.store w.shared
  obtain ⟨rfl, rfl⟩ := Prod.mk.inj hread
  have hmoves := Course.moves_of_steps hz hsteps
  rw [List.append_nil] at hmoves
  refine ⟨_, hmoves.tail (.finish rfl), ?_⟩
  have hend := mapTask_endPass Runner.plain w.bench.worker w.store a.pass r' result'
  simp only [Course.finish, h.worker, h.store, hend, mapLeft, h.completed]
  exact ⟨rfl, .none, rfl, h.moment, h.raised, h.isOver, rfl, h.board.trans hsee.symm⟩

omit [Job J κ] in
theorem stop (h : w.Mirrors c) : Mirrors w.stop c.stop := by
  obtain ⟨⟨_, _, _, _, _, _⟩, _, _⟩ := c
  obtain ⟨rfl, hu, rfl, rfl, rfl, rfl, rfl, rfl⟩ := h
  simp only [Course.stop, mapTask_close, mapLeft]
  exact ⟨rfl, hu, rfl, rfl, rfl, rfl, rfl, rfl⟩

theorem move (h : w.Mirrors c) (hm : Course.Move c d) :
    ∃ w' : WatchedCourse J κ, ReflTransGen Course.Move w w' ∧ w'.Mirrors d := by
  cases hm with
  | trigger =>
      refine ⟨w.trigger, .single (.trigger w), ?_⟩
      obtain ⟨⟨_, _, _, _, _, _⟩, _, _⟩ := c
      obtain ⟨rfl, hu, rfl, rfl, rfl, rfl, rfl, rfl⟩ := h
      exact ⟨rfl, hu, rfl, rfl, rfl, rfl, rfl, rfl⟩
  | tick idle => exact ⟨w.tick, .single (.tick (h.isIdle idle)), h.tick⟩
  | work underway step => exact h.work underway step
  | finish underway => exact h.finish underway
  | stop idle => exact ⟨w.stop, .single (.stop (h.isIdle idle)), h.stop⟩

omit [Job J κ] in
/-- What errands do is seen of watched errands. -/
theorem drift {b : Board (Watched J) (Chronicle κ)} {b' : Board J κ}
    (h : ReflTransGen Board.Serves b.plain b') :
    ∃ b'', ReflTransGen Board.Attends b b'' ∧ b''.plain = b' := by
  induction h with
  | refl => exact ⟨b, .refl, rfl⟩
  | tail _ hserves ih =>
      obtain ⟨b'', hattends, rfl⟩ := ih
      obtain ⟨e, rfl⟩ := hserves
      exact ⟨b''.watch e, hattends.tail ⟨e, rfl⟩, b''.plain_watch e⟩

omit [Job J κ] in
theorem others (h : w.Mirrors c) {s : Store} {b : Board J κ}
    (hb : workshop Board.Serves c.bench (c.store, c.shared) (s, b)) :
    ∃ b', workshop Board.Attends w.bench (w.store, w.shared) (s, b') ∧
      Mirrors { w with store := s, shared := b' } { c with store := s, shared := b } := by
  obtain ⟨⟨_, _, _, _, _, _⟩, _, _⟩ := c
  obtain ⟨rfl, hu, rfl, rfl, rfl, rfl, rfl, rfl⟩ := h
  rcases hb with hdrift | ⟨hover, hopen, hclose⟩
  · obtain ⟨b', hattends, rfl⟩ := drift hdrift
    exact ⟨b', .inl hattends, ⟨rfl, hu, rfl, rfl, rfl, rfl, rfl, rfl⟩⟩
  · dsimp only at hclose
    subst hclose
    refine ⟨_, .inr ⟨hover, hopen, rfl⟩, ⟨rfl, hu, rfl, rfl, rfl, rfl, rfl, ?_⟩⟩
    have hcurrent : (w.bench.worker.mapTask Runner.plain).task.current.map (·.id) =
        w.bench.worker.task.current.map (·.id) := Option.map_map ..
    exact (w.shared.plain_close _).symm ▸ congrArg w.shared.plain.close hcurrent

theorem step (h : w.Mirrors c) (hs : Course.Step (workshop Board.Serves) c d) :
    ∃ w' : WatchedCourse J κ, ReflTransGen (Course.Step (workshop Board.Attends)) w w' ∧
      w'.Mirrors d := by
  cases hs with
  | own hm =>
      obtain ⟨w', hmoves, h'⟩ := h.move hm
      exact ⟨w', hmoves.lift (fun w => w) fun _ _ hm => .own hm, h'⟩
  | others hb =>
      obtain ⟨b', hb', h'⟩ := h.others hb
      exact ⟨_, .single (.others hb'), h'⟩

theorem run (h : w.Mirrors c) (hr : ReflTransGen (Course.Step (workshop Board.Serves)) c d) :
    ∃ w' : WatchedCourse J κ, ReflTransGen (Course.Step (workshop Board.Attends)) w w' ∧
      w'.Mirrors d := by
  induction hr with
  | refl => exact ⟨w, .refl, h⟩
  | tail _ hs ih =>
      obtain ⟨w', hr', h'⟩ := ih
      obtain ⟨w'', hr'', h''⟩ := h'.step hs
      exact ⟨w'', hr'.trans hr'', h''⟩

end WatchedCourse.Mirrors

/-! ### Every life -/

theorem Ticket.Becomes.plain {t t' : Ticket (Watched J)} (h : t.Becomes t') :
    t.plain.Becomes t'.plain where
  state := h.state
  reply hr := congrArg Reply.plain (h.reply fun ha => hr (congrArg Reply.plain ha))
  asked := h.asked

theorem Board.Becomes.plain {b b' : Board (Watched J) (Chronicle κ)} (h : b.Becomes b') :
    b.plain.Becomes b'.plain := by
  intro id t ht
  simp only [Board.plain, List.getElem?_map, Option.map_eq_some_iff] at ht ⊢
  obtain ⟨t, ht, rfl⟩ := ht
  obtain ⟨t', ht', hbecomes⟩ := h id t ht
  exact ⟨t'.plain, ⟨t', ht', rfl⟩, hbecomes.plain⟩

/-- A run with watched jobs is seen as the run that has come to the course. -/
def WatchedCourse.Watches [Job J κ] (s : Store) (k : κ) (w : WatchedCourse J κ)
    (c : Course (Runner J) (Board J κ)) : Prop :=
  Course.Reachable (workshop Board.Attends) {} s { common := { inner := k } } w ∧ w.Mirrors c

/-- Every run of a worker that takes jobs from a board can be watched, whatever the jobs do, however
the store answers and whenever others come to the board; the chronicle of the watch tells the life
of every job; and how a job ended never changes. -/
theorem jobs_run_their_course [Job J κ] {s : Store} {k : κ} {c : Course (Runner J) (Board J κ)}
    (h : Course.Reachable (workshop Board.Serves) {} s { common := k } c) :
    (∃ w : WatchedCourse J κ, w.Watches s k c) ∧
      (∀ w : WatchedCourse J κ, w.Watches s k c → w.shared.LifeCycle (w.bench.underway = none)) ∧
      ∀ d, ReflTransGen (Course.Step (workshop Board.Serves)) c d → c.shared.Becomes d.shared := by
  obtain ⟨w, hw, hmirrors⟩ := (WatchedCourse.Mirrors.start s k).run h
  refine ⟨⟨w, hw, hmirrors⟩, fun w hw => (WatchedCourse.Stage.of_reachable hw.1).lifeCycle,
    fun d hd => ?_⟩
  obtain ⟨w', hw', hmirrors'⟩ := hmirrors.run hd
  rw [hmirrors.board, hmirrors'.board]
  exact ((WatchedCourse.Stage.of_reachable hw).run hw').2.plain

/-- A board to which two jobs were offered. -/
def boardOfTwo : Board PathBuild Unit :=
  let b : Board PathBuild Unit := { common := () }
  ((b.serve (.submit ⟨"/a"⟩ 3)).2.serve (.submit ⟨"/b"⟩ 0)).2

/-- A run in which one of them is done before the worker goes. -/
def doneAndLeft : Course (Runner PathBuild) (Board PathBuild Unit) :=
  let c := (Course.start {} {} boardOfTwo).round.stop
  { c with shared := c.shared.close none }

theorem reachable_doneAndLeft :
    Course.Reachable (workshop Board.Serves) {} {} { common := () } doneAndLeft := by
  have hboard : ReflTransGen Board.Serves { common := () } boardOfTwo :=
    .tail (.single ⟨.submit ⟨"/a"⟩ 3, rfl⟩) ⟨.submit ⟨"/b"⟩ 0, rfl⟩
  have hoffered : Course.Reachable (workshop Board.Serves) {} {} { common := () }
      (Course.start {} {} boardOfTwo) := .single (.others (.inl hboard))
  have hdone := Course.reachable_round hoffered ⟨rfl, rfl⟩ 0 {}
  exact (hdone.tail (.own (.stop ⟨rfl, rfl⟩))).tail (.others (.inr ⟨rfl, rfl, rfl⟩))

theorem jobs_run_their_course_till_the_worker_goes :
    ((∃ w : WatchedCourse PathBuild Unit, w.Watches {} () doneAndLeft) ∧
      (∀ w : WatchedCourse PathBuild Unit, w.Watches {} () doneAndLeft →
        w.shared.LifeCycle (w.bench.underway = none)) ∧
      ∀ d, ReflTransGen (Course.Step (workshop Board.Serves)) doneAndLeft d →
        doneAndLeft.shared.Becomes d.shared) ∧
      doneAndLeft.shared.outcome? 0 = some (.ok ⟨"/a"⟩) ∧
      doneAndLeft.shared.outcome? 1 = some (.error .processorGone) :=
  ⟨jobs_run_their_course reachable_doneAndLeft, rfl, rfl⟩

end ServiceRegistry.Jobs
