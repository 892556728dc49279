import ServiceRegistry.Proofs.Worker.Passes

/-! # Scans are not overdue

A survey asks for a scan when its last one is as many ticks ago as its settings say. A run of it has
a beat for each tick (`Worker.Course.Beats`): was the survey asked for the generation, was it time
for a scan, did a pass begin. The scan ticks times the tick interval are no more than the scan
interval, unless one tick is (`Settings.scanTicks_mul_tick_le`).

When a survey is asked, its scan ticks have not passed since the latest scan that was forced
(`Worker.Beat.Follows.lt`), and so many ticks in a row that find the worker not disconnected have a
pass among them (`Worker.exists_pass`). Both are facts on lists of beats, each of which follows
those before it (`Worker.AreInStep`); the beats of a run do (`Worker.Course.Beats.keepsTime`). The
main result is `Worker.Course.scans_are_never_overdue`. -/

namespace ServiceRegistry

/-! ### Settings -/

namespace Settings

variable (c : Settings)

theorem scanTicks_mul_tick_le : c.scanTicks * c.tick ≤ max c.scanInterval c.tick := by
  have hfits : c.scanInterval / c.tick * c.tick ≤ c.scanInterval := Nat.div_mul_le_self _ _
  rcases Nat.le_total 1 (c.scanInterval / c.tick) with h | h
  · rw [scanTicks, Nat.max_eq_right h]
    exact Nat.le_trans hfits (Nat.le_max_left _ _)
  · rw [scanTicks, Nat.max_eq_left h, Nat.one_mul]
    exact Nat.le_max_right _ _

theorem scanTicks_le : c.scanTicks ≤ max 1 c.scanInterval := by
  have hfits : c.scanInterval / c.tick ≤ c.scanInterval := Nat.div_le_self _ _
  unfold scanTicks
  omega

/-- How the scan ticks relate to the intervals. -/
structure IsTimed : Prop where
  /-- The scan interval is divided by this. -/
  tick_ne : c.tick ≠ 0
  one_le : 1 ≤ c.scanTicks
  mul_le : c.scanTicks * c.tick ≤ max c.scanInterval c.tick
  /-- Nothing leaves the range of the settings. -/
  fits : c.scanInterval < UInt64.size → c.tickInterval < UInt64.size →
    c.tick < UInt64.size ∧ c.scanInterval / c.tick < UInt64.size ∧ c.scanTicks < UInt64.size

theorem isTimed : c.IsTimed where
  tick_ne := Nat.ne_of_gt c.tick_pos
  one_le := c.scanTicks_pos
  mul_le := c.scanTicks_mul_tick_le
  fits hscan htick := by
    have hone : 1 < UInt64.size := by decide
    have hdiv : c.scanInterval / c.tick ≤ c.scanInterval := Nat.div_le_self _ _
    have hle := c.scanTicks_le
    have htick' : c.tick = max 1 c.tickInterval := rfl
    omega

end Settings

/-! ### Surveys -/

namespace Survey

variable {ν σ : Type} [Visitor ν σ] {n last : Nat} {t : Survey ν}

/-- The survey has these scan ticks, and its last scan was at this tick. -/
def IsAt (t : Survey ν) (n last : Nat) : Prop := t.scanTicks = n ∧ t.lastScan = last

theorem IsAt.request (h : t.IsAt n last) (x : σ) (tick generation : Nat) :
    (Task.request t x tick generation).1.IsAt n (if n ≤ tick - last then tick else last) := by
  obtain ⟨rfl, rfl⟩ := h
  simp only [Task.request, Survey.request]
  split <;> exact ⟨rfl, rfl⟩

/-- A pass leaves the clock of the survey alone, whatever the visitors do. -/
theorem IsAt.keeps_work (h : t.IsAt n last) (id : SessionId) (pass : Pass) :
    (Task.work t id pass : Script σ (Survey ν × Except StoreError Bool)).Keeps {}
      fun r => r.1.IsAt n last := by
  refine ⟨trivial, fun answer _ => ?_⟩
  cases answer with
  | error e => exact h
  | ok children => exact Script.keeps_bind ((Script.keeps_trivial _).mono fun _ _ => h)

/-- Where it is time for a scan, the survey asks for one. -/
theorem lt_request (h : t.IsAt n last) (x : σ) {tick : Nat} (due : n ≤ tick - last)
    (generation : Nat) : generation < (Task.request t x tick generation).2 := by
  obtain ⟨rfl, rfl⟩ := h
  simp only [Task.request, Survey.request, if_pos due]
  exact Nat.lt_succ_self _

end Survey

/-- The scan ticks of a client's survey are those of its settings. -/
theorem Client.survey_scanTicks (c : Client) : c.survey.scanTicks = c.settings.scanTicks :=
  Nat.max_eq_right c.settings.scanTicks_pos

namespace Worker

/-! ### Beats -/

/-- What is seen of a survey at a tick. -/
structure Beat where
  /-- The number of the tick; the first is 0. -/
  tick : Nat
  /-- The worker is not disconnected, so that the survey is asked for the generation. -/
  isAsked : Bool
  /-- The tick that the survey takes for that of its last scan. -/
  lastScan : Nat
  /-- The survey is asked, and asks for a scan because it is time. -/
  isForced : Bool
  /-- A pass begins. -/
  hasPass : Bool
deriving DecidableEq, Repr

/-- The tick of the latest scan that was forced, or that of the start. The latest beat comes
first. -/
def lastForced : List Beat → Nat
  | [] => 0
  | b :: bs => if b.isForced then b.tick else lastForced bs

/-- The beat goes on where those before it ended. -/
structure Beat.Follows (n : Nat) (b : Beat) (earlier : List Beat) : Prop where
  tick_eq : b.tick = earlier.length
  lastScan_eq : b.lastScan = lastForced earlier
  isForced_iff : b.isForced = true ↔ b.isAsked = true ∧ n ≤ b.tick - b.lastScan

/-- Each beat follows those before it. -/
def AreInStep (n : Nat) : List Beat → Prop
  | [] => True
  | b :: bs => b.Follows n bs ∧ AreInStep n bs

/-- If the survey is asked at the first tick, or when it is time for a scan, a pass begins. -/
def Beat.IsServed (b : Beat) : Prop :=
  b.isAsked = true → b.isForced = true ∨ b.tick = 0 → b.hasPass = true

section Beats

variable {n : Nat} {b : Beat} {bs later window earlier : List Beat}

theorem AreInStep.of_append (h : AreInStep n (later ++ earlier)) : AreInStep n earlier := by
  induction later with
  | nil => exact h
  | cons b later ih => exact ih h.2

theorem AreInStep.follows (h : AreInStep n (later ++ b :: earlier)) : b.Follows n earlier :=
  h.of_append.1

theorem AreInStep.ticks_eq (h : AreInStep n bs) :
    bs.map (·.tick) = (List.range bs.length).reverse := by
  induction bs with
  | nil => rfl
  | cons b bs ih =>
      rw [List.map_cons, ih h.2, h.1.tick_eq, List.length_cons, List.range_succ,
        List.reverse_append]
      rfl

theorem lastForced_le (h : AreInStep n bs) : lastForced bs ≤ bs.length - 1 := by
  induction bs with
  | nil => exact Nat.le_refl _
  | cons b bs ih =>
      have hbefore := ih h.2
      have htick := h.1.tick_eq
      rw [lastForced, List.length_cons]
      split <;> omega

theorem lastForced_append (h : ∀ b ∈ window, b.isForced = false) :
    lastForced (window ++ earlier) = lastForced earlier := by
  induction window with
  | nil => rfl
  | cons b window ih =>
      rw [List.cons_append, lastForced, h b List.mem_cons_self, if_neg Bool.false_ne_true]
      exact ih fun b' hb' => h b' (List.mem_cons_of_mem b hb')

namespace Beat.Follows

theorem lastScan_le (h : b.Follows n earlier) (hearlier : AreInStep n earlier) :
    b.lastScan ≤ b.tick := by
  have hlast := lastForced_le hearlier
  rw [h.lastScan_eq, h.tick_eq]
  omega

/-- When the survey has been asked, the latest forced scan is less than its scan ticks ago. -/
theorem lt (h : b.Follows n earlier) (hn : 0 < n) (asked : b.isAsked = true) :
    b.tick < lastForced (b :: earlier) + n := by
  have hlast := h.lastScan_eq
  have hforced := h.isForced_iff
  rw [lastForced]
  split
  · omega
  · next hnot =>
    have hsoon : ¬n ≤ b.tick - b.lastScan := fun hle => hnot (hforced.mpr ⟨asked, hle⟩)
    omega

end Beat.Follows

/-- Of as many ticks in a row as there are scan ticks, if all find the worker not disconnected, one
begins a pass. Unless a scan is forced before, the last of these ticks forces one, since the latest
scan before them was at an earlier tick; only the ticks from the start on need no forced scan. -/
theorem exists_pass (h : AreInStep n (later ++ window ++ earlier))
    (served : ∀ b ∈ window, b.IsServed) (hn : 0 < n) (length_eq : window.length = n)
    (asked : ∀ b ∈ window, b.isAsked = true) : ∃ b ∈ window, b.hasPass = true := by
  by_cases hforced : ∃ b ∈ window, b.isForced = true
  · obtain ⟨b, hb, hforced⟩ := hforced
    exact ⟨b, hb, served b hb (asked b hb) (.inl hforced)⟩
  · have hnone : ∀ b ∈ window, b.isForced = false := by simpa using hforced
    have hne : window ≠ [] := List.ne_nil_of_length_pos (by omega)
    rw [List.append_assoc] at h
    have hwindow := h.of_append
    cases earlier with
    | nil =>
        -- The earliest beat of the window is the first of the run, and that begins a pass.
        rw [List.append_nil, ← List.dropLast_concat_getLast hne] at hwindow
        have htick : (window.getLast hne).tick = 0 := hwindow.follows.tick_eq
        have hmem := List.getLast_mem hne
        exact ⟨_, hmem, served _ hmem (asked _ hmem) (.inr htick)⟩
    | cons e es =>
        -- At its latest beat the last scan is at least the scan ticks ago.
        obtain ⟨last, rest, rfl⟩ := List.exists_cons_of_ne_nil hne
        have hfollows : last.Follows n (rest ++ e :: es) := hwindow.1
        have hlastScan : last.lastScan = lastForced (e :: es) :=
          hfollows.lastScan_eq.trans
            (lastForced_append fun b hb => hnone b (List.mem_cons_of_mem last hb))
        have hle : lastForced (e :: es) ≤ es.length := lastForced_le hwindow.2.of_append
        have htick : last.tick = rest.length + (es.length + 1) := by
          rw [hfollows.tick_eq, List.length_append, List.length_cons]
        rw [List.length_cons] at length_eq
        have hforced := hfollows.isForced_iff.mpr ⟨asked last List.mem_cons_self, by omega⟩
        cases (hnone last List.mem_cons_self).symm.trans hforced

end Beats

/-! ### Ticks are counted -/

section Ticks

variable {τ σ : Type} (w : Worker τ) (s : Store)

theorem note_ticks (e : Store.Event) : (w.note e).ticks = w.ticks := by
  unfold note
  split <;> rfl

theorem close_ticks : (w.close s).1.ticks = w.ticks := by
  unfold close
  split <;> rfl

theorem heed_ticks (es : List Store.Event) : (w.heed s es).1.ticks = w.ticks := by
  induction es generalizing w with
  | nil => rfl
  | cons e es ih =>
      unfold heed
      split
      · exact w.close_ticks s
      · rw [ih, note_ticks]

theorem receive_ticks : (w.receive s).1.ticks = w.ticks := by
  unfold receive
  split
  · rfl
  · exact w.heed_ticks _ _

theorem open_ticks : (w.open' s).1.ticks = w.ticks := by
  unfold open'
  split
  · rfl
  · split <;> rfl

theorem settle_ticks : (w.settle s receive receive).1.ticks = w.ticks := by
  unfold settle
  dsimp only
  split
  · exact w.receive_ticks s
  · rw [receive_ticks, open_ticks, receive_ticks]

theorem decide_ticks [Task τ σ] (x : σ) (tick : Nat) : (w.decide x tick).2.ticks = w.ticks := by
  unfold decide
  split
  · rfl
  · dsimp only
    split
    all_goals rfl

/-- The survey is asked unless the worker is disconnected. -/
theorem decide_task [Task τ σ] (x : σ) (tick : Nat) : (w.decide x tick).2.task =
    if w.link = .disconnected then w.task
    else (Task.request w.task x tick w.generation).1 := by
  unfold decide
  split
  · rfl
  · dsimp only
    split
    all_goals rfl

theorem endPass_ticks (pass : Pass) (task : τ) (result : Except StoreError Bool) :
    (w.endPass s pass task result).1.ticks = w.ticks := by
  unfold endPass
  dsimp only
  split
  · rfl
  · split
    · rfl
    · split
      · exact close_ticks _ s
      · rfl

end Ticks

namespace Course

section Counting

variable {τ σ : Type} [Task τ σ] {c d : Course τ σ}

theorem tick_ticks (c : Course τ σ) : c.tick.bench.worker.ticks = c.bench.worker.ticks + 1 :=
  (decide_ticks _ c.shared c.bench.worker.ticks).trans
    (settle_ticks { c.bench.worker with ticks := c.bench.worker.ticks + 1 } c.store)

theorem Move.ticks_le (hm : Move c d) : c.bench.worker.ticks ≤ d.bench.worker.ticks := by
  cases hm with
  | trigger => exact Nat.le_refl _
  | tick idle => exact c.tick_ticks ▸ Nat.le_succ _
  | work underway step => exact Nat.le_refl _
  | finish underway => exact Nat.le_of_eq (endPass_ticks _ _ _ _ _).symm
  | stop idle => exact Nat.le_of_eq (close_ticks _ _).symm

theorem ticks_le_of_moves (h : Relation.ReflTransGen Move c d) :
    c.bench.worker.ticks ≤ d.bench.worker.ticks := by
  induction h with
  | refl => exact Nat.le_refl _
  | tail _ hmove ih => exact Nat.le_trans ih hmove.ticks_le

theorem round_ticks (c : Course τ σ) : c.round.bench.worker.ticks = c.bench.worker.ticks + 1 := by
  unfold round
  dsimp only
  split
  · exact c.tick_ticks
  · split
    · exact c.tick_ticks
    · exact (endPass_ticks _ _ _ _ _).trans c.tick_ticks

/-- Before the first tick nothing was done. -/
theorem Reachable.fresh {others : Others τ σ} {task : τ} {s : Store} {y : σ}
    (h : Reachable others task s y c) (none : c.bench.worker.ticks = 0) :
    c.bench.worker.processed = 0 ∧ c.bench.underway = .none := by
  induction h with
  | refl => exact ⟨rfl, rfl⟩
  | @tail c d _ hstep ih =>
      cases hstep with
      | others => exact ih none
      | own move =>
          obtain ⟨hprocessed, hunderway⟩ := ih (Nat.le_zero.mp (none ▸ move.ticks_le))
          cases move with
          | trigger => exact ⟨hprocessed, hunderway⟩
          | tick idle => cases c.tick_ticks.symm.trans none
          | work underway step => cases underway.symm.trans hunderway
          | finish underway => cases underway.symm.trans hunderway
          | stop idle => exact ⟨(close_processed _ _).trans hprocessed, hunderway⟩

end Counting

variable {ν σ : Type} [Visitor ν σ]

/-! ### Beats of a run -/

/-- What is seen of the survey at the next tick. -/
def beat (c : Course (Survey ν) σ) : Beat where
  tick := c.bench.worker.ticks
  isAsked := c.tick.bench.worker.link ≠ .disconnected
  lastScan := c.bench.worker.task.lastScan
  isForced := c.tick.bench.worker.link ≠ .disconnected ∧
    c.bench.worker.task.scanTicks ≤ c.bench.worker.ticks - c.bench.worker.task.lastScan
  hasPass := c.tick.bench.underway.isSome

/-- A run with its beats, the latest first. -/
inductive Beats (others : Others (Survey ν) σ) (t : Survey ν) (s : Store) (y : σ) :
    List Beat → Course (Survey ν) σ → Prop
  | start : Beats others t s y [] (start t s y)
  | tick {bs : List Beat} {c : Course (Survey ν) σ} (h : Beats others t s y bs c)
      (idle : c.bench.IsIdle) : Beats others t s y (c.beat :: bs) c.tick
  | between {bs : List Beat} {c d : Course (Survey ν) σ} (h : Beats others t s y bs c)
      (step : Step others c d) (ticks_eq : d.bench.worker.ticks = c.bench.worker.ticks) :
      Beats others t s y bs d

variable {others : Others (Survey ν) σ} {t : Survey ν} {s : Store} {y : σ}
  {n : Nat} {bs : List Beat} {c d : Course (Survey ν) σ}

/-- Every run has its beats. -/
theorem reachable_iff_exists_beats :
    Reachable others t s y c ↔ ∃ bs, Beats others t s y bs c := by
  constructor
  · intro h
    induction h with
    | refl => exact ⟨[], .start⟩
    | @tail c d _ step ih =>
        obtain ⟨bs, h⟩ := ih
        cases step with
        | others hothers => exact ⟨bs, h.between (.others hothers) rfl⟩
        | own move =>
            cases move with
            | tick idle => exact ⟨_, h.tick idle⟩
            | trigger => exact ⟨bs, h.between (.own (.trigger c)) rfl⟩
            | work underway step => exact ⟨bs, h.between (.own (.work underway step)) rfl⟩
            | finish underway =>
                exact ⟨bs, h.between (.own (.finish underway)) (endPass_ticks _ _ _ _ _)⟩
            | stop idle => exact ⟨bs, h.between (.own (.stop idle)) (close_ticks _ _)⟩
  · rintro ⟨bs, h⟩
    induction h with
    | start => exact .refl
    | tick _ idle ih => exact ih.tail (.own (.tick idle))
    | between _ step _ ih => exact ih.tail step

theorem Beats.moves (h : Beats others t s y bs c) (hmoves : Relation.ReflTransGen Move c d)
    (ticks_eq : d.bench.worker.ticks = c.bench.worker.ticks) : Beats others t s y bs d := by
  induction hmoves with
  | refl => exact h
  | @tail d' d hmoves hmove ih =>
      have hle : c.bench.worker.ticks ≤ d'.bench.worker.ticks := ticks_le_of_moves hmoves
      have hle' := hmove.ticks_le
      exact (ih (by omega)).between (.own hmove) (by omega)

theorem Beats.round (h : Beats others t s y bs c) (idle : c.bench.IsIdle) :
    Beats others t s y (c.beat :: bs) c.round :=
  (h.tick idle).moves (c.moves_tick_round 0 {}) (c.round_ticks.trans c.tick_ticks.symm)

/-- A survey in the course of a run goes on where its beats ended. -/
structure KeepsTime (n : Nat) (bs : List Beat) (c : Course (Survey ν) σ) : Prop where
  inStep : AreInStep n bs
  ticks_eq : c.bench.worker.ticks = bs.length
  isAt : c.bench.worker.task.IsAt n (lastForced bs)
  /-- So does the survey that the pass under way ends in. -/
  underway : ∀ a x, c.bench.underway = some (a, x) → x.Keeps {} fun r => r.1.IsAt n (lastForced bs)

namespace KeepsTime

omit [Visitor ν σ] in
theorem start (t : Survey ν) (s : Store) (y : σ) (ht : t.lastScan = 0) :
    KeepsTime t.scanTicks [] (Course.start t s y) where
  inStep := trivial
  ticks_eq := rfl
  isAt := ⟨rfl, ht⟩
  underway a x hu := by cases hu

theorem isAt_tick (h : KeepsTime n bs c) :
    c.tick.bench.worker.task.IsAt n (lastForced (c.beat :: bs)) := by
  let settled : Worker (Survey ν) :=
    (settle { c.bench.worker with ticks := c.bench.worker.ticks + 1 } c.store receive receive).1
  have htask : settled.task = c.bench.worker.task := settle_task _ c.store
  have hlink : c.tick.bench.worker.link = settled.link := Gate.decide_keeps_link settled _ _
  have hdecided : c.tick.bench.worker.task =
      if settled.link = .disconnected then settled.task
      else (Task.request settled.task c.shared c.bench.worker.ticks settled.generation).1 :=
    decide_task settled c.shared c.bench.worker.ticks
  rw [hdecided, htask, lastForced, beat, hlink, h.isAt.1, h.isAt.2]
  by_cases hdisconnected : settled.link = .disconnected
  · rw [if_pos hdisconnected, if_neg (by simp [hdisconnected])]
    exact h.isAt
  · rw [if_neg hdisconnected]
    simpa [hdisconnected] using
      h.isAt.request c.shared c.bench.worker.ticks settled.generation

theorem tick (h : KeepsTime n bs c) : KeepsTime n (c.beat :: bs) c.tick := by
  have hat := h.isAt_tick
  refine ⟨⟨⟨h.ticks_eq, h.isAt.2, ?_⟩, h.inStep⟩, ?_, hat, fun a x hu => ?_⟩
  · simp [beat, h.isAt.1]
  · rw [tick_ticks, h.ticks_eq]
    rfl
  · obtain ⟨p, -, heq⟩ := Option.map_eq_some_iff.mp hu
    obtain ⟨rfl, rfl⟩ := Prod.mk.inj heq
    exact hat.keeps_work _ _

theorem between (h : KeepsTime n bs c) (step : Step others c d)
    (ticks_eq : d.bench.worker.ticks = c.bench.worker.ticks) : KeepsTime n bs d := by
  cases step with
  | others => exact ⟨h.inStep, h.ticks_eq, h.isAt, h.underway⟩
  | own move =>
      cases move with
      | trigger => exact ⟨h.inStep, h.ticks_eq, h.isAt, h.underway⟩
      | tick idle => cases (Nat.succ_ne_self _ (c.tick_ticks.symm.trans ticks_eq))
      | work underway step =>
          refine ⟨h.inStep, h.ticks_eq, h.isAt, fun a x hu => ?_⟩
          obtain ⟨rfl, rfl⟩ := Prod.mk.inj (Option.some.inj hu)
          exact ((h.underway _ _ underway).step step trivial fun _ _ _ => trivial).1
      | @finish a t result underway =>
          refine ⟨h.inStep, ticks_eq.trans h.ticks_eq, ?_, fun a x hu => by cases hu⟩
          have htask : (c.finish a t result).bench.worker.task = t := endPass_task ..
          rw [htask]
          exact h.underway _ _ underway
      | stop idle =>
          refine ⟨h.inStep, ticks_eq.trans h.ticks_eq, ?_, h.underway⟩
          have htask : c.stop.bench.worker.task = c.bench.worker.task := close_task ..
          rw [htask]
          exact h.isAt

end KeepsTime

theorem Beats.keepsTime (h : Beats others t s y bs c) (ht : t.lastScan = 0) :
    KeepsTime t.scanTicks bs c := by
  induction h with
  | start => exact .start t s y ht
  | tick _ _ ih => exact ih.tick
  | between _ step ticks_eq ih => exact ih.between step ticks_eq

/-! ### Passes of a run -/

/-- At the first tick, and when it is time for a scan, a pass begins unless the tick finds the
worker disconnected: the generation that is asked for is above the last processed one. -/
theorem isServed_beat [LawfulVisitor ν] (h : Reachable others t s y c) : c.beat.IsServed := by
  intro asked due
  have hsound := h.sound
  have hlink : c.tick.bench.worker.link ≠ .disconnected := by simpa [beat] using asked
  refine Option.isSome_iff_exists.mpr ?_
  have hasks : ∀ generation, c.bench.worker.generation ≤ generation → c.bench.worker.processed <
      (Task.request c.bench.worker.task c.shared c.bench.worker.ticks generation).2 := by
    intro generation hle
    rcases due with hforced | hfirst
    · have hdue : c.bench.worker.task.scanTicks ≤
          c.bench.worker.ticks - c.bench.worker.task.lastScan := by
        simpa [beat, hlink] using hforced
      have hlt := Survey.lt_request ⟨rfl, rfl⟩ c.shared hdue generation
      exact Nat.lt_of_le_of_lt (Nat.le_trans hsound.processed_le hle) hlt
    · have hle' :=
        LawfulTask.le_request c.bench.worker.task c.shared c.bench.worker.ticks generation
      rw [(h.fresh hfirst).1]
      exact Nat.lt_of_lt_of_le hsound.generation_pos (Nat.le_trans hle hle')
  obtain ⟨a, ha⟩ := (tick_link_iff h hasks).mp hlink
  exact ⟨_, ha⟩

theorem Beats.isServed [LawfulVisitor ν] (h : Beats others t s y bs c) :
    ∀ b ∈ bs, b.IsServed := by
  induction h with
  | start => exact fun b hb => by cases hb
  | tick h _ ih =>
      intro b hb
      rcases List.mem_cons.mp hb with rfl | hb
      · exact isServed_beat (reachable_iff_exists_beats.mpr ⟨_, h⟩)
      · exact ih b hb
  | between _ _ _ ih => exact ih

/-! ### Scans in time -/

/-- The beats of a run of a survey with scan ticks, after so many ticks. -/
structure IsPunctual (n ticks : Nat) (bs : List Beat) : Prop where
  /-- There is a beat for each tick. -/
  ticks_eq : bs.map (·.tick) = (List.range ticks).reverse
  /-- The tick of the last scan can be taken from that of the beat. -/
  lastScan_le : ∀ b ∈ bs, b.lastScan ≤ b.tick
  /-- Once the survey has been asked, the latest forced scan, or the start, is less than the scan
  ticks ago. -/
  recent : ∀ later b earlier, bs = later ++ b :: earlier → b.isAsked = true →
    b.tick < lastForced (b :: earlier) + n

/-- As many ticks in a row as there are scan ticks have a pass among them if none of them finds the
worker disconnected. -/
def HasPasses (n : Nat) (bs : List Beat) : Prop :=
  ∀ later window earlier, bs = later ++ window ++ earlier → window.length = n →
    (∀ b ∈ window, b.isAsked = true) → ∃ b ∈ window, b.hasPass = true

/-- The scan ticks fit into the scan interval; and however a survey is run, whatever its visitors,
the store and others do, scans are not overdue. That passes begin is only so if no visitor lowers
the generation counter. -/
theorem scans_are_never_overdue :
    (∀ c : Settings, c.IsTimed) ∧
    (∀ c : Client, c.survey.scanTicks = c.settings.scanTicks) ∧
    ∀ (ν σ : Type) [Visitor ν σ] (others : Others (Survey ν) σ) (root : String) (n : Nat)
      (visitors : List ν) (s : Store) (y : σ) (bs : List Beat) (c : Course (Survey ν) σ),
      Beats others (.make root n visitors) s y bs c →
        IsPunctual (max 1 n) c.bench.worker.ticks bs ∧
          (LawfulVisitor ν → HasPasses (max 1 n) bs) := by
  refine ⟨Settings.isTimed, Client.survey_scanTicks, ?_⟩
  intro ν σ _ others root n visitors s y bs c h
  have hpos : 0 < max 1 n := Nat.lt_of_lt_of_le Nat.one_pos (Nat.le_max_left 1 n)
  have htime : KeepsTime (max 1 n) bs c := h.keepsTime rfl
  refine ⟨⟨htime.ticks_eq ▸ htime.inStep.ticks_eq, fun b hb => ?_, ?_⟩, fun _ => ?_⟩
  · obtain ⟨later, earlier, rfl⟩ := List.append_of_mem hb
    exact htime.inStep.follows.lastScan_le htime.inStep.of_append.2
  · rintro later b earlier rfl asked
    exact htime.inStep.follows.lt hpos asked
  · rintro later window earlier rfl length_eq asked
    refine exists_pass htime.inStep (fun b hb => h.isServed b ?_) hpos length_eq asked
    exact List.mem_append_left _ (List.mem_append_right _ hb)

/-- A survey that scans at every second tick at least, with a visitor that asks for nothing. -/
def everySecondTick : Survey Rehearsal.Visitor := .make "/" 2 [⟨"watch", [], []⟩]

/-- Its run after so many rounds in which nothing changes. -/
def quietRounds : Nat → Course (Survey Rehearsal.Visitor) (List Rehearsal.Entry)
  | 0 => start everySecondTick {} []
  | k + 1 => (quietRounds k).round

/-- The beats of these rounds. -/
def quietBeats : Nat → List Beat
  | 0 => []
  | k + 1 => (quietRounds k).beat :: quietBeats k

theorem beats_quietRounds :
    Beats (fun _ _ _ => True) everySecondTick {} [] (quietBeats 4) (quietRounds 4) :=
  (((Beats.start.round ⟨rfl, rfl⟩).round (by decide)).round (by decide)).round (by decide)

theorem scans_are_never_overdue_in_quiet_rounds :
    (quietBeats 4).map (fun b => (b.tick, b.isForced, b.hasPass)) =
        [(3, false, false), (2, true, true), (1, false, false), (0, false, true)] ∧
      IsPunctual 2 4 (quietBeats 4) ∧ HasPasses 2 (quietBeats 4) := by
  have h := scans_are_never_overdue.2.2 Rehearsal.Visitor (List Rehearsal.Entry) _ _ _ _ _ _ _ _
    beats_quietRounds
  exact ⟨by decide, h.1, h.2 inferInstance⟩

end Course

end Worker

end ServiceRegistry
