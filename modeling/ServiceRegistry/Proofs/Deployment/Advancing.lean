import ServiceRegistry.Deployment
import ServiceRegistry.Proofs.Script.Steps

/-! # Letting time pass

Those who can go on do so without any time passing (`Deployment.now_poll`), and time only jumps as
far as a deadline. So what someone waits for at most a number of milliseconds takes no more than
that (`Deployment.now_advance_le`), and what every party preserves that goes on is preserved while
time passes (`Deployment.advance_induction`).

What a host's passes preserve of the shared state, its worker preserves whenever it goes on
(`Deployment.Host.holds_poll`). -/

namespace ServiceRegistry

namespace Deployment

/-! ### Hosts -/

namespace Host

variable {τ σ : Type} {inv : σ → Prop} (h : Host τ σ) (clock : Clock) {scene : Script.Scene σ}

/-- The shared state has a property, and what is left of a pass preserves it. -/
structure Keeps (inv : σ → Prop) (h : Host τ σ) (shared : σ) : Prop where
  shared : inv shared
  rest : ∀ id pass rest wake, h.activity = .working id pass rest wake →
    rest.Keeps { shared := inv } fun _ => True

/-- A host went on at a time, and no time has passed. -/
structure Holds (inv : σ → Prop) (now : Nat) (out : Host τ σ × Script.Scene σ × Clock) : Prop where
  now_eq : out.2.2.now = now
  keeps : out.1.Keeps inv out.2.1.shared

theorem activity_settleRelay : h.settleRelay.activity = h.activity := by
  unfold settleRelay
  split <;> rfl

variable {h} in
theorem keeps_of_idle {shared : σ} (hinv : inv shared) (hidle : h.activity = .idle) :
    h.Keeps inv shared :=
  ⟨hinv, fun _ _ _ _ hworking => by cases hidle.symm.trans hworking⟩

theorem holds_proceed (id : SessionId) (pass : Pass)
    {script : Script σ (τ × Except StoreError Bool)}
    (hs : script.Keeps { shared := inv } fun _ => True) (hinv : inv scene.shared) :
    Holds inv clock.now (h.proceed clock id pass script scene) := by
  have hreaches := hs.reaches id clock.now scene hinv
  unfold proceed
  rcases hrun : script.run id clock.now scene with ⟨⟨task, result⟩ | ⟨ms, rest⟩, scene'⟩
  · rw [hrun] at hreaches
    exact ⟨rfl, keeps_of_idle hreaches.1 (activity_settleRelay _)⟩
  · rw [hrun] at hreaches
    exact ⟨rfl, hreaches.1, fun _ _ _ _ hworking => by cases hworking; exact hreaches.2⟩

theorem holds_finish {leave : τ → σ → σ} (hinv : inv scene.shared)
    (hleave : ∀ task y, inv y → inv (leave task y)) :
    Holds inv clock.now ((h.finish leave scene).1, (h.finish leave scene).2, clock) where
  now_eq := rfl
  keeps := ⟨hleave _ _ hinv, fun _ _ _ _ hworking => by
    cases (activity_settleRelay _).symm.trans hworking⟩

variable [Task τ σ]

theorem holds_tick (hinv : inv scene.shared) (hwork : ∀ (task : τ) (id : SessionId) (pass : Pass),
      (Task.work task id pass).Keeps { shared := inv } fun _ => True) :
    Holds inv clock.now (h.tick clock scene) := by
  unfold tick
  dsimp only
  split
  · exact ⟨rfl, keeps_of_idle hinv (activity_settleRelay _)⟩
  · exact holds_proceed _ (clock.wakeAt _).2 _ _ (hwork _ _ _) hinv

section CatchingUp

variable {leave : τ → σ → σ} {n : Nat} (hidle : h.activity = .idle)
  (hcancelled : h.isCancelled = false)
include hidle hcancelled

/-- A tick that is due is made, -/
theorem catchUp_of_due (hdue : h.due.time ≤ clock.now) : catchUp leave (n + 1) h clock scene =
    catchUp leave n (h.tick clock scene).1 (h.tick clock scene).2.2 (h.tick clock scene).2.1 := by
  rw [catchUp, hidle]
  simp only [hcancelled, hdue, ↓reduceIte, Bool.false_eq_true]

/-- and then the next one is waited for. -/
theorem catchUp_of_idle (hdue : clock.now < h.due.time) :
    catchUp leave n h clock scene = (h, scene, clock) := by
  cases n with
  | zero => rfl
  | succ n =>
      rw [catchUp, hidle]
      simp only [hcancelled, Nat.not_le.mpr hdue, ↓reduceIte, Bool.false_eq_true]

end CatchingUp

section Going

variable {leave : τ → σ → σ} (hleave : ∀ task y, inv y → inv (leave task y))
  (hwork : ∀ (task : τ) (id : SessionId) (pass : Pass),
    (Task.work task id pass).Keeps { shared := inv } fun _ => True)
include hleave hwork

theorem holds_catchUp (n : Nat) (hkeeps : h.Keeps inv scene.shared) :
    Holds inv clock.now (catchUp leave n h clock scene) := by
  induction n generalizing h clock scene with
  | zero => exact ⟨rfl, hkeeps⟩
  | succ n ih =>
      unfold catchUp
      split
      · split
        · exact h.holds_finish clock hkeeps.shared hleave
        · split
          · obtain ⟨hnow, htick⟩ := h.holds_tick clock hkeeps.shared hwork
            exact hnow ▸ ih _ _ htick
          · exact ⟨rfl, hkeeps⟩
      · exact ⟨rfl, hkeeps⟩

/-- A host goes on at the present time, and what its passes preserve is preserved. -/
theorem holds_poll (hkeeps : h.Keeps inv scene.shared) :
    Holds inv clock.now (h.poll leave clock scene) := by
  unfold poll
  dsimp only
  split
  · exact holds_catchUp _ clock hleave hwork _ (keeps_of_idle hkeeps.shared rfl)
  · exact h.holds_catchUp clock hleave hwork _ hkeeps
  · next id pass rest wake hworking =>
    split
    · have hrest := hkeeps.rest id pass rest wake hworking
      obtain ⟨hnow, hshared, hleft⟩ := h.holds_proceed clock id pass hrest hkeeps.shared
      rw [← hnow]
      exact holds_catchUp _ (Clock.wakeAt _ _).2 hleave hwork _ ⟨hshared, hleft⟩
    · exact ⟨rfl, hkeeps⟩
  · exact ⟨rfl, hkeeps⟩

end Going

theorem now_poll (leave : τ → σ → σ) (scene : Script.Scene σ) :
    (h.poll leave clock scene).2.2.now = clock.now :=
  (h.holds_poll clock (fun _ _ _ => trivial) (fun _ _ _ => Script.keeps_trivial _)
    ⟨trivial, fun _ _ _ _ _ => Script.keeps_trivial _⟩).now_eq

end Host

/-! ### No time passes while someone goes on -/

variable (d : Deployment)

theorem clock_enqueue (a : Actor) : (d.enqueue a).clock = d.clock := by
  unfold enqueue
  split <;> rfl

theorem clock_launch (i : Nat) : (d.launch i).2.clock = d.clock := by
  unfold launch
  split
  · rfl
  · dsimp only
    split
    · rfl
    · exact clock_enqueue _ _

theorem clock_onBoard {α : Type} (i : Nat) (otherwise : α) (f : JobBoard → α × JobBoard) :
    (d.onBoard i otherwise f).2.clock = d.clock := by
  unfold onBoard
  split <;> rfl

theorem clock_come (who : Jobs.Standing) (w : Wish) : (d.come who w).clock = d.clock := by
  unfold come
  split
  · split <;> rfl
  · rfl

theorem clock_receive (who : Jobs.Standing) (w : Wish) : (d.receive who w).2.clock = d.clock := by
  cases w with
  | edition catalog limit => rfl
  | start i =>
      have hlaunch := d.clock_launch i
      unfold receive
      dsimp only
      split <;> split <;> exact hlaunch
  | submit i job maxAttempts limit => exact d.clock_onBoard i _ _

theorem clock_conclude (who : Jobs.Standing) (w : Wish) :
    (d.conclude who w).2.clock = d.clock := by
  cases w with
  | edition catalog limit => rfl
  | start i => rfl
  | submit i job maxAttempts limit => exact d.clock_onBoard i _ _

theorem clock_serve (i : Nat) (w : Waiter) (since : Nat) (answer : Answer) :
    (d.serve i w since answer).clock = d.clock := by
  unfold serve
  dsimp only
  split <;> rfl

theorem now_receiveWaiter (i : Nat) (w : Waiter) (since : Nat) :
    (d.receiveWaiter i w since).now = d.now := by
  unfold receiveWaiter
  split
  · have hreceive := d.clock_receive (standing i) w.wish
    split
    · next answer d' hcame =>
      rw [hcame] at hreceive
      exact congrArg Clock.now ((d'.clock_serve i w since answer).trans hreceive)
    · next limit d' hcame =>
      rw [hcame] at hreceive
      split
      · have hconclude := d'.clock_conclude (standing i) w.wish
        exact congrArg Clock.now ((clock_serve _ i w since _).trans (hconclude.trans hreceive))
      · exact (congrArg Clock.now hreceive : d'.clock.now = d.clock.now)
  · rfl

theorem now_pollWaiter (i : Nat) : (d.pollWaiter i).now = d.now := by
  unfold pollWaiter
  split
  · rfl
  · next w _ =>
    split
    · rfl
    · rw [now_receiveWaiter]
      exact congrArg Clock.now (d.clock_come _ _)
    · exact d.now_receiveWaiter i w _
    · split
      · exact congrArg Clock.now ((clock_serve _ i w _ _).trans (d.clock_conclude _ w.wish))
      · rfl

theorem now_pollWorker (party : Party) : (d.pollWorker party).now = d.now := by
  cases party with
  | client i =>
      unfold pollWorker
      dsimp only
      split
      · split
        · exact Host.now_poll _ _ _ _
        · rfl
      · rfl
  | drill i =>
      unfold pollWorker
      dsimp only
      split
      · exact Host.now_poll _ _ _ _
      · rfl
  | processor i =>
      unfold pollWorker
      dsimp only
      split
      · exact Host.now_poll _ _ _ _
      · rfl

theorem now_pollRelay (party : Party) : (d.pollRelay party).now = d.now := by
  cases party with
  | client i =>
      unfold pollRelay
      dsimp only
      split
      · split <;> rfl
      · rfl
  | drill i =>
      unfold pollRelay
      dsimp only
      split <;> rfl
  | processor i =>
      unfold pollRelay
      dsimp only
      split <;> rfl

theorem now_pollLogger (i : Nat) : (d.pollLogger i).now = d.now := by
  unfold pollLogger
  split
  · rfl
  · split
    · rfl
    · split
      · rfl
      · split <;> rfl

theorem now_poll (a : Actor) : (d.poll a).now = d.now := by
  cases a with
  | worker party => exact d.now_pollWorker party
  | relay party => exact d.now_pollRelay party
  | logger i => exact d.now_pollLogger i
  | waiter i => exact d.now_pollWaiter i

/-! ### What is preserved while time passes -/

section Induction

variable {d} {inv : Deployment → Prop}

theorem enqueue_induction (hready : ∀ d ready, inv d → inv { d with ready }) (as : List Actor)
    (hd : inv d) : inv (as.foldl enqueue d) := by
  induction as generalizing d with
  | nil => exact hd
  | cons a as ih =>
      refine ih ?_
      unfold enqueue
      split
      · exact hd
      · exact hready d _ hd

theorem settleSteps_induction (hready : ∀ d ready, inv d → inv { d with ready })
    (hpoll : ∀ d a, inv d → inv (d.poll a)) (n : Nat) (hd : inv d) : inv (settleSteps n d) := by
  induction n generalizing d with
  | zero => exact hd
  | succ n ih =>
      have hwoken : inv d.wakeUp := enqueue_induction hready _ hd
      unfold settleSteps
      dsimp only
      split
      · exact hwoken
      · exact ih (hpoll _ _ (hready _ _ hwoken))

/-- What everyone preserves who goes on, and does not depend on the time, is preserved. -/
theorem advance_induction (hready : ∀ d ready, inv d → inv { d with ready })
    (hclock : ∀ d now, inv d → inv { d with clock := { d.clock with now } })
    (hpoll : ∀ d a, inv d → inv (d.poll a)) (goal : Deployment → Bool) (limit : Nat) (hd : inv d) :
    inv (d.advance goal limit) := by
  have hsteps : ∀ n deadline d, inv d → inv (advanceSteps goal deadline n d) := by
    intro n deadline
    induction n with
    | zero => exact fun d hd => hd
    | succ n ih =>
        intro d hd
        have hsettled : inv d.settle := settleSteps_induction hready hpoll _ hd
        unfold advanceSteps
        dsimp only
        split
        · exact hd
        · split
          · exact hsettled
          · exact ih _ (enqueue_induction hready _ (hclock _ _ hsettled))
  exact hsteps _ _ d hd

end Induction

/-! ### How much time passes -/

theorem now_settle : d.settle.now = d.now :=
  settleSteps_induction (fun _ _ h => h) (fun d' a h => (d'.now_poll a).trans h) _ rfl

theorem nextMoment_le (deadline : Nat) : d.nextMoment deadline ≤ deadline := by
  unfold nextMoment
  generalize d.timers = timers
  induction timers generalizing deadline with
  | nil => exact Nat.le_refl _
  | cons timer timers ih => exact Nat.le_trans (ih _) (Nat.min_le_left _ _)

theorem now_jump (deadline : Nat) :
    (d.jump deadline).now = max d.now (d.nextMoment deadline) :=
  @enqueue_induction _ (fun d' => d'.now = max d.now (d.nextMoment deadline)) (fun _ _ h => h) _ rfl

/-- Time passes no further than it may. -/
theorem now_advance_le (goal : Deployment → Bool) (limit : Nat) :
    (d.advance goal limit).now ≤ d.now + limit := by
  have hsteps : ∀ n deadline d, d.now ≤ deadline →
      (advanceSteps goal deadline n d).now ≤ deadline := by
    intro n deadline
    induction n with
    | zero => exact fun d hd => hd
    | succ n ih =>
        intro d hd
        have hsettled : d.settle.now ≤ deadline := d.now_settle.symm ▸ hd
        unfold advanceSteps
        dsimp only
        split
        · exact hd
        · split
          · exact hsettled
          · refine ih _ ?_
            rw [now_jump]
            exact Nat.max_le.mpr ⟨hsettled, nextMoment_le _ deadline⟩
  exact hsteps _ _ d (Nat.le_add_right _ _)

/-! ### Who goes on -/

section Waking

variable {d} (mail : d.relaysWithMail = []) (luck : d.luckyWaiters = [])
include mail luck

theorem wakeUp_eq : d.wakeUp = d := by
  rw [wakeUp, mail, luck]
  rfl

theorem settleSteps_of_ready {a : Actor} {ready : List Actor} (h : d.ready = a :: ready)
    (n : Nat) : settleSteps (n + 1) d = settleSteps n ({ d with ready }.poll a) := by
  rw [settleSteps]
  simp only [wakeUp_eq mail luck, h]

theorem settleSteps_of_rest (h : d.ready = []) (n : Nat) : settleSteps n d = d := by
  cases n with
  | zero => rfl
  | succ n =>
      rw [settleSteps]
      simp only [wakeUp_eq mail luck, h]

end Waking

/-! ### Goals that are reached at once -/

theorem advance_of_goal {goal : Deployment → Bool} (h : goal d = true) (limit : Nat) :
    d.advance goal limit = d := by
  rw [advance, advanceSteps, h]
  rfl

/-- A goal that is reached before time has to jump. -/
theorem advance_of_settle {goal : Deployment → Bool} {limit : Nat} (hlimit : 0 < limit)
    (hd : goal d = false) (h : goal d.settle = true) : d.advance goal limit = d.settle := by
  have hlater : ¬d.now + limit ≤ d.now := by omega
  rw [advance, advanceSteps, hd, Bool.false_or, decide_eq_false hlater]
  simp only [h, ↓reduceIte, Bool.false_eq_true]

section Wishes

variable {d} {d' : Deployment} {w : Wish} (admitted : (d.come 0 w).isAdmitted 0 w = true)
include admitted

/-- A wish that is admitted at once is answered at once, -/
theorem fulfil_of_answer {answer : Answer}
    (h : (d.come 0 w).receive 0 w = (.inl answer, d')) : d.fulfil w = (answer, d') := by
  rw [fulfil, advance_of_goal _ admitted, h]

/-- or it is waited for, as long as it may take. -/
theorem fulfil_of_limit {limit : Nat} (h : (d.come 0 w).receive 0 w = (.inr limit, d')) :
    d.fulfil w = (d'.advance (·.isDecided 0 w) limit).conclude 0 w := by
  rw [fulfil, advance_of_goal _ admitted, h]

/-- What is waited for takes no longer than it may. -/
theorem now_fulfil_le {limit : Nat}
    (h : ∀ l, ((d.come 0 w).receive 0 w).1 = .inr l → l ≤ limit) :
    (d.fulfil w).2.now ≤ d.now + limit := by
  have hcame : ((d.come 0 w).receive 0 w).2.now = d.now :=
    congrArg Clock.now ((clock_receive _ 0 w).trans (d.clock_come 0 w))
  rcases hreceive : (d.come 0 w).receive 0 w with ⟨answer | l, d'⟩
  · rw [hreceive] at hcame
    rw [fulfil_of_answer admitted hreceive]
    exact Nat.le_trans (Nat.le_of_eq hcame) (Nat.le_add_right _ _)
  · rw [hreceive] at hcame h
    have hadvance := d'.now_advance_le (·.isDecided 0 w) l
    have hconclude : ((d'.advance (·.isDecided 0 w) l).conclude 0 w).2.now =
        (d'.advance (·.isDecided 0 w) l).now := congrArg Clock.now (clock_conclude _ 0 w)
    have hl := h l rfl
    rw [fulfil_of_limit admitted hreceive, hconclude]
    dsimp only at hcame
    omega

end Wishes

end Deployment

end ServiceRegistry
