import ServiceRegistry.Proofs.Jobs.Errands

/-! # The chronicle of a job board

A watched job does what another job does, and notes where each of its attempts begins and ends
(`Watched`, `Chronicle`). Whoever offers such a job to a board also notes how often it may be tried
(`Board.watch`).

`Board.At` says how the board and the chronicle belong together at every moment, given what the
runner has in hand: the jobs that wait are the last ones accepted, in order; each of those that were
picked up before the one in hand has met its fate (`Fate`), and the chronicle bears it out. Errands
leave this as it is (`At.watch`); the other lemmas of that name are for the things that a runner
does. -/

namespace ServiceRegistry.Jobs

variable {J κ : Type}

/-! ### Watched jobs -/

/-- An entry of a chronicle. -/
inductive Mark where
  | began (id : JobId)
  | ended (id : JobId) (result : Except StoreError Bool)

/-- The job whose attempt it is. -/
def Mark.id : Mark → JobId
  | began id => id
  | ended id _ => id

/-- A job with its number. -/
structure Watched (J : Type) where
  id : JobId
  job : J

/-- What jobs share, with a chronicle. -/
structure Chronicle (κ : Type) where
  inner : κ
  /-- How often the accepted jobs may be tried, as was said when they were offered. -/
  limits : List Nat := []
  marks : List Mark := []

/-- Note the beginning or the end of an attempt. -/
def Chronicle.mark (k : Chronicle κ) (x : Mark) : Chronicle κ := { k with marks := k.marks ++ [x] }

instance [Job J κ] : Job (Watched J) (Chronicle κ) where
  attempt w session :=
    .change (·.mark (.began w.id)) do
      let (job, result) ←
        (Job.attempt w.job session).zoom Chronicle.inner fun inner k => { k with inner }
      .change (·.mark (.ended w.id result)) (pure ({ w with job }, result))

/-- The errand with a watched job, which is numbered as it will be if it is accepted. -/
def Errand.watched (b : Board (Watched J) (Chronicle κ)) :
    Errand J κ → Errand (Watched J) (Chronicle κ)
  | submit job maxAttempts => submit ⟨b.tickets.length, job⟩ maxAttempts
  | standInLine who => standInLine who
  | redeem who job maxAttempts => redeem who ⟨b.tickets.length, job⟩ maxAttempts
  | leaveLine who => leaveLine who
  | requestCancel id => requestCancel id
  | share inner => share { b.common with inner }

/-- The board after an errand with a watched job. If the job is accepted, it is noted how often it
may be tried. -/
def Board.watch (b : Board (Watched J) (Chronicle κ)) (e : Errand J κ) :
    Board (Watched J) (Chronicle κ) :=
  match b.serve (e.watched b), e.offer? with
  | (some _, b), some (_, limit) =>
    { b with common := { b.common with limits := b.common.limits ++ [limit] } }
  | (_, b), _ => b

/-- What an errand leaves of a board with watched jobs. -/
inductive Board.Watches (b : Board (Watched J) (Chronicle κ)) :
    Board (Watched J) (Chronicle κ) → Prop
  | accepted {b' : Board (Watched J) (Chronicle κ)} (job : J) (limit : Nat)
      (isOpen : b.isClosed = false) (isClosed : b'.isClosed = b.isClosed)
      (waiting : b'.waiting =
        b.waiting ++ [⟨b.tickets.length, ⟨b.tickets.length, job⟩, max 1 limit⟩])
      (tickets : b'.tickets = b.tickets ++ [({} : Ticket (Watched J))])
      (limits : b'.common.limits = b.common.limits ++ [limit])
      (marks : b'.common.marks = b.common.marks) : b.Watches b'
  | asked {b' : Board (Watched J) (Chronicle κ)} (id : JobId) (isClosed : b'.isClosed = b.isClosed)
      (waiting : b'.waiting = b.waiting)
      (tickets : b'.tickets = b.tickets.modify id fun t => { t with cancelRequested := true })
      (limits : b'.common.limits = b.common.limits)
      (marks : b'.common.marks = b.common.marks) : b.Watches b'
  | passed {b' : Board (Watched J) (Chronicle κ)} (isClosed : b'.isClosed = b.isClosed)
      (waiting : b'.waiting = b.waiting) (tickets : b'.tickets = b.tickets)
      (limits : b'.common.limits = b.common.limits)
      (marks : b'.common.marks = b.common.marks) : b.Watches b'

theorem Errand.offer?_watched {b : Board (Watched J) (Chronicle κ)} {e : Errand J κ}
    {w : Watched J} {limit : Nat} (h : (e.watched b).offer? = some (w, limit)) :
    w.id = b.tickets.length ∧ e.offer? = some (w.job, limit) := by
  cases e <;> simp_all [watched, offer?, Prod.ext_iff] <;> simp [← h.1]

theorem Board.watches (b : Board (Watched J) (Chronicle κ)) (e : Errand J κ) :
    b.Watches (b.watch e) := by
  have hserved := b.served (e.watched b)
  unfold watch
  generalize b.serve (e.watched b) = out at hserved
  obtain ⟨id, b'⟩ := out
  cases hserved with
  | accepted w limit offer isOpen isClosed waiting tickets common =>
      obtain ⟨hid, hoffer⟩ := Errand.offer?_watched offer
      rw [hoffer]
      obtain ⟨id, job⟩ := w
      obtain rfl : id = b.tickets.length := hid
      dsimp only at common
      exact .accepted job limit isOpen isClosed waiting tickets
        (show b'.common.limits ++ [limit] = _ by rw [common])
        (show b'.common.marks = _ by rw [common])
  | asked id isClosed waiting tickets common =>
      exact .asked id isClosed waiting tickets (by rw [common]) (by rw [common])
  | passed isClosed waiting tickets common =>
      have hsame : b'.common.limits = b.common.limits ∧ b'.common.marks = b.common.marks := by
        rcases common with common | hshare
        · exact ⟨by rw [common], by rw [common]⟩
        · cases e <;> simp [Errand.watched] at hshare
          rw [← hshare]
          exact ⟨rfl, rfl⟩
      exact .passed isClosed waiting tickets hsame.1 hsame.2

/-- Someone's errand with a watched job is done. -/
def Board.Attends (b b' : Board (Watched J) (Chronicle κ)) : Prop :=
  ∃ e : Errand J κ, b' = b.watch e

theorem Board.Attends.becomes {b b' : Board (Watched J) (Chronicle κ)} (h : b.Attends b') :
    b.Becomes b' := by
  obtain ⟨e, rfl⟩ := h
  cases b.watches e with
  | accepted job limit isOpen isClosed waiting tickets limits marks =>
      exact becomes_of_append tickets
  | asked id isClosed waiting tickets limits marks => exact becomes_of_ask tickets
  | passed isClosed waiting tickets limits marks => exact becomes_of_tickets_eq tickets

/-- The first of the jobs that wait stays the first. -/
theorem Board.Attends.head?_waiting {b b' : Board (Watched J) (Chronicle κ)} (h : b.Attends b')
    {order : Order (Watched J)} (hw : b.waiting.head? = some order) :
    b'.waiting.head? = some order := by
  obtain ⟨e, rfl⟩ := h
  cases b.watches e with
  | accepted job limit isOpen isClosed waiting tickets limits marks => simp [waiting, hw]
  | asked id isClosed waiting tickets limits marks => rw [waiting, hw]
  | passed isClosed waiting tickets limits marks => rw [waiting, hw]

/-! ### Reading a chronicle -/

/-- How the attempts at a job ended, the first one first. -/
def results (marks : List Mark) (id : JobId) : List (Except StoreError Bool) :=
  marks.filterMap fun
    | .began _ => none
    | .ended i result => if i = id then some result else none

/-- How often an attempt at a job began. -/
def begun (marks : List Mark) (id : JobId) : Nat :=
  marks.countP fun
    | .began i => i = id
    | .ended _ _ => false

/-- Attempts do not overlap: each one ends before another begins; one may be going on. -/
inductive Alternates : List Mark → (ongoing : Option JobId) → Prop
  | nil : Alternates [] none
  | began {marks : List Mark} (h : Alternates marks none) (id : JobId) :
      Alternates (marks ++ [.began id]) (some id)
  | ended {marks : List Mark} {id : JobId} (h : Alternates marks (some id))
      (result : Except StoreError Bool) : Alternates (marks ++ [.ended id result]) none

/-- What may stand before what: jobs are tried in the order of their numbers, and not again after a
success. -/
def Mark.Precedes (x y : Mark) : Prop :=
  x.id ≤ y.id ∧ ∀ id, x = .ended id (.ok true) → id < y.id

@[simp]
theorem results_append (marks marks' : List Mark) (id : JobId) :
    results (marks ++ marks') id = results marks id ++ results marks' id := List.filterMap_append ..

@[simp]
theorem results_began (i id : JobId) : results [.began i] id = [] := rfl

@[simp]
theorem results_ended (i id : JobId) (result : Except StoreError Bool) :
    results [.ended i result] id = if i = id then [result] else [] := by
  by_cases h : i = id <;> simp [results, h]

theorem mem_results {marks : List Mark} {id : JobId} {result : Except StoreError Bool} :
    result ∈ results marks id ↔ .ended id result ∈ marks := by
  simp only [results, List.mem_filterMap]
  constructor
  · rintro ⟨x, hx, hr⟩
    cases x with
    | began i => simp at hr
    | ended i r =>
        simp only [Option.ite_none_right_eq_some, Option.some.injEq] at hr
        obtain ⟨rfl, rfl⟩ := hr
        exact hx
  · exact fun h => ⟨_, h, by simp⟩

theorem results_eq_nil {marks : List Mark} {id : JobId} (h : ∀ x ∈ marks, x.id ≠ id) :
    results marks id = [] := by
  refine List.eq_nil_iff_forall_not_mem.mpr fun r hr => ?_
  exact h _ (mem_results.mp hr) rfl

/-- Attempts that began have ended, but for the one that is going on. -/
theorem Alternates.begun_eq {marks : List Mark} {ongoing : Option JobId}
    (h : Alternates marks ongoing) (id : JobId) :
    begun marks id = (results marks id).length + if ongoing = some id then 1 else 0 := by
  induction h with
  | nil => rfl
  | began h i ih =>
      simp only [begun, List.countP_append] at ih ⊢
      by_cases hi : i = id <;> simp [ih, hi]
  | ended h r ih =>
      rename_i marks i
      simp only [begun, List.countP_append] at ih ⊢
      by_cases hi : i = id <;> simp [ih, hi]

/-! ### Fates -/

/-- How a job ended that may be tried so often, given how its attempts ended. -/
inductive Fate (isClosed : Bool) (id : JobId) (limit : Nat) (rs : List (Except StoreError Bool))
    (t : Ticket (Watched J)) : Prop
  /-- The last attempt succeeded. -/
  | done (job : J) (earlier : List (Except StoreError Bool)) (state : t.state = .done)
      (reply : t.reply = .returned ⟨id, job⟩) (results_eq : rs = earlier ++ [.ok true])
      (failures : ∀ r ∈ earlier, r ≠ .ok true) (bound : earlier.length < max 1 limit)
  /-- The job was to be skipped while it might have been tried. -/
  | cancelled (job : J) (state : t.state = .cancelled) (reply : t.reply = .returned ⟨id, job⟩)
      (asked : t.cancelRequested = true) (failures : ∀ r ∈ rs, r ≠ .ok true)
      (bound : rs.length < max 1 limit)
  /-- All attempts failed. -/
  | failed (state : t.state = .failed) (reply : t.reply = .failed)
      (failures : ∀ r ∈ rs, r ≠ .ok true) (bound : rs.length = max 1 limit)
  /-- The worker went before the job ended. -/
  | left (closed : isClosed = true) (state : t.state = .running) (reply : t.reply = .abandoned)
      (failures : ∀ r ∈ rs, r ≠ .ok true) (bound : rs.length < max 1 limit)

theorem Fate.reply_ne {isClosed : Bool} {id : JobId} {limit : Nat}
    {rs : List (Except StoreError Bool)} {t : Ticket (Watched J)}
    (h : Fate isClosed id limit rs t) : t.reply ≠ .awaited := by
  cases h <;> simp [*]

theorem Fate.state_ne {isClosed : Bool} {id : JobId} {limit : Nat}
    {rs : List (Except StoreError Bool)} {t : Ticket (Watched J)} (h : Fate isClosed id limit rs t)
    (hopen : isClosed ≠ true) : t.state ≠ .running := by
  cases h <;> simp_all

theorem Fate.mono {isClosed isClosed' : Bool} {id : JobId} {limit : Nat}
    {rs : List (Except StoreError Bool)} {t t' : Ticket (Watched J)}
    (h : Fate isClosed id limit rs t) (hclosed : isClosed = true → isClosed' = true)
    (hstate : t'.state = t.state) (hreply : t'.reply = t.reply)
    (hasked : t.cancelRequested = true → t'.cancelRequested = true) :
    Fate isClosed' id limit rs t' := by
  cases h with
  | done job earlier state reply results_eq failures bound =>
      exact .done job earlier (hstate.trans state) (hreply.trans reply) results_eq failures bound
  | cancelled job state reply asked failures bound =>
      exact .cancelled job (hstate.trans state) (hreply.trans reply) (hasked asked) failures bound
  | failed state reply failures bound =>
      exact .failed (hstate.trans state) (hreply.trans reply) failures bound
  | left closed state reply failures bound =>
      exact .left (hclosed closed) (hstate.trans state) (hreply.trans reply) failures bound

/-! ### What the runner has in hand -/

/-- How far the runner is with a job. -/
inductive Phase where
  /-- The job is to be tried. -/
  | due
  | trying
  /-- The job was tried, and that is to be noted. -/
  | tried (result : Except StoreError Bool)

/-- The job that a runner has in hand. -/
structure Hold where
  id : JobId
  /-- How often the job may be tried, the attempt in question included. -/
  left : Nat
  phase : Phase

/-- The results that were not noted. -/
def Phase.results : Phase → List (Except StoreError Bool)
  | due => []
  | trying => []
  | tried result => [result]

/-- The job that is being tried. -/
def Hold.ongoing (h : Hold) : Option JobId :=
  match h.phase with
  | .trying => some h.id
  | _ => none

/-- What is known of the job in hand: it is the last one that was picked up, and its attempts so far
have failed. -/
structure Hold.Fits (h : Hold) (accepted waiting : Nat) (limits : List Nat) (marks : List Mark) :
    Prop where
  latest : waiting + h.id + 1 = accepted
  left_pos : 0 < h.left
  tries : ∃ limit earlier, limits[h.id]? = some limit ∧
    results marks h.id = earlier ++ h.phase.results ∧
    earlier.length + h.left = max 1 limit ∧ ∀ r ∈ earlier, r ≠ .ok true

/-- How the board, the chronicle and what the runner has in hand belong together. -/
structure Board.At (b : Board (Watched J) (Chronicle κ)) (hand : Option Hold) : Prop where
  limits_length : b.common.limits.length = b.tickets.length
  waiting_id : ∀ (k : Nat) o, b.waiting[k]? = some o →
    b.waiting.length + o.id = b.tickets.length + k
  waiting_order : ∀ o ∈ b.waiting, o.job.id = o.id ∧
    ∃ limit, b.common.limits[o.id]? = some limit ∧ o.attempts = max 1 limit
  closed : b.isClosed = true → b.waiting = [] ∧ hand = none
  alternates : Alternates b.common.marks (hand.bind Hold.ongoing)
  ordered : b.common.marks.Pairwise Mark.Precedes
  picked : ∀ x ∈ b.common.marks, b.waiting.length + x.id < b.tickets.length
  fits : ∀ h, hand = some h →
    h.Fits b.tickets.length b.waiting.length b.common.limits b.common.marks
  pending : ∀ (id : JobId) t, b.tickets[id]? = some t →
    b.tickets.length ≤ b.waiting.length + id ∨ hand.map (·.id) = some id →
      t.state = .running ∧ t.reply = .awaited
  ended : ∀ (id : JobId) t, b.tickets[id]? = some t → b.waiting.length + id < b.tickets.length →
    hand.map (·.id) ≠ some id →
      ∃ limit, b.common.limits[id]? = some limit ∧
        Fate b.isClosed id limit (results b.common.marks id) t
  turn : ∀ x ∈ b.common.marks, ∀ (id : Nat) t, id < x.id → b.tickets[id]? = some t →
    t.state ≠ .running

namespace Board.At

variable {b b' : Board (Watched J) (Chronicle κ)} {hand : Option Hold}

theorem start (inner : κ) :
    ({ common := { inner } } : Board (Watched J) (Chronicle κ)).At none where
  limits_length := rfl
  waiting_id k o h := by simp at h
  waiting_order o h := by simp at h
  closed h := by simp at h
  alternates := .nil
  ordered := .nil
  picked x h := by simp at h
  fits h hh := by simp at hh
  pending id t h := by simp at h
  ended id t h := by simp at h
  turn x h := by simp at h

/-- Nothing else on the board and in the chronicle matters. -/
theorem congr (h : b.At hand) (isClosed : b'.isClosed = b.isClosed)
    (waiting : b'.waiting = b.waiting) (tickets : b'.tickets = b.tickets)
    (limits : b'.common.limits = b.common.limits) (marks : b'.common.marks = b.common.marks) :
    b'.At hand := by
  constructor <;> simp only [isClosed, waiting, tickets, limits, marks]
  case limits_length =>
    exact h.limits_length
  case waiting_id =>
    exact h.waiting_id
  case waiting_order =>
    exact h.waiting_order
  case closed =>
    exact h.closed
  case alternates =>
    exact h.alternates
  case ordered =>
    exact h.ordered
  case picked =>
    exact h.picked
  case fits =>
    exact h.fits
  case pending =>
    exact h.pending
  case ended =>
    exact h.ended
  case turn =>
    exact h.turn

/-! ### Errands -/

theorem accept (h : b.At hand) {job : J} {limit : Nat} (isOpen : b.isClosed = false)
    (isClosed : b'.isClosed = b.isClosed)
    (waiting : b'.waiting =
      b.waiting ++ [⟨b.tickets.length, ⟨b.tickets.length, job⟩, max 1 limit⟩])
    (tickets : b'.tickets = b.tickets ++ [({} : Ticket (Watched J))])
    (limits : b'.common.limits = b.common.limits ++ [limit])
    (marks : b'.common.marks = b.common.marks) : b'.At hand := by
  have hlimits : ∀ {id limit'}, b.common.limits[id]? = some limit' →
      (b.common.limits ++ [limit])[id]? = some limit' := fun hl => by
    rw [List.getElem?_append_left (List.getElem?_eq_some_iff.mp hl).1, hl]
  constructor <;>
    simp only [isClosed, waiting, tickets, limits, marks, List.length_append, List.length_singleton]
  case limits_length =>
    rw [h.limits_length]
  case waiting_id =>
    intro k o hk
    rcases Nat.lt_trichotomy k b.waiting.length with hlt | rfl | hgt
    · rw [List.getElem?_append_left hlt] at hk
      have := h.waiting_id k o hk
      omega
    · simp at hk
      subst hk
      dsimp only
      omega
    · rw [List.getElem?_eq_none (by simpa using Nat.succ_le_of_lt hgt)] at hk
      cases hk
  case waiting_order =>
    intro o ho
    rcases List.mem_append.mp ho with ho | ho
    · obtain ⟨hid, limit', hl, ha⟩ := h.waiting_order o ho
      exact ⟨hid, limit', hlimits hl, ha⟩
    · obtain rfl := List.mem_singleton.mp ho
      exact ⟨rfl, limit, by simp [← h.limits_length], rfl⟩
  case closed =>
    simp [isOpen]
  case alternates =>
    exact h.alternates
  case ordered =>
    exact h.ordered
  case picked =>
    intro x hx
    have := h.picked x hx
    omega
  case fits =>
    intro g hg
    obtain ⟨latest, left_pos, limit', earlier, hl, tries⟩ := h.fits g hg
    exact ⟨by omega, left_pos, limit', earlier, hlimits hl, tries⟩
  case pending =>
    intro id t ht hp
    rcases Nat.lt_or_ge id b.tickets.length with hlt | hge
    · rw [List.getElem?_append_left hlt] at ht
      exact h.pending id t ht (hp.imp_left (by omega))
    · rw [List.getElem?_append_right hge] at ht
      obtain rfl := List.mem_singleton.mp (List.mem_of_getElem? ht)
      exact ⟨rfl, rfl⟩
  case ended =>
    intro id t ht hid hhand
    rw [List.getElem?_append_left (by omega)] at ht
    obtain ⟨limit', hl, hfate⟩ := h.ended id t ht (by omega) hhand
    exact ⟨limit', hlimits hl, hfate⟩
  case turn =>
    intro x hx id t hlt ht
    have := h.picked x hx
    rw [List.getElem?_append_left (by omega)] at ht
    exact h.turn x hx id t hlt ht

theorem ask (h : b.At hand) (id : JobId) (isClosed : b'.isClosed = b.isClosed)
    (waiting : b'.waiting = b.waiting)
    (tickets : b'.tickets = b.tickets.modify id fun t => { t with cancelRequested := true })
    (limits : b'.common.limits = b.common.limits) (marks : b'.common.marks = b.common.marks) :
    b'.At hand := by
  have hticket : ∀ {i : JobId} {t' : Ticket (Watched J)},
      (b.tickets.modify id fun t => { t with cancelRequested := true })[i]? = some t' →
      ∃ t, b.tickets[i]? = some t ∧ t'.state = t.state ∧ t'.reply = t.reply ∧
        (t.cancelRequested = true → t'.cancelRequested = true) := by
    intro i t' ht
    obtain ⟨t, hold, ⟨-, rfl⟩ | ⟨-, rfl⟩⟩ := ticket_of_modify ht
    · exact ⟨t, hold, rfl, rfl, fun _ => rfl⟩
    · exact ⟨_, hold, rfl, rfl, fun hc => hc⟩
  constructor <;> simp only [isClosed, waiting, tickets, limits, marks, List.length_modify]
  case limits_length =>
    exact h.limits_length
  case waiting_id =>
    exact h.waiting_id
  case waiting_order =>
    exact h.waiting_order
  case closed =>
    exact h.closed
  case alternates =>
    exact h.alternates
  case ordered =>
    exact h.ordered
  case picked =>
    exact h.picked
  case fits =>
    exact h.fits
  case pending =>
    intro i t' ht hp
    obtain ⟨t, ht, hstate, hreply, -⟩ := hticket ht
    obtain ⟨hs, hr⟩ := h.pending i t ht hp
    exact ⟨hstate.trans hs, hreply.trans hr⟩
  case ended =>
    intro i t' ht hi hhand
    obtain ⟨t, ht, hstate, hreply, hasked⟩ := hticket ht
    obtain ⟨limit, hl, hfate⟩ := h.ended i t ht hi hhand
    exact ⟨limit, hl, hfate.mono (fun hc => hc) hstate hreply hasked⟩
  case turn =>
    intro x hx i t' hlt ht
    obtain ⟨t, ht, hstate, -⟩ := hticket ht
    exact hstate ▸ h.turn x hx i t hlt ht

theorem watch (h : b.At hand) (e : Errand J κ) : (b.watch e).At hand := by
  cases b.watches e with
  | accepted job limit isOpen isClosed waiting tickets limits marks =>
      exact h.accept isOpen isClosed waiting tickets limits marks
  | asked id isClosed waiting tickets limits marks =>
      exact h.ask id isClosed waiting tickets limits marks
  | passed isClosed waiting tickets limits marks =>
      exact h.congr isClosed waiting tickets limits marks

end Board.At

end ServiceRegistry.Jobs
