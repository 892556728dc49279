import ServiceRegistry.Proofs.Worker.Runs

/-! # Errands at a job board

Those who offer jobs come to the board with errands: they offer a job, stand in line for room, use
the room that was kept for them, give up, or ask for a job to be skipped; the state that the jobs
share may be changed by anyone (`Errand`). When the worker of a board is over, the board is closed.
These are the acts of others in a run of a worker that takes jobs (`workshop`).

`Board.served` says what an errand leaves of a board. Nothing ever changes the state or the reply of
a job that has them (`Board.Becomes`). -/

namespace ServiceRegistry.Jobs

open Relation Worker

variable {J κ : Type}

/-! ### Errands -/

/-- What someone comes to the board for. -/
inductive Errand (J κ : Type) where
  | submit (job : J) (maxAttempts : Nat)
  | standInLine (who : Standing)
  /-- End the wait in line. -/
  | redeem (who : Standing) (job : J) (maxAttempts : Nat)
  | leaveLine (who : Standing)
  | requestCancel (id : JobId)
  /-- Change the state that the jobs share. -/
  | share (common : κ)

/-- The job that is offered, and how often it may be tried. -/
def Errand.offer? : Errand J κ → Option (J × Nat)
  | submit job maxAttempts => some (job, maxAttempts)
  | redeem _ job maxAttempts => some (job, maxAttempts)
  | _ => none

/-- The board after an errand, with the number of the job that was accepted, if one was. -/
def Board.serve (b : Board J κ) : Errand J κ → Option JobId × Board J κ
  | .submit job maxAttempts => b.submit job maxAttempts
  | .standInLine who => (none, b.standInLine who)
  | .redeem who job maxAttempts => b.redeem who job maxAttempts
  | .leaveLine who => (none, b.leaveLine who)
  | .requestCancel id => (none, (b.requestCancel id).2)
  | .share common => (none, { b with common })

/-- What an errand leaves of a board: a job is accepted, a job is asked to be skipped, or the
accepted jobs are left as they are. -/
inductive Board.Served (b : Board J κ) (e : Errand J κ) : Option JobId → Board J κ → Prop
  | accepted {b' : Board J κ} (job : J) (limit : Nat) (offer : e.offer? = some (job, limit))
      (isOpen : b.isClosed = false) (isClosed : b'.isClosed = b.isClosed)
      (waiting : b'.waiting = b.waiting ++ [⟨b.tickets.length, job, max 1 limit⟩])
      (tickets : b'.tickets = b.tickets ++ [({} : Ticket J)]) (common : b'.common = b.common) :
      b.Served e (some b.tickets.length) b'
  | asked {b' : Board J κ} (id : JobId) (isClosed : b'.isClosed = b.isClosed)
      (waiting : b'.waiting = b.waiting)
      (tickets : b'.tickets = b.tickets.modify id fun t => { t with cancelRequested := true })
      (common : b'.common = b.common) : b.Served e none b'
  | passed {b' : Board J κ} (isClosed : b'.isClosed = b.isClosed) (waiting : b'.waiting = b.waiting)
      (tickets : b'.tickets = b.tickets) (common : b'.common = b.common ∨ e = .share b'.common) :
      b.Served e none b'

theorem Board.served (b : Board J κ) (e : Errand J κ) : b.Served e (b.serve e).1 (b.serve e).2 := by
  cases e with
  | submit job maxAttempts =>
      simp only [serve, submit]
      split
      · exact .passed rfl rfl rfl (.inl rfl)
      · next h =>
          exact .accepted job maxAttempts rfl (by simp at h; exact h.1) rfl rfl rfl rfl
  | standInLine who => exact .passed rfl rfl rfl (.inl rfl)
  | redeem who job maxAttempts =>
      simp only [serve, redeem]
      split
      · next h =>
          exact .accepted job maxAttempts rfl (by simp at h; exact h.1) rfl rfl rfl rfl
      · exact .passed rfl rfl rfl (.inl rfl)
  | leaveLine who => exact .passed rfl rfl rfl (.inl rfl)
  | requestCancel id =>
      simp only [serve, requestCancel]
      split
      · exact .passed rfl rfl rfl (.inl rfl)
      · split
        · exact .passed rfl rfl rfl (.inl rfl)
        · exact .asked id rfl rfl rfl rfl
  | share common => exact .passed rfl rfl rfl (.inr rfl)

/-- Someone's errand is done. -/
def Board.Serves (b b' : Board J κ) : Prop := ∃ e, b' = (b.serve e).2

/-- Others do with the store what they like and come with errands, which act on the board; once,
when the worker is over, the board is closed. -/
def workshop (acts : Board J κ → Board J κ → Prop) : Course.Others (Runner J) (Board J κ) :=
  fun bench before after =>
    ReflTransGen acts before.2 after.2 ∨
      (bench.isOver = true ∧ before.2.isClosed = false ∧
        after.2 = before.2.close (bench.worker.task.current.map (·.id)))

/-! ### What the runner does -/

/-- The ticket of a job that has ended in a state. -/
def Ticket.ended (state : State) (job : J) (t : Ticket J) : Ticket J :=
  { t with
    state
    reply := match state with
      | .done | .cancelled => .returned job
      | .failed | .running => .failed }

/-- The ticket of a job that will never end. -/
def Ticket.abandoned (t : Ticket J) : Ticket J :=
  match t.reply with
  | .awaited => { t with reply := .abandoned }
  | _ => t

theorem Ticket.abandoned_state (t : Ticket J) : t.abandoned.state = t.state := by
  unfold abandoned
  split <;> rfl

theorem Ticket.abandoned_reply {t : Ticket J} (h : t.reply = .awaited) :
    t.abandoned.reply = .abandoned := by
  unfold abandoned
  rw [h]

theorem Ticket.abandoned_of_ne {t : Ticket J} (h : t.reply ≠ .awaited) : t.abandoned = t := by
  unfold abandoned
  split
  · next hr => exact absurd hr h
  · rfl

theorem Ticket.abandoned_abandoned (t : Ticket J) : t.abandoned.abandoned = t.abandoned := by
  refine abandoned_of_ne ?_
  unfold abandoned
  split
  · simp
  · next h => exact h

namespace Board

variable (b : Board J κ)

@[simp] theorem grant_waiting : b.grant.waiting = b.waiting := by unfold grant; split <;> rfl

@[simp] theorem grant_tickets : b.grant.tickets = b.tickets := by unfold grant; split <;> rfl

@[simp] theorem grant_isClosed : b.grant.isClosed = b.isClosed := by unfold grant; split <;> rfl

@[simp] theorem grant_common : b.grant.common = b.common := by unfold grant; split <;> rfl

@[simp] theorem pick_waiting : b.pick.waiting = b.waiting.tail := by
  unfold pick; split <;> simp [*]

@[simp] theorem pick_tickets : b.pick.tickets = b.tickets := by unfold pick; split <;> simp

@[simp] theorem pick_isClosed : b.pick.isClosed = b.isClosed := by unfold pick; split <;> simp

@[simp] theorem pick_common : b.pick.common = b.common := by unfold pick; split <;> simp

theorem complete_eq (id : JobId) (state : State) (job : J) :
    b.complete id state job = b.updateTicket id (·.ended state job) := rfl

theorem abandon_eq (id : JobId) : b.abandon id = b.updateTicket id Ticket.abandoned := rfl

theorem foldl_abandon_tickets (ids : List JobId) (i : JobId) :
    (ids.foldl abandon b).tickets[i]? =
      b.tickets[i]?.map fun t => if i ∈ ids then t.abandoned else t := by
  induction ids generalizing b with
  | nil => simp
  | cons id ids ih =>
      rw [List.foldl_cons, ih, abandon_eq, updateTicket, List.getElem?_modify]
      rcases eq_or_ne id i with rfl | hne
      · cases b.tickets[id]? <;> simp [Ticket.abandoned_abandoned]
      · simp [hne, hne.symm]

theorem foldl_abandon_length (ids : List JobId) :
    (ids.foldl abandon b).tickets.length = b.tickets.length := by
  induction ids generalizing b with
  | nil => rfl
  | cons id ids ih => exact (ih _).trans (List.length_modify ..)

theorem foldl_abandon_common (ids : List JobId) : (ids.foldl abandon b).common = b.common := by
  induction ids generalizing b with
  | nil => rfl
  | cons id ids ih => exact ih _

/-- Whatever waits at the end, and the job in hand, will never end. -/
theorem close_tickets (current : Option JobId) (i : JobId) :
    (b.close current).tickets[i]? =
      b.tickets[i]?.map fun t =>
        if i ∈ b.waiting.map (·.id) ++ current.toList then t.abandoned else t :=
  b.foldl_abandon_tickets _ i

@[simp]
theorem close_tickets_length (current : Option JobId) :
    (b.close current).tickets.length = b.tickets.length := b.foldl_abandon_length _

@[simp]
theorem close_common (current : Option JobId) : (b.close current).common = b.common :=
  b.foldl_abandon_common _

end Board

/-- A ticket is as it was, or it is the one that was changed. -/
theorem ticket_of_modify {ts : List (Ticket J)} {id i : JobId} {f : Ticket J → Ticket J}
    {t' : Ticket J} (h : (ts.modify id f)[i]? = some t') :
    ∃ t, ts[i]? = some t ∧ ((id = i ∧ t' = f t) ∨ (id ≠ i ∧ t' = t)) := by
  rw [List.getElem?_modify, Option.map_eq_map, Option.map_eq_some_iff] at h
  obtain ⟨t, ht, hf⟩ := h
  refine ⟨t, ht, ?_⟩
  split at hf
  · next heq => exact .inl ⟨heq, hf.symm⟩
  · next hne => exact .inr ⟨hne, hf.symm⟩

/-! ### What stays -/

/-- What may become of a ticket: the end of the job is noted once, and a wish to skip it stays. -/
structure Ticket.Becomes (t t' : Ticket J) : Prop where
  state : t.state ≠ .running → t'.state = t.state
  reply : t.reply ≠ .awaited → t'.reply = t.reply
  asked : t.cancelRequested = true → t'.cancelRequested = true

theorem Ticket.Becomes.refl (t : Ticket J) : t.Becomes t := ⟨fun _ => rfl, fun _ => rfl, id⟩

theorem Ticket.Becomes.trans {t t' t'' : Ticket J} (h : t.Becomes t') (h' : t'.Becomes t'') :
    t.Becomes t'' where
  state hs := (h'.state ((h.state hs).symm ▸ hs)).trans (h.state hs)
  reply hr := (h'.reply ((h.reply hr).symm ▸ hr)).trans (h.reply hr)
  asked hc := h'.asked (h.asked hc)

theorem Ticket.becomes_abandoned (t : Ticket J) : t.Becomes t.abandoned := by
  by_cases h : t.reply = .awaited
  · refine ⟨fun _ => t.abandoned_state, fun hr => absurd h hr, fun hc => ?_⟩
    unfold abandoned
    split <;> exact hc
  · rw [abandoned_of_ne h]
    exact .refl t

/-- What may become of a board: every job that was accepted stays accepted. -/
def Board.Becomes (b b' : Board J κ) : Prop :=
  ∀ (id : JobId) (t : Ticket J), b.tickets[id]? = some t →
    ∃ t', b'.tickets[id]? = some t' ∧ t.Becomes t'

namespace Board

variable {b b' b'' : Board J κ}

theorem becomes_of_tickets_eq (h : b'.tickets = b.tickets) : b.Becomes b' :=
  fun id t ht => ⟨t, by rw [h]; exact ht, .refl t⟩

theorem Becomes.refl (b : Board J κ) : b.Becomes b := becomes_of_tickets_eq rfl

theorem Becomes.trans (h : b.Becomes b') (h' : b'.Becomes b'') : b.Becomes b'' := by
  intro id t ht
  obtain ⟨t', ht', hb⟩ := h id t ht
  obtain ⟨t'', ht'', hb'⟩ := h' id t' ht'
  exact ⟨t'', ht'', hb.trans hb'⟩

theorem Becomes.isCancelRequested (h : b.Becomes b') {id : JobId}
    (hid : b.isCancelRequested id = true) : b'.isCancelRequested id = true := by
  unfold Board.isCancelRequested at hid ⊢
  cases ht : b.tickets[id]? with
  | none => simp [ht] at hid
  | some t =>
      obtain ⟨t', ht', hbecomes⟩ := h id t ht
      simp only [ht, ht', Option.map_some, Option.getD_some] at hid ⊢
      exact hbecomes.asked hid

theorem becomes_of_modify {id : JobId} {f : Ticket J → Ticket J}
    (hf : ∀ t, b.tickets[id]? = some t → t.Becomes (f t))
    (h : b'.tickets = b.tickets.modify id f) : b.Becomes b' := by
  intro i t ht
  rw [h, List.getElem?_modify, ht]
  rcases eq_or_ne id i with rfl | hne
  · exact ⟨f t, by simp, hf t ht⟩
  · exact ⟨t, by simp [hne], .refl t⟩

theorem becomes_of_append {ts : List (Ticket J)} (h : b'.tickets = b.tickets ++ ts) :
    b.Becomes b' := by
  intro i t ht
  refine ⟨t, ?_, .refl t⟩
  rw [h, List.getElem?_append_left (List.getElem?_eq_some_iff.mp ht).1, ht]

theorem becomes_of_ask {id : JobId}
    (h : b'.tickets = b.tickets.modify id fun t => { t with cancelRequested := true }) :
    b.Becomes b' := by
  refine becomes_of_modify (fun t _ => ?_) h
  exact ⟨fun _ => rfl, fun _ => rfl, fun _ => rfl⟩

theorem becomes_close (b : Board J κ) (current : Option JobId) : b.Becomes (b.close current) := by
  intro i t ht
  rw [b.close_tickets current i, ht]
  refine ⟨_, rfl, ?_⟩
  split
  · exact t.becomes_abandoned
  · exact .refl t

/-- The end of a job that has not ended is noted. -/
theorem becomes_complete {id : JobId} (state : State) (job : J)
    (h : ∀ t, b.tickets[id]? = some t → t.state = .running ∧ t.reply = .awaited) :
    b.Becomes (b.complete id state job) := by
  refine becomes_of_modify (fun t ht => ?_) rfl
  obtain ⟨hs, hr⟩ := h t ht
  exact ⟨fun hne => absurd hs hne, fun hne => absurd hr hne, fun hc => hc⟩

end Board

end ServiceRegistry.Jobs
