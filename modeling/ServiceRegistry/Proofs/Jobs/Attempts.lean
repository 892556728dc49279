import ServiceRegistry.Proofs.Jobs.Chronicle
import ServiceRegistry.Proofs.Script.Amid

/-! # The runner and the chronicle

What a runner does, one thing after the other, and what it then has in hand (`Board.At`): it picks a
job up, begins an attempt and ends it, keeps the job for another attempt or notes its end. From
these comes what a whole pass upholds, whatever the job does and however often others come with
errands meanwhile (`upholds_work`). -/

namespace ServiceRegistry.Jobs

open Relation

variable {J κ : Type}

namespace Board.At

variable {b : Board (Watched J) (Chronicle κ)}

/-! ### One thing after the other -/

/-- A job that waits was not tried. -/
theorem results_of_waits {hand : Option Hold} (h : b.At hand) {id : JobId}
    (hwaits : b.tickets.length ≤ b.waiting.length + id) : results b.common.marks id = [] :=
  results_eq_nil fun x hx heq => by
    have := h.picked x hx
    rw [heq] at this
    omega

theorem pick (h : b.At none) {o : Order (Watched J)} {rest : List (Order (Watched J))}
    (hw : b.waiting = o :: rest) : b.pick.At (some ⟨o.id, o.attempts, .due⟩) := by
  have hid : b.waiting.length + o.id = b.tickets.length := h.waiting_id 0 o (by simp [hw])
  obtain ⟨-, limit, hl, hattempts⟩ := h.waiting_order o (by simp [hw])
  have hnone : results b.common.marks o.id = [] := h.results_of_waits (Nat.le_of_eq hid.symm)
  have htail : b.waiting.length = b.waiting.tail.length + 1 := by simp [hw]
  constructor <;>
    simp only [pick_waiting, pick_tickets, pick_isClosed, pick_common, Option.map_some,
      Option.some.injEq]
  case limits_length =>
    exact h.limits_length
  case waiting_id =>
    intro k o' hk
    rw [List.getElem?_tail] at hk
    have := h.waiting_id (k + 1) o' hk
    omega
  case waiting_order =>
    exact fun o' ho' => h.waiting_order o' (List.mem_of_mem_tail ho')
  case closed =>
    intro hc
    simp [(h.closed hc).1] at hw
  case alternates =>
    exact h.alternates
  case ordered =>
    exact h.ordered
  case picked =>
    intro x hx
    have := h.picked x hx
    omega
  case fits =>
    rintro _ rfl
    refine ⟨by dsimp only; omega, by dsimp only; omega, limit, [], hl, hnone, ?_, by simp⟩
    simp [hattempts]
  case pending =>
    intro id t ht hp
    refine h.pending id t ht (.inl ?_)
    rcases hp with hp | rfl <;> omega
  case ended =>
    intro id t ht hlt hne
    refine h.ended id t ht ?_ (by simp)
    have hne' : o.id ≠ id := by simpa using hne
    have := Nat.lt_or_gt_of_ne hne'
    omega
  case turn =>
    exact h.turn

/-- The chronicle is added to while a job is in hand. -/
theorem mark {id : JobId} {left : Nat} {phase phase' : Phase} {x : Mark}
    (h : b.At (some ⟨id, left, phase⟩)) (hx : x.id = id)
    (alternates : Alternates (b.common.marks ++ [x]) (Hold.ongoing ⟨id, left, phase'⟩))
    (failures : ∀ r ∈ results b.common.marks id, r ≠ .ok true)
    (hresults : phase.results ++ results [x] id = phase'.results) :
    ({ b with common := b.common.mark x } : Board (Watched J) (Chronicle κ)).At
      (some ⟨id, left, phase'⟩) := by
  obtain ⟨latest, left_pos, limit, earlier, hl, hearlier, htries, hfail⟩ := h.fits _ rfl
  have hlatest : b.waiting.length + id + 1 = b.tickets.length := latest
  refine ⟨h.limits_length, h.waiting_id, h.waiting_order, fun hc => ?closed, alternates, ?ordered,
    ?picked, ?fits, h.pending, ?ended, ?turn⟩
  case closed =>
    exact absurd (h.closed hc).2 (by simp)
  case ordered =>
    refine List.pairwise_append.mpr ⟨h.ordered, List.pairwise_singleton _ _, fun y hy z hz => ?_⟩
    obtain rfl := List.mem_singleton.mp hz
    have hpicked := h.picked y hy
    have hle : y.id ≤ id := Nat.le_of_lt_succ (by omega)
    refine ⟨hx ▸ hle, fun i hi => ?_⟩
    subst hi
    rcases Nat.lt_or_eq_of_le hle with hlt | heq
    · exact hx ▸ hlt
    · exact absurd rfl (failures _ (mem_results.mpr (heq ▸ hy)))
  case picked =>
    intro y hy
    rcases List.mem_append.mp hy with hy | hy
    · exact h.picked y hy
    · obtain rfl := List.mem_singleton.mp hy
      change b.waiting.length + y.id < b.tickets.length
      rw [hx]
      omega
  case fits =>
    intro g hg
    obtain rfl := Option.some.inj hg
    refine ⟨latest, left_pos, limit, earlier, hl, ?_, htries, hfail⟩
    dsimp only [Chronicle.mark] at hearlier ⊢
    rw [results_append, hearlier, List.append_assoc, hresults]
  case ended =>
    intro i t ht hlt hne
    obtain ⟨limit', hl', hfate⟩ := h.ended i t ht hlt hne
    have hi : x.id ≠ i := fun heq => hne (by simp [← hx, heq])
    have hnone : results [x] i = [] := results_eq_nil fun y hy => by
      rw [List.mem_singleton.mp hy]
      exact hi
    refine ⟨limit', hl', ?_⟩
    change Fate b.isClosed i limit' (results (b.common.marks ++ [x]) i) t
    rw [results_append, hnone, List.append_nil]
    exact hfate
  case turn =>
    intro y hy i t hlt ht
    rcases List.mem_append.mp hy with hy | hy
    · exact h.turn y hy i t hlt ht
    · -- The jobs before the one in hand have ended, since the board is open.
      obtain rfl := List.mem_singleton.mp hy
      rw [hx] at hlt
      obtain ⟨limit', -, hfate⟩ := h.ended i t ht (by omega) fun heq =>
        absurd (Option.some.inj heq) (Nat.ne_of_gt hlt)
      exact hfate.state_ne fun hc => by simpa using (h.closed hc).2

theorem began {id : JobId} {left : Nat} (h : b.At (some ⟨id, left, .due⟩)) :
    ({ b with common := b.common.mark (.began id) } : Board (Watched J) (Chronicle κ)).At
      (some ⟨id, left, .trying⟩) := by
  obtain ⟨-, -, limit, earlier, -, hearlier, -, hfail⟩ := h.fits _ rfl
  refine h.mark rfl (h.alternates.began id) ?_ rfl
  rw [hearlier]
  simpa [Phase.results] using hfail

theorem tried {id : JobId} {left : Nat} (result : Except StoreError Bool)
    (h : b.At (some ⟨id, left, .trying⟩)) :
    ({ b with common := b.common.mark (.ended id result) } : Board (Watched J) (Chronicle κ)).At
      (some ⟨id, left, .tried result⟩) := by
  obtain ⟨-, -, limit, earlier, -, hearlier, -, hfail⟩ := h.fits _ rfl
  refine h.mark rfl (h.alternates.ended result) ?_ (by simp [Phase.results])
  rw [hearlier]
  simpa [Phase.results] using hfail

/-- The job stays in hand after an attempt that failed. -/
theorem retry {id : JobId} {left : Nat} {result : Except StoreError Bool}
    (h : b.At (some ⟨id, left, .tried result⟩)) (hresult : result ≠ .ok true) (hleft : 1 < left) :
    b.At (some ⟨id, left - 1, .due⟩) := by
  obtain ⟨latest, left_pos, limit, earlier, hl, hearlier, htries, hfail⟩ := h.fits _ rfl
  refine ⟨h.limits_length, h.waiting_id, h.waiting_order, fun hc => ?closed, h.alternates,
    h.ordered, h.picked, ?fits, h.pending, h.ended, h.turn⟩
  case closed =>
    exact absurd (h.closed hc).2 (by simp)
  case fits =>
    intro g hg
    obtain rfl := Option.some.inj hg
    refine ⟨latest, by dsimp only; omega, limit, earlier ++ [result], hl, ?_, ?_, ?_⟩
    · rw [hearlier]
      simp [Phase.results]
    · dsimp only at htries ⊢
      simp only [List.length_append, List.length_singleton]
      omega
    · intro r hr
      rcases List.mem_append.mp hr with hr | hr
      · exact hfail r hr
      · exact List.mem_singleton.mp hr ▸ hresult

/-- The end of the job in hand is noted. -/
theorem complete {h : Hold} (hat : b.At (some h)) (htrying : h.ongoing = none) {state : State}
    (hstate : state ≠ .running) (job : Watched J)
    (fate : ∀ limit earlier t, results b.common.marks h.id = earlier ++ h.phase.results →
      0 < h.left → earlier.length + h.left = max 1 limit → (∀ r ∈ earlier, r ≠ .ok true) →
      b.tickets[h.id]? = some t →
      Fate b.isClosed h.id limit (results b.common.marks h.id) (t.ended state job)) :
    (b.complete h.id state job).At none := by
  obtain ⟨latest, left_pos, limit, earlier, hl, hearlier, htries, hfail⟩ := hat.fits _ rfl
  rw [complete_eq, updateTicket]
  refine ⟨?limits_length, ?waiting_id, hat.waiting_order, fun hc => ?closed, ?alternates,
    hat.ordered, ?picked, fun g hg => by simp at hg, ?pending, ?ended, ?turn⟩
  case limits_length =>
    exact hat.limits_length.trans (List.length_modify ..).symm
  case waiting_id =>
    intro k o hk
    exact (hat.waiting_id k o hk).trans (congrArg (· + k) (List.length_modify ..).symm)
  case closed =>
    exact absurd (hat.closed hc).2 (by simp)
  case alternates =>
    have := hat.alternates
    simp only [Option.bind_some, htrying] at this
    exact this
  case picked =>
    intro x hx
    exact Nat.lt_of_lt_of_eq (hat.picked x hx) (List.length_modify ..).symm
  case pending =>
    intro id t ht hp
    simp only [List.length_modify, Option.map_none, reduceCtorEq, or_false] at hp
    obtain ⟨t, hold, ⟨rfl, rfl⟩ | ⟨-, rfl⟩⟩ := ticket_of_modify ht
    · omega
    · exact hat.pending id _ hold (.inl hp)
  case ended =>
    intro id t ht hlt _
    simp only [List.length_modify] at hlt
    obtain ⟨t, hold, ⟨rfl, rfl⟩ | ⟨hne, rfl⟩⟩ := ticket_of_modify ht
    · exact ⟨limit, hl, fate limit earlier t hearlier left_pos htries hfail hold⟩
    · exact hat.ended id _ hold hlt (by simpa using hne)
  case turn =>
    intro x hx i t hlt ht
    obtain ⟨t, hold, ⟨-, rfl⟩ | ⟨-, rfl⟩⟩ := ticket_of_modify ht
    · exact hstate
    · exact hat.turn x hx i _ hlt hold

/-- The job in hand is skipped. -/
theorem skip {id : JobId} {left : Nat} (h : b.At (some ⟨id, left, .due⟩))
    (asked : b.isCancelRequested id = true) {job : Watched J} (hjob : job.id = id) :
    (b.complete id .cancelled job).At none := by
  obtain ⟨_, job⟩ := job
  subst hjob
  refine h.complete rfl (by simp) _ fun limit earlier t hearlier left_pos htries hfail ht => ?_
  dsimp only at ht left_pos hearlier htries ⊢
  rw [Phase.results, List.append_nil] at hearlier
  refine .cancelled job rfl rfl ?_ (hearlier ▸ hfail) (by rw [hearlier]; omega)
  simpa [isCancelRequested, ht, Ticket.ended] using asked

/-- The job in hand was tried with success. -/
theorem succeed {id : JobId} {left : Nat} (h : b.At (some ⟨id, left, .tried (.ok true)⟩))
    {job : Watched J} (hjob : job.id = id) : (b.complete id .done job).At none := by
  obtain ⟨_, job⟩ := job
  subst hjob
  refine h.complete rfl (by simp) _ fun limit earlier t hearlier left_pos htries hfail ht => ?_
  exact .done job earlier rfl rfl hearlier hfail (by omega)

/-- The last attempt at the job in hand failed. -/
theorem giveUp {id : JobId} {left : Nat} {result : Except StoreError Bool}
    (h : b.At (some ⟨id, left, .tried result⟩)) (hresult : result ≠ .ok true) (hleft : left ≤ 1)
    (job : Watched J) : (b.complete id .failed job).At none := by
  refine h.complete rfl (by simp) job fun limit earlier t hearlier left_pos htries hfail ht => ?_
  dsimp only at left_pos hearlier htries ⊢
  rw [hearlier]
  refine .failed rfl rfl (fun r hr => ?_) ?_
  · rcases List.mem_append.mp hr with hr | hr
    · exact hfail r hr
    · exact List.mem_singleton.mp hr ▸ hresult
  · simp only [Phase.results, List.length_append, List.length_singleton]
    omega

/-- A job that waits or is to be tried has not been tried with success, and may still be tried. -/
theorem may_be_tried {hand : Option Hold} (h : b.At hand)
    (hdue : ∀ g, hand = some g → g.phase = .due) {id : JobId} (hid : id < b.tickets.length)
    (hp : b.tickets.length ≤ b.waiting.length + id ∨ hand.map (·.id) = some id) :
    ∃ limit, b.common.limits[id]? = some limit ∧
      (∀ r ∈ results b.common.marks id, r ≠ .ok true) ∧
      (results b.common.marks id).length < max 1 limit := by
  rcases hp with hwaits | hhand
  · have hnone := h.results_of_waits hwaits
    have hlt : id < b.common.limits.length := h.limits_length ▸ hid
    refine ⟨_, List.getElem?_eq_getElem hlt, ?_, ?_⟩
    · simp [hnone]
    · rw [hnone, List.length_nil]
      omega
  · obtain ⟨g, rfl, rfl⟩ := Option.map_eq_some_iff.mp hhand
    obtain ⟨-, left_pos, limit, earlier, hl, hearlier, htries, hfail⟩ := h.fits g rfl
    rw [hdue g rfl, Phase.results, List.append_nil] at hearlier
    exact ⟨limit, hl, hearlier ▸ hfail, by rw [hearlier]; omega⟩

/-- The jobs that wait are the last ones that were accepted. -/
theorem mem_waiting {hand : Option Hold} (h : b.At hand) {id : Nat}
    (hid : id < b.tickets.length) (hwaits : b.tickets.length ≤ b.waiting.length + id) :
    id ∈ b.waiting.map (·.id) := by
  obtain ⟨k, hk⟩ : ∃ k, b.tickets.length + k = b.waiting.length + id :=
    ⟨_, Nat.add_sub_of_le hwaits⟩
  have hlt : k < b.waiting.length := by omega
  obtain ⟨o, ho⟩ : ∃ o, b.waiting[k]? = some o := ⟨_, List.getElem?_eq_getElem hlt⟩
  have hlast := h.waiting_id k o ho
  have hid' : o.id = id := by apply Nat.le_antisymm <;> omega
  exact List.mem_map.mpr ⟨o, List.mem_of_getElem? ho, hid'⟩

/-- The board is closed while nothing is being tried. -/
theorem close {hand : Option Hold} (h : b.At hand) (hdue : ∀ g, hand = some g → g.phase = .due) :
    (b.close (hand.map (·.id))).At none := by
  have hongoing : hand.bind Hold.ongoing = none := by
    cases hand with
    | none => rfl
    | some g => simp [Hold.ongoing, hdue g rfl]
  have halternates := h.alternates
  rw [hongoing] at halternates
  have hwaiting : (b.close (hand.map (·.id))).waiting = [] := rfl
  refine ⟨?limits_length, fun k o hk => by simp [hwaiting] at hk, fun o ho => by
    simp [hwaiting] at ho, fun _ => ⟨rfl, rfl⟩, ?alternates, ?ordered, ?picked,
    fun g hg => by simp at hg, ?pending, ?ended, ?turn⟩
  case limits_length =>
    rw [close_common, close_tickets_length, h.limits_length]
  case alternates =>
    rw [close_common]
    exact halternates
  case ordered =>
    rw [close_common]
    exact h.ordered
  case picked =>
    intro x hx
    rw [close_common] at hx
    have := h.picked x hx
    rw [close_tickets_length]
    exact Nat.lt_of_le_of_lt (by simp [Board.close]) this
  case pending =>
    intro id t ht hp
    have hid := (List.getElem?_eq_some_iff.mp ht).1
    rw [close_tickets_length] at hid hp
    simp [Board.close] at hp
    omega
  case ended =>
    intro id t ht _ _
    have hid := (List.getElem?_eq_some_iff.mp ht).1
    rw [close_tickets_length] at hid
    rw [close_tickets, Option.map_eq_some_iff] at ht
    obtain ⟨t, ht, rfl⟩ := ht
    rw [close_common]
    by_cases hp : b.tickets.length ≤ b.waiting.length + id ∨ hand.map (·.id) = some id
    · obtain ⟨hstate, hreply⟩ := h.pending id t ht hp
      obtain ⟨limit, hl, hfail, hbound⟩ := h.may_be_tried hdue hid hp
      have hmem : id ∈ b.waiting.map (·.id) ++ (hand.map (·.id)).toList := by
        refine List.mem_append.mpr (hp.imp (h.mem_waiting hid) fun hhand => ?_)
        simp [hhand]
      rw [if_pos hmem]
      exact ⟨limit, hl, .left rfl (t.abandoned_state.trans hstate) (Ticket.abandoned_reply hreply)
        hfail hbound⟩
    · obtain ⟨hlt, hne⟩ := not_or.mp hp
      obtain ⟨limit, hl, hfate⟩ := h.ended id t ht (Nat.lt_of_not_le hlt) hne
      refine ⟨limit, hl, ?_⟩
      have hsame : (if id ∈ b.waiting.map (·.id) ++ (hand.map (·.id)).toList then t.abandoned
          else t) = t := by
        split
        · exact Ticket.abandoned_of_ne hfate.reply_ne
        · rfl
      rw [hsame]
      exact hfate.mono (fun _ => rfl) rfl rfl fun hc => hc
  case turn =>
    intro x hx i t hlt ht
    rw [close_common] at hx
    rw [close_tickets, Option.map_eq_some_iff] at ht
    obtain ⟨t, ht, rfl⟩ := ht
    have hstate := h.turn x hx i t hlt ht
    split
    · exact t.abandoned_state ▸ hstate
    · exact hstate

theorem attend {hand : Option Hold} (b b' : Board (Watched J) (Chronicle κ)) (h : b.At hand)
    (hb : b.Attends b') : b'.At hand := by
  obtain ⟨e, rfl⟩ := hb
  exact h.watch e

end Board.At

/-! ### Passes -/

/-- What a runner may make of a board. -/
def Board.Proceeds (b b' : Board (Watched J) (Chronicle κ)) : Prop :=
  (∃ hand, b'.At hand) ∧ b.Becomes b'

/-- Between two passes, the runner has nothing in hand or a job that is to be tried. -/
def Runner.Rests (r : Runner (Watched J)) (b : Board (Watched J) (Chronicle κ)) : Prop :=
  match r.current with
  | none => b.At none
  | some order => b.At (some ⟨order.id, r.attemptsLeft, .due⟩) ∧ order.job.id = order.id

variable {b : Board (Watched J) (Chronicle κ)}

theorem Board.At.proceeds_mark {hand : Option Hold} {x : Mark}
    (h : ({ b with common := b.common.mark x } : Board (Watched J) (Chronicle κ)).At hand) :
    b.Proceeds { b with common := b.common.mark x } := ⟨⟨hand, h⟩, becomes_of_tickets_eq rfl⟩

theorem Board.At.proceeds_complete {h : Hold} (hat : b.At (some h)) {state : State}
    {job : Watched J} (h' : (b.complete h.id state job).At none) :
    b.Proceeds (b.complete h.id state job) :=
  ⟨⟨none, h'⟩, becomes_complete state job fun t ht => hat.pending h.id t ht (.inr rfl)⟩

/-- An attempt at a watched job, seen from the board. -/
theorem zoom_attempt [Job J κ] (w : Watched J) (session : SessionId) :
    (Job.attempt w session).zoom Board.common
        (fun common (b : Board (Watched J) (Chronicle κ)) => { b with common }) =
      .change (fun b => { b with common := b.common.mark (.began w.id) })
        (((Job.attempt w.job session).zoom (fun b => b.common.inner)
            fun inner b => { b with common := { b.common with inner } }).bind fun out =>
          .change (fun b => { b with common := b.common.mark (.ended w.id out.2) })
            (.done ({ w with job := out.1 }, out.2))) := by
  have hattempt : Job.attempt w session =
      .change (·.mark (.began w.id))
        (((Job.attempt w.job session).zoom Chronicle.inner
            fun inner k => { k with inner }).bind fun out =>
          .change (·.mark (.ended w.id out.2)) (.done ({ w with job := out.1 }, out.2))) := rfl
  rw [hattempt]
  simp only [Script.zoom, Script.zoom_bind, Script.zoom_zoom]

namespace Runner

theorem upholds_retry (r : Runner (Watched J)) (order : Order (Watched J))
    {result : Except StoreError Bool} (hjob : order.job.id = order.id) (hresult : result ≠ .ok true)
    (hb : b.At (some ⟨order.id, r.attemptsLeft, .tried result⟩))
    (out : Bool → Except StoreError Bool) :
    ((r.retry order).bind fun next => .done (next.1, out next.2)).Upholds Board.Attends
      Board.Proceeds (fun out b => out.1.Rests b) b := by
  unfold retry
  dsimp only
  split
  · next hleft =>
      refine Script.upholds_done Board.At.attend hb fun b hb => ?_
      exact ⟨hb.retry hresult (by omega), hjob⟩
  · next hleft =>
      refine Script.upholds_change Board.At.attend hb fun b hb => ?_
      have h' : (b.complete order.id .failed order.job).At none :=
        hb.giveUp hresult (by omega) order.job
      exact ⟨hb.proceeds_complete h', Script.upholds_done Board.At.attend h' fun b hb => hb⟩

variable [Job J κ]

theorem upholds_attempt (r : Runner (Watched J)) {order : Order (Watched J)} (session : SessionId)
    (hjob : order.job.id = order.id) (hb : b.At (some ⟨order.id, r.attemptsLeft, .due⟩)) :
    (r.attempt order session).Upholds Board.Attends Board.Proceeds (fun out b => out.1.Rests b)
      b := by
  unfold attempt
  refine Script.upholds_look Board.At.attend hb fun b hb => ?_
  dsimp only
  split
  · next asked =>
      have hstable : ∀ b b' : Board (Watched J) (Chronicle κ),
          b.At (some ⟨order.id, r.attemptsLeft, .due⟩) ∧ b.isCancelRequested order.id = true →
          b.Attends b' → b'.At (some ⟨order.id, r.attemptsLeft, .due⟩) ∧
            b'.isCancelRequested order.id = true := fun b b' h hb =>
        ⟨h.1.attend b b' hb, hb.becomes.isCancelRequested h.2⟩
      refine Script.upholds_change hstable ⟨hb, asked⟩ fun b hb => ?_
      have h' : (b.complete order.id .cancelled order.job).At none := hb.1.skip hb.2 hjob
      exact ⟨hb.1.proceeds_complete h', Script.upholds_done Board.At.attend h' fun b hb => hb⟩
  · refine Script.upholds_bind ?_
    rw [zoom_attempt, hjob]
    refine Script.upholds_change Board.At.attend hb fun b hb => ⟨hb.began.proceeds_mark, ?_⟩
    refine Script.upholds_bind (Script.upholds_zoom Board.At.attend ?_ ?_ _ hb.began)
    · intro b inner hb
      have h' : ({ b with common := { b.common with inner } } : Board (Watched J) _).At _ :=
        hb.congr rfl rfl rfl rfl rfl
      exact ⟨⟨⟨_, h'⟩, Board.becomes_of_tickets_eq rfl⟩, h'⟩
    · rintro ⟨job, result⟩ b hb
      refine Script.upholds_change Board.At.attend hb fun b hb => ?_
      refine ⟨(hb.tried result).proceeds_mark, ?_⟩
      refine Script.upholds_done Board.At.attend (hb.tried result) fun b hb => ?_
      match result with
      | .ok true =>
          refine Script.upholds_change Board.At.attend hb fun b hb => ?_
          have h' : (b.complete order.id .done ⟨order.id, job⟩).At none := hb.succeed rfl
          exact ⟨hb.proceeds_complete h', Script.upholds_done Board.At.attend h' fun b hb => hb⟩
      | .ok false =>
          have hout : (Except.ok false : Except StoreError Bool) ≠ .ok true := by simp
          exact r.upholds_retry ⟨order.id, ⟨order.id, job⟩, order.attempts⟩ rfl hout hb .ok
      | .error e =>
          have hout : (Except.error e : Except StoreError Bool) ≠ .ok true := by simp
          exact r.upholds_retry ⟨order.id, ⟨order.id, job⟩, order.attempts⟩ rfl hout hb
            fun _ => .error e

/-- In a pass, the runner proceeds as it should, and rests at its end. -/
theorem upholds_work (r : Runner (Watched J)) (session : SessionId) (hr : r.Rests b) :
    (r.work session).Upholds Board.Attends Board.Proceeds (fun out b => out.1.Rests b) b := by
  unfold work
  cases hcurrent : r.current with
  | some order =>
      simp only [Rests, hcurrent] at hr
      exact r.upholds_attempt session hr.2 hr.1
  | none =>
      simp only [Rests, hcurrent] at hr
      refine Script.upholds_look Board.At.attend hr fun b hb => ?_
      split
      · refine Script.upholds_done Board.At.attend hb fun b hb => ?_
        simpa only [Rests, hcurrent] using hb
      · next order rest hwaiting =>
          have hstable : ∀ b b' : Board (Watched J) (Chronicle κ),
              b.At none ∧ b.waiting.head? = some order → b.Attends b' →
              b'.At none ∧ b'.waiting.head? = some order := fun b b' h hb =>
            ⟨h.1.attend b b' hb, hb.head?_waiting h.2⟩
          refine Script.upholds_change hstable ⟨hb, by simp [hwaiting]⟩ fun b hb => ?_
          obtain ⟨rest, hwaiting⟩ := List.head?_eq_some_iff.mp hb.2
          have hpick := hb.1.pick hwaiting
          have hjob := (hb.1.waiting_order order (by simp [hwaiting])).1
          exact ⟨⟨⟨_, hpick⟩, Board.becomes_of_tickets_eq b.pick_tickets⟩,
            upholds_attempt ⟨some order, order.attempts⟩ session hjob hpick⟩

end Runner

end ServiceRegistry.Jobs
