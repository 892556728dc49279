import ServiceRegistry.Proofs.Jobs.Errands

/-! # The count of a job board

Those who offer jobs with time to wait come to stand in line only when there is no room, and only
those who stand there end the wait (`Errand.IsProper`). Then the count of a board is the number of
the jobs that wait on it and of those who stand in line or have room kept for them
(`Board.Tallies`). The runner keeps the count too when it picks a job up, and room that becomes free
goes to the first in line (`Board.Tallies.pick`). -/

namespace ServiceRegistry.Jobs

open Relation

variable {J κ : Type}

/-! ### Proper errands -/

/-- May someone come with the errand to the board as it is? -/
inductive Errand.IsProper (b : Board J κ) : Errand J κ → Prop
  | submit (job : J) (maxAttempts : Nat) : IsProper b (.submit job maxAttempts)
  | standInLine {who : Standing} (isOpen : b.isClosed = false) (full : b.room = 0)
      (new : who ∉ b.line ++ b.granted) : IsProper b (.standInLine who)
  | redeem {who : Standing} (job : J) (maxAttempts : Nat) (there : who ∈ b.line ++ b.granted) :
      IsProper b (.redeem who job maxAttempts)
  | leaveLine {who : Standing} (there : who ∈ b.line) : IsProper b (.leaveLine who)
  | requestCancel (id : JobId) : IsProper b (.requestCancel id)
  | share (common : κ) : IsProper b (.share common)

/-- Someone's errand is done, and was a proper one. -/
def Board.IsVisited (b b' : Board J κ) : Prop := ∃ e : Errand J κ, e.IsProper b ∧ b' = (b.serve e).2

/-- What others do to the store and a board between two steps of the runner. -/
def Board.Amid (before after : Store × Board J κ) : Prop :=
  ReflTransGen Board.IsVisited before.2 after.2

theorem Board.serve_isClosed (b : Board J κ) (e : Errand J κ) :
    (b.serve e).2.isClosed = b.isClosed := by
  have hserved := b.served e
  generalize b.serve e = out at hserved ⊢
  obtain ⟨accepted, b'⟩ := out
  cases hserved with
  | accepted job limit offer isOpen isClosed => exact isClosed
  | asked id isClosed => exact isClosed
  | passed isClosed => exact isClosed

theorem Board.isClosed_of_visits {b b' : Board J κ} (h : ReflTransGen Board.IsVisited b b') :
    b'.isClosed = b.isClosed := by
  induction h with
  | refl => rfl
  | tail _ hvisit ih =>
      obtain ⟨e, -, rfl⟩ := hvisit
      exact (Board.serve_isClosed _ e).trans ih

/-- The oldest job that waits stays the oldest. -/
theorem Board.head?_waiting_serve {b : Board J κ} (e : Errand J κ) {order : Order J}
    (h : b.waiting.head? = some order) : (b.serve e).2.waiting.head? = some order := by
  have hserved := b.served e
  generalize b.serve e = out at hserved ⊢
  obtain ⟨accepted, b'⟩ := out
  cases hserved with
  | accepted job limit offer isOpen isClosed waiting =>
      dsimp only at waiting ⊢
      rw [waiting, List.head?_append, h]
      rfl
  | asked id isClosed waiting => exact (congrArg List.head? waiting).trans h
  | passed isClosed waiting => exact (congrArg List.head? waiting).trans h

/-! ### The count -/

@[simp] theorem Board.grant_queued (b : Board J κ) : b.grant.queued = b.queued := by
  unfold grant
  split <;> rfl

theorem Board.pick_queued {b : Board J κ} (h : b.waiting ≠ []) :
    b.pick.queued = b.queued - 1 := by
  unfold pick
  split
  · contradiction
  · exact grant_queued _

/-- What waits on a board and who stands in line add up. -/
structure Board.Tallies (b : Board J κ) : Prop where
  queued_eq : b.queued = b.waiting.length + (b.line.length + b.granted.length)
  fits : b.waiting.length + b.granted.length ≤ capacity
  /-- Nobody stands in line while there is room. -/
  full : b.line ≠ [] → b.room = 0
  nodup : (b.line ++ b.granted).Nodup

theorem length_filter_ne {α : Type} [DecidableEq α] {l : List α} (h : l.Nodup) {a : α}
    (ha : a ∈ l) : (l.filter (· ≠ a)).length + 1 = l.length := by
  have hfilter : l.filter (· ≠ a) = l.erase a := by
    rw [h.erase_eq_filter]
    exact List.filter_congr fun x _ => by rw [Bool.eq_iff_iff]; simp
  rw [hfilter, List.length_erase_of_mem ha]
  have := List.length_pos_of_mem ha
  omega

namespace Board.Tallies

variable {b b' : Board J κ}

theorem start (common : κ) : ({ common } : Board J κ).Tallies where
  queued_eq := rfl
  fits := Nat.zero_le _
  full h := absurd rfl h
  nodup := .nil

theorem congr (h : b.Tallies) (waiting : b'.waiting = b.waiting) (line : b'.line = b.line)
    (granted : b'.granted = b.granted) (queued : b'.queued = b.queued) : b'.Tallies where
  queued_eq := by rw [queued, waiting, line, granted, h.queued_eq]
  fits := by rw [waiting, granted]; exact h.fits
  full := by rw [room, waiting, line, granted]; exact h.full
  nodup := by rw [line, granted]; exact h.nodup

/-- One job more waits, and one more is counted or one less has room kept. -/
theorem accept (h : b.Tallies) {order : Order J} (waiting : b'.waiting = b.waiting ++ [order])
    (line : b'.line = b.line) (granted : b'.granted.Sublist b.granted)
    (queued : b'.queued + b.granted.length = b.queued + 1 + b'.granted.length)
    (room : b.line ≠ [] → b'.granted.length + 1 = b.granted.length)
    (fits : b.waiting.length + b'.granted.length < capacity) : b'.Tallies where
  queued_eq := by
    have := h.queued_eq
    rw [waiting, line, List.length_append, List.length_singleton]
    omega
  fits := by
    rw [waiting, List.length_append, List.length_singleton]
    omega
  full hline := by
    rw [line] at hline
    have hfull := h.full hline
    have hkept := room hline
    rw [Board.room] at hfull ⊢
    rw [waiting, List.length_append, List.length_singleton]
    omega
  nodup := line ▸ h.nodup.sublist (granted.append_left _)

theorem submit (h : b.Tallies) (job : J) (maxAttempts : Nat) :
    (b.submit job maxAttempts).2.Tallies := by
  unfold Board.submit
  split
  · exact h
  · next hroom =>
      have hroom' : b.room ≠ 0 := fun h => hroom (.inr h)
      refine h.accept rfl rfl (.refl _) rfl (fun hline => absurd (h.full hline) hroom') ?_
      rw [Board.room] at hroom'
      change b.waiting.length + b.granted.length < capacity
      omega

theorem standInLine (h : b.Tallies) {who : Standing} (full : b.room = 0)
    (new : who ∉ b.line ++ b.granted) : (b.standInLine who).Tallies where
  queued_eq := by
    have := h.queued_eq
    simp only [Board.standInLine, List.length_append, List.length_singleton]
    omega
  fits := h.fits
  full _ := full
  nodup := by
    have hperm : ((b.line ++ [who]) ++ b.granted).Perm (who :: (b.line ++ b.granted)) := by
      rw [List.append_assoc]
      exact List.perm_middle
    exact hperm.nodup_iff.mpr (List.nodup_cons.mpr ⟨new, h.nodup⟩)

theorem leaveLine (h : b.Tallies) {who : Standing} (there : who ∈ b.line) :
    (b.leaveLine who).Tallies where
  queued_eq := by
    have hline := length_filter_ne (List.nodup_append.mp h.nodup).1 there
    have := h.queued_eq
    simp only [Board.leaveLine]
    omega
  fits := h.fits
  full hline := h.full fun hnil => hline (by simp [Board.leaveLine, hnil])
  nodup := h.nodup.sublist (List.filter_sublist.append_right _)

theorem useRoom (h : b.Tallies) {who : Standing} (there : who ∈ b.granted) (job : J)
    (maxAttempts : Nat) : (b.useRoom who job maxAttempts).2.Tallies := by
  have hgranted := length_filter_ne (List.nodup_append.mp h.nodup).2.1 there
  have hfits := h.fits
  refine h.accept rfl rfl List.filter_sublist ?_ (fun _ => hgranted) ?_
  · change b.queued + _ = b.queued + 1 + (b.granted.filter (· ≠ who)).length
    omega
  · change b.waiting.length + (b.granted.filter (· ≠ who)).length < capacity
    omega

theorem redeem (h : b.Tallies) (isOpen : b.isClosed = false) {who : Standing}
    (there : who ∈ b.line ++ b.granted) (job : J) (maxAttempts : Nat) :
    (b.redeem who job maxAttempts).2.Tallies := by
  unfold Board.redeem
  rcases List.mem_append.mp there with hline | hgranted
  · have hne : who ∉ b.granted := fun hgranted =>
      (List.nodup_append.mp h.nodup).2.2 who hline who hgranted rfl
    rw [if_neg (by simp [hne])]
    exact h.leaveLine hline
  · rw [if_pos (by simp [isOpen, hgranted])]
    exact h.useRoom hgranted job maxAttempts

/-- A proper errand keeps the count of an open board. -/
theorem serve (h : b.Tallies) (isOpen : b.isClosed = false) {e : Errand J κ} (he : e.IsProper b) :
    (b.serve e).2.Tallies := by
  cases he with
  | submit job maxAttempts => exact h.submit job maxAttempts
  | standInLine isOpen full new => exact h.standInLine full new
  | redeem job maxAttempts there => exact h.redeem isOpen there job maxAttempts
  | leaveLine there => exact h.leaveLine there
  | requestCancel id =>
      simp only [Board.serve, Board.requestCancel]
      split
      · exact h
      · split
        · exact h
        · exact h.congr rfl rfl rfl rfl
  | share common => exact h.congr rfl rfl rfl rfl

/-- Room that becomes free goes to the first in line. -/
theorem pick (h : b.Tallies) : b.pick.Tallies := by
  have hqueued := h.queued_eq
  have hfits := h.fits
  unfold Board.pick
  split
  · exact h
  · next order waiting hwaiting =>
      rw [hwaiting, List.length_cons] at hqueued hfits
      unfold Board.grant
      split
      · next hline =>
          dsimp only at hline
          have hnodup := h.nodup
          rw [hline] at hqueued hnodup
          refine ⟨?_, by dsimp only; omega, fun h => absurd hline h, ?_⟩
          · rw [hline]
            dsimp only
            omega
          · rwa [hline]
      · next who line hline =>
          dsimp only at hline
          have hnodup := h.nodup
          have hfull := h.full (by simp [hline])
          rw [hline] at hqueued hnodup
          rw [Board.room, hwaiting, List.length_cons] at hfull
          rw [List.length_cons] at hqueued
          refine ⟨?_, ?_, fun _ => ?_, ?_⟩
          · simp only [List.length_append, List.length_singleton]
            omega
          · simp only [List.length_append, List.length_singleton]
            omega
          · simp only [Board.room, List.length_append, List.length_singleton]
            omega
          · rw [← List.append_assoc]
            exact List.perm_append_singleton .. |>.nodup_iff.mpr hnodup

end Board.Tallies

end ServiceRegistry.Jobs
