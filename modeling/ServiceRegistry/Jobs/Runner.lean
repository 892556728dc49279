import ServiceRegistry.Jobs.Board
import ServiceRegistry.Worker

/-! # Running jobs

A runner takes jobs from a board, one at a time, and tries each until an attempt succeeds or its
attempts are used up. An attempt that fails leaves the job with the runner, to be tried again in a
later pass; an error of the store counts as a failed attempt and is passed on. A job whose skipping
was asked for is handed back before the next attempt. -/

namespace ServiceRegistry.Jobs

/-- A unit of work on a session; `true` says that the attempt succeeded. -/
class Job (J : Type) (κ : outParam Type) where
  attempt : J → SessionId → Script κ (J × Except StoreError Bool)

/-- The runner of a board. -/
structure Runner (J : Type) where
  current : Option (Order J) := none
  attemptsLeft : Nat := 0

namespace Runner

variable {J κ : Type}

/-- Ask for a pass while jobs are queued. -/
def request (r : Runner J) (b : Board J κ) (generation : Nat) : Runner J × Nat :=
  (r, if 0 < b.queued then generation + 1 else generation)

/-- After a failed attempt: is the job at its end? -/
def retry (r : Runner J) (order : Order J) : Script (Board J κ) (Runner J × Bool) :=
  let left := r.attemptsLeft - 1
  if 0 < left then pure (⟨some order, left⟩, false)
  else .change (·.complete order.id .failed order.job) (pure (⟨none, left⟩, true))

/-- One attempt at the current job, unless it is to be skipped. -/
def attempt [Job J κ] (r : Runner J) (order : Order J) (id : SessionId) :
    Script (Board J κ) (Runner J × Except StoreError Bool) :=
  .look fun b =>
    if b.isCancelRequested order.id then
      .change (·.complete order.id .cancelled order.job)
        (pure ({ r with current := none }, .ok true))
    else do
      let (job, result) ←
        (Job.attempt order.job id).zoom Board.common fun common b => { b with common }
      let order := { order with job }
      match result with
      | .ok true =>
        .change (·.complete order.id .done order.job)
          (pure ({ r with current := none }, .ok true))
      | .ok false =>
        let (r, ended) ← r.retry order
        return (r, .ok ended)
      | .error e =>
        let (r, _) ← r.retry order
        return (r, .error e)

/-- One pass: pick a job up if there is none, and try it. -/
def work [Job J κ] (r : Runner J) (id : SessionId) :
    Script (Board J κ) (Runner J × Except StoreError Bool) :=
  match r.current with
  | some order => r.attempt order id
  | none =>
    .look fun b =>
      match b.waiting with
      | [] => pure (r, .ok true)
      | order :: _ =>
        .change (·.pick) (attempt ⟨some order, order.attempts⟩ order id)

instance [Job J κ] : Task (Runner J) (Board J κ) where
  request r b _ generation := r.request b generation
  work r id _ := r.work id

end Runner

end ServiceRegistry.Jobs
