import ServiceRegistry.Script

/-! # Job boards

A board takes jobs for one runner. Up to twenty accepted jobs wait on it, in order; who offers more
may stand in line until there is room. Room that becomes free goes to the first in line, and is kept
for it until it is used. When the runner is gone the board is closed: what waits on it is abandoned
and nothing is accepted any more.

For every accepted job the board keeps a ticket, on which the one who offered it can ask for the job
to be skipped and can read how it ended. -/

namespace ServiceRegistry.Jobs

/-- The number of an accepted job. -/
abbrev JobId := Nat

/-- The number of someone in line. -/
abbrev Standing := Nat

/-- How many accepted jobs can wait. -/
def capacity : Nat := 20

/-- The state of a job; it is running until it ends. -/
inductive State where
  | running
  | done
  | cancelled
  | failed
deriving DecidableEq, Repr

/-- What is known of the end of a job. -/
inductive Reply (J : Type) where
  | awaited
  /-- The job ended, done or cancelled, and is handed back. -/
  | returned (job : J)
  | failed
  /-- The runner went before the job ended. -/
  | abandoned

/-- What the one who offered a job holds. -/
structure Ticket (J : Type) where
  state : State := .running
  cancelRequested : Bool := false
  reply : Reply J := .awaited

/-- An accepted job. -/
structure Order (J : Type) where
  id : JobId
  job : J
  /-- How often the job may be tried, at least once. -/
  attempts : Nat

/-- Why a job can not be handed back. -/
inductive Error where
  | failed
  | timeout
  | processorGone
deriving DecidableEq, Repr

/-- The wording of an error. -/
def Error.message : Error → String
  | .failed => "Job could not be completed"
  | .timeout => "Timed out waiting for job completion"
  | .processorGone => "Job processor stopped before the job completed"

/-- A board for jobs `J` that share a state `κ`. -/
structure Board (J κ : Type) where
  /-- The accepted jobs that were not picked up, the oldest first. -/
  waiting : List (Order J) := []
  /-- Those who stand in line for room, the first to come first. -/
  line : List Standing := []
  /-- Those for whom room is kept. -/
  granted : List Standing := []
  /-- The count of jobs waiting or standing in line. -/
  queued : Nat := 0
  tickets : List (Ticket J) := []
  isClosed : Bool := false
  common : κ

namespace Board

variable {J κ : Type} (b : Board J κ)

/-! ### Offering jobs -/

/-- How many more jobs can be accepted at once. -/
def room : Nat := capacity - (b.waiting.length + b.granted.length)

/-- Put a job on the board. -/
def accept (job : J) (maxAttempts : Nat) : JobId × Board J κ :=
  let id := b.tickets.length
  (id, { b with
    waiting := b.waiting ++ [⟨id, job, max 1 maxAttempts⟩]
    tickets := b.tickets ++ [{}] })

/-- Offer a job; it is accepted if there is room now. -/
def submit (job : J) (maxAttempts : Nat) : Option JobId × Board J κ :=
  if b.isClosed ∨ b.room = 0 then (none, b)
  else
    let (id, b) := { b with queued := b.queued + 1 }.accept job maxAttempts
    (some id, b)

/-- Come to stand in line. -/
def standInLine (who : Standing) : Board J κ :=
  { b with line := b.line ++ [who], queued := b.queued + 1 }

/-- Leave the line. Room that was kept stays kept. -/
def leaveLine (who : Standing) : Board J κ :=
  { b with line := b.line.filter (· ≠ who), queued := b.queued - 1 }

/-- Use the room that was kept. -/
def useRoom (who : Standing) (job : J) (maxAttempts : Nat) : JobId × Board J κ :=
  { b with granted := b.granted.filter (· ≠ who) }.accept job maxAttempts

/-- End the wait in line: room that was kept is used, unless the board was closed meanwhile. -/
def redeem (who : Standing) (job : J) (maxAttempts : Nat) : Option JobId × Board J κ :=
  if !b.isClosed && b.granted.contains who then
    let (id, b) := b.useRoom who job maxAttempts
    (some id, b)
  else (none, b.leaveLine who)

/-! ### The runner's side -/

/-- Free room goes to the first in line. -/
def grant : Board J κ :=
  match b.line with
  | [] => b
  | who :: line => { b with line, granted := b.granted ++ [who] }

/-- Take the oldest waiting job. -/
def pick : Board J κ :=
  match b.waiting with
  | [] => b
  | _ :: waiting => { b with waiting, queued := b.queued - 1 }.grant

/-- Change a ticket. -/
def updateTicket (id : JobId) (f : Ticket J → Ticket J) : Board J κ :=
  { b with tickets := b.tickets.modify id f }

/-- Was a job asked to be skipped? -/
def isCancelRequested (id : JobId) : Bool := (b.tickets[id]?.map (·.cancelRequested)).getD false

/-- Note the end of a job. -/
def complete (id : JobId) (state : State) (job : J) : Board J κ :=
  b.updateTicket id fun t =>
    { t with
      state
      reply := match state with
        | .done | .cancelled => .returned job
        | .failed | .running => .failed }

/-- A job will never end. -/
def abandon (id : JobId) : Board J κ :=
  b.updateTicket id fun t =>
    match t.reply with
    | .awaited => { t with reply := .abandoned }
    | _ => t

/-- The runner goes; `current` is the job it had picked up. -/
def close (current : Option JobId) : Board J κ :=
  let b := (b.waiting.map (·.id) ++ current.toList).foldl abandon b
  { b with waiting := [], isClosed := true }

/-! ### Tickets -/

/-- Ask for a job to be skipped; `false` if it was cancelled already. -/
def requestCancel (id : JobId) : Bool × Board J κ :=
  match b.tickets[id]? with
  | none => (false, b)
  | some t =>
    if t.state = .cancelled then (false, b)
    else (true, b.updateTicket id fun t => { t with cancelRequested := true })

/-- How a job ended, if it has. -/
def outcome? (id : JobId) : Option (Except Error J) :=
  match b.tickets[id]? with
  | none => some (.error .processorGone)
  | some t =>
    match t.reply with
    | .awaited => none
    | .returned job => some (.ok job)
    | .failed => some (.error .failed)
    | .abandoned => some (.error .processorGone)

end Board

end ServiceRegistry.Jobs
