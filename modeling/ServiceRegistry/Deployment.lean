import ServiceRegistry.Client
import ServiceRegistry.Deployment.Host
import ServiceRegistry.Deployment.Journal
import ServiceRegistry.Deployment.Turns
import ServiceRegistry.Rehearsal

/-! # Deployments

A deployment is a number of parties over one store: clients, job processors and rehearsed workers,
each with a host that runs its worker; readers, announcers and catalogues kept by hand; loggers; and
waiters, who wait for something on behalf of someone else.

Time stands still while anybody can go on, and then jumps to the next moment at which somebody has
to (`Deployment.advance`). Those who can go on do so one at a time, in the order in which they
became able to. -/

namespace ServiceRegistry

namespace Deployment

/-! ### Parties -/

/-- The worker of a client. -/
abbrev ClientHost := Host (Survey Client.Member) Client.Shared

/-- A client and the host of its worker, once it was started. -/
structure ClientSite where
  client : Client
  /-- Do only node events reach its worker, by a relay? -/
  relays : Bool
  host : Option ClientHost := none
  /-- The turns at starting and stopping it. -/
  turns : Turns := {}

/-- A rehearsed worker. -/
structure Drill where
  host : Host Rehearsal.Work (List Rehearsal.Entry)
  log : List Rehearsal.Entry := []

/-- The board of the jobs that are rehearsed. -/
abbrev JobBoard := Jobs.Board Rehearsal.Job (List Rehearsal.AttemptEntry)

/-- A job board with its runner. -/
structure Processor where
  board : JobBoard := { common := [] }
  host : Host (Jobs.Runner Rehearsal.Job) JobBoard
  isStarted : Bool := false
  /-- Has its owner let go of it? -/
  isDropped : Bool := false

/-- A follower that is told when to visit. -/
structure Reader where
  follower : Follower
  catalog : Catalog := {}

/-- A roster with a publisher that is told when to visit. -/
structure Announcer where
  publisher : Publisher
  roster : Roster := {}
  /-- The counter that the publisher raises to ask for a pass. -/
  generation : Nat := 1

/-- What a logger is at. -/
inductive Logger.Stage where
  | starting
  | idle
  | finished
deriving DecidableEq

/-- A logger looks at the services of a client at a fixed interval. -/
structure Logger where
  client : Nat
  interval : Nat
  /-- The summary at the last look; empty before the first one. -/
  last : String := ""
  due : Wake := ⟨0, 0⟩
  stage : Logger.Stage := .starting
  isCancelled : Bool := false

/-! ### Waiters -/

/-- Where a catalogue is kept. -/
inductive CatalogRef where
  | standing (index : Nat)
  | reader (index : Nat)
  | client (index : Nat)
deriving DecidableEq, Repr

/-- What one can wait for. -/
inductive Wish where
  /-- A first edition of a catalogue. -/
  | edition (catalog : CatalogRef) (limit : Nat)
  /-- The start of a client. -/
  | start (client : Nat)
  /-- A place on a job board; without a limit, one that is free now. -/
  | submit (processor : Nat) (job : Rehearsal.Job) (maxAttempts : Nat) (limit : Option Nat)

/-- What a wish came to. -/
structure Answer where
  granted : Bool
  /-- The number of a job that was accepted. -/
  job : Option Jobs.JobId := none
deriving DecidableEq, Repr

/-- How a wish is received: it is answered at once, or it is to be waited for so long. -/
abbrev Reception := Answer ⊕ Nat

/-- What a waiter is at. -/
inductive Waiter.Stage where
  | called
  /-- Others have their turn before. -/
  | inLine (since : Nat)
  | waiting (since : Nat) (until' : Wake)
  | served (waited : Nat) (answer : Answer)

/-- Someone who waits on behalf of someone else. -/
structure Waiter where
  wish : Wish
  stage : Waiter.Stage := .called

/-- The answer of a waiter who was served, and how long it took. -/
def Waiter.answer? (w : Waiter) : Option (Nat × Answer) :=
  match w.stage with
  | .served waited answer => some (waited, answer)
  | _ => none

/-! ### Actors -/

/-- A party with a worker. -/
inductive Party where
  | client (index : Nat)
  | drill (index : Nat)
  | processor (index : Nat)
deriving DecidableEq, Repr

/-- Whoever goes on by itself. -/
inductive Actor where
  | worker (party : Party)
  | relay (party : Party)
  | logger (index : Nat)
  | waiter (index : Nat)
deriving DecidableEq, Repr

end Deployment

/-- Parties over one store. -/
structure Deployment where
  clock : Deployment.Clock := {}
  store : Store := {}
  ids : IdSource := {}
  clients : List Deployment.ClientSite := []
  drills : List Deployment.Drill := []
  processors : List Deployment.Processor := []
  readers : List Deployment.Reader := []
  announcers : List Deployment.Announcer := []
  /-- Catalogues kept by hand. -/
  catalogs : List Catalog := []
  loggers : List Deployment.Logger := []
  /-- What the loggers wrote. -/
  journal : Journal := {}
  /-- What was logged of the attempts at jobs. -/
  attempts : List Rehearsal.AttemptEntry := []
  waiters : List Deployment.Waiter := []
  /-- Those who can go on now, in the order in which they became able to. -/
  ready : List Deployment.Actor := []

namespace Deployment

variable (d : Deployment)

/-- The present time. -/
def now : Nat := d.clock.now

/-- The catalogue that is kept at a place. -/
def catalog : CatalogRef → Catalog
  | .standing i => d.catalogs[i]?.getD {}
  | .reader i => (d.readers[i]?.map (·.catalog)).getD {}
  | .client i => (d.clients[i]?.map (·.client.catalog)).getD {}

/-- Replace the catalogue that is kept at a place. -/
def setCatalog (catalog : Catalog) : CatalogRef → Deployment
  | .standing i => { d with catalogs := d.catalogs.modify i fun _ => catalog }
  | .reader i => { d with readers := d.readers.modify i ({ · with catalog }) }
  | .client i =>
    { d with
      clients := d.clients.modify i fun site =>
        { site with client.shared.catalog := catalog } }

/-- Let an actor go on when it is its turn. -/
def enqueue (a : Actor) : Deployment :=
  if a ∈ d.ready then d else { d with ready := d.ready ++ [a] }

/-! ### Wishes -/

/-- Start a client unless it is disabled or running; was it started? -/
def launch (i : Nat) : Bool × Deployment :=
  match d.clients[i]? with
  | none => (false, d)
  | some site =>
    let isRunning := (site.host.map fun h => !h.isFinished).getD false
    if !site.client.settings.enabled || isRunning then (false, d)
    else
      let host : ClientHost :=
        { Host.make site.client.survey site.client.settings.tick site.relays with
          hasTried := (site.host.map (·.hasTried)).getD false }
      (true, { d with clients := d.clients.set i { site with host := some host } }.enqueue
        (.worker (.client i)))

/-- Change the board of a processor. -/
def onBoard {α : Type} (i : Nat) (otherwise : α) (f : JobBoard → α × JobBoard) : α × Deployment :=
  match d.processors[i]? with
  | none => (otherwise, d)
  | some p =>
    let (a, board) := f p.board
    (a, { d with processors := d.processors.set i { p with board } })

/-- Change who has the turn at a client. -/
def onTurns (i : Nat) (f : Turns → Turns) : Deployment :=
  { d with clients := d.clients.modify i fun site => { site with turns := f site.turns } }

/-- Is it someone's turn at a client? -/
def hasTurn (who : Jobs.Standing) (i : Nat) : Bool :=
  (d.clients[i]?.map (·.turns.isHeldBy who)).getD true

/-- May a wish be received, or is it the turn of others? -/
def isAdmitted (who : Jobs.Standing) : Wish → Bool
  | .start i =>
    d.hasTurn who i || !((d.clients[i]?.map (·.client.settings.enabled)).getD false)
  | _ => true

/-- Come with a wish: to start a client takes a turn, unless the client is disabled. -/
def come (who : Jobs.Standing) : Wish → Deployment
  | .start i => if d.isAdmitted who (.start i) then d else d.onTurns i (·.come who)
  | _ => d

/-- Receive a wish that is admitted. The turn at a client is over when it is started. -/
def receive (who : Jobs.Standing) : Wish → Reception × Deployment
  | .edition catalog limit =>
    (if (d.catalog catalog).isOpen then .inl ⟨true, none⟩ else .inr limit, d)
  | .start i =>
    let (started, d) := d.launch i
    let d := if d.hasTurn who i then d.onTurns i Turns.pass else d
    if !started || (d.catalog (.client i)).isOpen then (.inl ⟨true, none⟩, d)
    else (.inr ((d.clients[i]?.map (·.client.settings.startupWait)).getD 0), d)
  | .submit i job maxAttempts limit =>
    d.onBoard i (.inl ⟨false, none⟩) fun board =>
      match board.submit job maxAttempts, limit with
      | (some id, board), _ => (.inl ⟨true, some id⟩, board)
      | (none, board), none => (.inl ⟨false, none⟩, board)
      | (none, board), some limit =>
        if board.isClosed then (.inl ⟨false, none⟩, board)
        else (.inr limit, board.standInLine who)

/-- Need a wish be waited for no more? -/
def isDecided (who : Jobs.Standing) : Wish → Bool
  | .edition catalog _ => (d.catalog catalog).isOpen
  | .start i => (d.catalog (.client i)).isOpen
  | .submit i _ _ _ =>
    (d.processors[i]?.map fun p => p.board.isClosed || p.board.granted.contains who).getD true

/-- End the wait for a wish. -/
def conclude (who : Jobs.Standing) : Wish → Answer × Deployment
  | .edition catalog _ => (⟨(d.catalog catalog).isOpen, none⟩, d)
  | .start _ => (⟨true, none⟩, d)
  | .submit i job maxAttempts _ =>
    d.onBoard i ⟨false, none⟩ fun board =>
      let (id, board) := board.redeem who job maxAttempts
      (⟨id.isSome, id⟩, board)

/-- Where a waiter stands in lines. -/
def standing (waiter : Nat) : Jobs.Standing := waiter + 1

/-! ### Going on -/

/-- What a party's worker sees. -/
def scene {σ : Type} (shared : σ) : Script.Scene σ := { store := d.store, shared, ids := d.ids }

/-- Take over what a worker did. -/
def adopt {σ : Type} (scene : Script.Scene σ) (clock : Clock) : Deployment :=
  { d with store := scene.store, ids := scene.ids, clock }

/-- A worker goes on. -/
def pollWorker : Party → Deployment
  | .client i =>
    match d.clients[i]? with
    | some site =>
      match site.host with
      | some host =>
        let (host, scene, clock) := host.poll (fun _ s => s) d.clock (d.scene site.client.shared)
        let client := { site.client with shared := scene.shared }
        { d.adopt scene clock with
          clients := d.clients.set i { site with client, host := some host } }
      | none => d
    | none => d
  | .drill i =>
    match d.drills[i]? with
    | some drill =>
      let (host, scene, clock) := drill.host.poll (fun _ s => s) d.clock (d.scene drill.log)
      { d.adopt scene clock with drills := d.drills.set i { drill with host, log := scene.shared } }
    | none => d
  | .processor i =>
    match d.processors[i]? with
    | some p =>
      let leave (runner : Jobs.Runner Rehearsal.Job) (board : JobBoard) : JobBoard :=
        board.close (runner.current.map (·.id))
      let (host, scene, clock) := p.host.poll leave d.clock (d.scene p.board)
      let board := scene.shared
      { d.adopt scene clock with
        attempts := d.attempts ++ board.common
        processors := d.processors.set i { p with host, board := { board with common := [] } } }
    | none => d

/-- A relay passes events on. -/
def pollRelay : Party → Deployment
  | .client i =>
    match d.clients[i]? with
    | some site =>
      match site.host with
      | some host =>
        let (host, store) := host.relay d.store
        { d with store, clients := d.clients.set i { site with host := some host } }
      | none => d
    | none => d
  | .drill i =>
    match d.drills[i]? with
    | some drill =>
      let (host, store) := drill.host.relay d.store
      { d with store, drills := d.drills.set i { drill with host } }
    | none => d
  | .processor i =>
    match d.processors[i]? with
    | some p =>
      let (host, store) := p.host.relay d.store
      { d with store, processors := d.processors.set i { p with host } }
    | none => d

/-- A logger goes on: it ends if that is wished, else it looks if it is time. -/
def pollLogger (i : Nat) : Deployment :=
  match d.loggers[i]? with
  | none => d
  | some l =>
    if l.stage = .finished then d
    else if l.isCancelled then
      { d with
        loggers := d.loggers.set i { l with stage := .finished }
        journal := d.journal.write .closed }
    else if l.stage = .starting ∨ l.due.time ≤ d.now then
      let (due, clock) := d.clock.wakeAt (d.now + l.interval)
      let summary := summarize (d.catalog (.client l.client)).listing
      { d with
        clock
        loggers := d.loggers.set i { l with last := summary, due, stage := .idle }
        journal := d.journal.write (.ofLook l.last summary) }
    else d

/-- Does someone still wait with a job for a processor? -/
def isAwaited (processor : Nat) : Bool :=
  d.waiters.any fun w =>
    match w.wish, w.answer? with
    | .submit i _ _ _, none => i = processor
    | _, _ => false

/-- A processor that was not started and that its owner and all who waited for it have let go of
never will be: its board is closed. -/
def retire (i : Nat) : Deployment :=
  let isAwaited := d.isAwaited i
  { d with
    processors := d.processors.modify i fun p =>
      if p.isDropped && !p.isStarted && !isAwaited then { p with board := p.board.close none }
      else p }

/-- Serve a waiter. -/
def serve (i : Nat) (w : Waiter) (since : Nat) (answer : Answer) : Deployment :=
  let d := { d with
    waiters := d.waiters.set i { w with stage := .served (d.now - since) answer } }
  match w.wish with
  | .submit processor _ _ _ => d.retire processor
  | _ => d

/-- Receive a waiter's wish, or leave the waiter in line. -/
def receiveWaiter (i : Nat) (w : Waiter) (since : Nat) : Deployment :=
  if d.isAdmitted (standing i) w.wish then
    match d.receive (standing i) w.wish with
    | (.inl answer, d) => d.serve i w since answer
    | (.inr limit, d) =>
      if limit = 0 then
        let (answer, d) := d.conclude (standing i) w.wish
        d.serve i w since answer
      else
        let (until', clock) := d.clock.wakeAt (d.now + limit)
        { d with clock, waiters := d.waiters.set i { w with stage := .waiting since until' } }
  else { d with waiters := d.waiters.set i { w with stage := .inLine since } }

/-- A waiter goes on. -/
def pollWaiter (i : Nat) : Deployment :=
  match d.waiters[i]? with
  | none => d
  | some w =>
    match w.stage with
    | .served _ _ => d
    | .called => (d.come (standing i) w.wish).receiveWaiter i w d.now
    | .inLine since => d.receiveWaiter i w since
    | .waiting since until' =>
      if d.isDecided (standing i) w.wish || until'.time ≤ d.now then
        let (answer, d) := d.conclude (standing i) w.wish
        d.serve i w since answer
      else d

/-- An actor goes on. -/
def poll : Actor → Deployment
  | .worker party => d.pollWorker party
  | .relay party => d.pollRelay party
  | .logger i => d.pollLogger i
  | .waiter i => d.pollWaiter i

/-! ### Who can go on -/

/-- The parties whose relays have something to pass on. -/
def relaysWithMail : List Party :=
  (d.clients.zipIdx.filterMap fun (site, i) =>
    if (site.host.map (·.hasMail d.store)).getD false then some (.client i) else none) ++
  (d.drills.zipIdx.filterMap fun (drill, i) =>
    if drill.host.hasMail d.store then some (.drill i) else none) ++
  d.processors.zipIdx.filterMap fun (p, i) =>
    if p.host.hasMail d.store then some (.processor i) else none

/-- The waiters whose wishes were admitted or decided while they waited. -/
def luckyWaiters : List Nat :=
  d.waiters.zipIdx.filterMap fun (w, i) =>
    match w.stage with
    | .inLine _ => if d.isAdmitted (standing i) w.wish then some i else none
    | .waiting _ _ => if d.isDecided (standing i) w.wish then some i else none
    | _ => none

/-- Wake those who became able to go on because of what others did. -/
def wakeUp : Deployment :=
  (d.relaysWithMail.map Actor.relay ++ d.luckyWaiters.map Actor.waiter).foldl enqueue d

/-- When somebody has to go on because of the time. -/
def timers : List (Wake × Actor) :=
  (d.clients.zipIdx.filterMap fun (site, i) =>
    (site.host.bind (·.wake?)).map (·, .worker (.client i))) ++
  (d.drills.zipIdx.filterMap fun (drill, i) => drill.host.wake?.map (·, .worker (.drill i))) ++
  (d.processors.zipIdx.filterMap fun (p, i) => p.host.wake?.map (·, .worker (.processor i))) ++
  (d.loggers.zipIdx.filterMap fun (l, i) =>
    if l.stage = .idle then some (l.due, .logger i) else none) ++
  d.waiters.zipIdx.filterMap fun (w, i) =>
    match w.stage with
    | .waiting _ until' => some (until', .waiter i)
    | _ => none

/-! ### Time -/

/-- Let those who can go on do so, at most `n` times. -/
def settleSteps : (n : Nat) → Deployment → Deployment
  | 0, d => d
  | n + 1, d =>
    let d := d.wakeUp
    match d.ready with
    | [] => d
    | a :: ready => settleSteps n ({ d with ready }.poll a)

/-- Let those who can go on do so until nobody can. A worker goes on at most once for every time it
was made able to by the clock or by a waiter, and wakes each relay once and each waiter at most
twice: once to be admitted, once to be served. -/
def settle : Deployment :=
  let others := d.clients.length + d.drills.length + d.processors.length + 2 * d.waiters.length
  d.settleSteps ((d.ready.length + 2 * d.waiters.length + 1) * (others + 2))

/-- The next moment at which somebody has to go on, but no later than the deadline. -/
def nextMoment (deadline : Nat) : Nat :=
  d.timers.foldl (fun t (wake, _) => min t wake.time) deadline

/-- Let time jump, and wake those who then have to go on. -/
def jump (deadline : Nat) : Deployment :=
  let now := max d.now (d.nextMoment deadline)
  let due := (d.timers.filter (·.1.time ≤ now)).mergeSort fun a b => !b.1.before a.1
  (due.map (·.2)).foldl enqueue { d with clock := { d.clock with now } }

/-- Let time pass until the goal is reached or the deadline is, making at most `n` jumps. -/
def advanceSteps (goal : Deployment → Bool) (deadline : Nat) : (n : Nat) → Deployment → Deployment
  | 0, d => d
  | n + 1, d =>
    if goal d || deadline ≤ d.now then d
    else
      let d := d.settle
      if goal d then d else advanceSteps goal deadline n (d.jump deadline)

/-- Let time pass until the goal is reached, but at most for a number of milliseconds. Each jump
takes at least one of them. -/
def advance (goal : Deployment → Bool) (limit : Nat) : Deployment :=
  d.advanceSteps goal (d.now + limit) (limit + 1)

/-- Let time pass. -/
def sleep (ms : Nat) : Deployment := d.advance (fun _ => false) ms

/-- How long the end of something is waited for, in milliseconds. -/
def patience : Nat := 7200000

/-- Wait for a wish. -/
def fulfil (wish : Wish) : Answer × Deployment :=
  match ((d.come 0 wish).advance (·.isAdmitted 0 wish) patience).receive 0 wish with
  | (.inl answer, d) => (answer, d)
  | (.inr limit, d) => (d.advance (·.isDecided 0 wish) limit).conclude 0 wish

end Deployment

end ServiceRegistry
