import ServiceRegistry.Deployment

/-! # Operating a deployment

What someone who runs a deployment can do with its parties: add them, start and stop them, offer
jobs and wait for them. Each operation lets time pass only as long as it has to wait. -/

namespace ServiceRegistry.Deployment

variable (d : Deployment)

/-- Add to a list; the result has the index too. -/
def added {α : Type} (xs : List α) (x : α) : Nat × List α := (xs.length, xs ++ [x])

/-- Change the store. -/
def onStore {α : Type} (f : Store → α × Store) : α × Deployment :=
  let (a, store) := f d.store
  (a, { d with store })

/-- Draw a fresh identity. -/
def drawId : InstanceId × Deployment :=
  let (id, ids) := d.ids.draw
  (id, { d with ids })

/-! ### Scripts run by hand -/

/-- Run a script on a session to its end. -/
def play {σ α : Type} (id : SessionId) (get : Deployment → σ) (set : σ → Deployment → Deployment)
    (script : Script σ α) : α × Deployment :=
  script.execute
    { serve := fun d r => d.onStore fun s => s.serve id r
      shared := get
      setShared := set
      now := now
      draw := drawId
      pause := fun ms d => d.sleep ms }
    d

/-- Read a payload, however long it takes. -/
def readData (id : SessionId) (path : String) : Except StoreError Bytes × Deployment :=
  d.play id (fun _ => ()) (fun _ d => d) (Script.readData path)

/-- Try to build a path. -/
def buildPath (id : SessionId) (path : String) : Except StoreError Bool × Deployment :=
  d.play id (fun _ => ()) (fun _ d => d) (Jobs.PathBuild.build (Jobs.PathBuild.mk path).steps)

/-! ### Catalogues and readers -/

/-- Add a catalogue. -/
def addCatalog (isOpen : Bool) : CatalogRef × Deployment :=
  let (i, catalogs) := added d.catalogs { isOpen }
  (.standing i, { d with catalogs })

/-- Add a reader. -/
def addReader (root : String) (timeLimit penalty : Nat) : Nat × Deployment :=
  let (i, readers) := added d.readers { follower := { root, timeLimit, penalty } }
  (i, { d with readers })

/-- Let a reader visit. -/
def visit (i : Nat) (id : SessionId) (children : List String) :
    Except StoreError Unit × Deployment :=
  match d.readers[i]? with
  | none => (.ok (), d)
  | some reader =>
    let ((follower, result), d) :=
      d.play id (·.catalog (.reader i)) (fun c d => d.setCatalog c (.reader i))
        (reader.follower.visit children)
    (result, { d with readers := d.readers.modify i ({ · with follower }) })

/-- Is a path in a reader's quarantine? -/
def isQuarantined (i : Nat) (path : String) : Bool :=
  (d.readers[i]?.map (·.follower.isQuarantined d.now path)).getD false

/-! ### Announcers -/

/-- Add an announcer. -/
def addAnnouncer (root : String) : Nat × Deployment :=
  let (i, announcers) := added d.announcers { publisher := { root } }
  (i, { d with announcers })

/-- Change the roster of an announcer. -/
def changeRoster (i : Nat) (f : Roster → Roster) : Deployment :=
  { d with announcers := d.announcers.modify i fun a => { a with roster := f a.roster } }

/-- Let an announcer's publisher ask for a pass if the roster changed; the result is the generation.
-/
def requestPass (i : Nat) : Nat × Deployment :=
  match d.announcers[i]? with
  | none => (0, d)
  | some a =>
    let (publisher, generation) := a.publisher.request a.roster a.generation
    (generation, { d with announcers := d.announcers.set i { a with publisher, generation } })

/-- Let an announcer's publisher visit. -/
def publish (i : Nat) (id : SessionId) (children : List String) (generation : Nat) :
    Except StoreError Unit × Deployment :=
  match d.announcers[i]? with
  | none => (.ok (), d)
  | some a =>
    let ((publisher, result), d) :=
      d.play id (fun d => (d.announcers[i]?.map (·.roster)).getD a.roster)
        (fun roster d => d.changeRoster i fun _ => roster) (a.publisher.visit children generation)
    (result, { d with announcers := d.announcers.modify i ({ · with publisher }) })

/-! ### Rehearsed workers -/

/-- Add a rehearsed worker. -/
def addDrill (work : Rehearsal.Work) (interval : Nat) (relays : Bool) : Nat × Deployment :=
  let (i, drills) := added d.drills { host := .make work interval relays }
  (i, { d with drills })

/-- Start a rehearsed worker. -/
def startDrill (i : Nat) : Deployment := d.enqueue (.worker (.drill i))

/-- Ask a rehearsed worker for a pass. -/
def triggerDrill (i : Nat) : Deployment :=
  { d with
    drills := d.drills.modify i fun drill =>
      { drill with host.worker := drill.host.worker.trigger } }

/-- End a rehearsed worker, and wait for its end. -/
def stopDrill (i : Nat) : Deployment :=
  let drills := d.drills.modify i fun drill => { drill with host := drill.host.cancel }
  let isOver (d : Deployment) : Bool := (d.drills[i]?.map (·.host.isFinished)).getD true
  ({ d with drills }.enqueue (.worker (.drill i))).advance isOver patience

/-! ### Clients and loggers -/

/-- Add a client. -/
def addClient (settings : Settings) (isWritable relays : Bool) : Nat × Deployment :=
  let (i, clients) := added d.clients { client := .make settings isWritable, relays }
  (i, { d with clients })

/-- Has a client's worker ended, if it ever had one? -/
def isStopped (i : Nat) : Bool :=
  ((d.clients[i]?.bind (·.host)).map (·.isFinished)).getD true

/-- End the worker of a client, and wait for its end. The turn lasts until then, so that who comes
to start the client meanwhile starts it anew. -/
def stopClient (i : Nat) : Deployment :=
  let d := (d.onTurns i (·.come 0)).advance (·.hasTurn 0 i) patience
  let d :=
    if d.isStopped i then d
    else
      let clients := d.clients.modify i fun site => { site with host := site.host.map (·.cancel) }
      ({ d with clients }.enqueue (.worker (.client i))).advance (·.isStopped i) patience
  d.onTurns i Turns.pass

/-- Change what a client announces. -/
def announcing (i : Nat) (f : Client → Except Client.ReadOnly Client) :
    Except Client.ReadOnly Unit × Deployment :=
  match d.clients[i]? with
  | none => (.error .readOnly, d)
  | some site =>
    match f site.client with
    | .ok client => (.ok (), { d with clients := d.clients.set i { site with client } })
    | .error e => (.error e, d)

/-- Start a logger of a client's services. -/
def startLogger (client interval : Nat) : Nat × Deployment :=
  let (i, loggers) := added d.loggers { client, interval := max 1 interval }
  (i, { d with loggers }.enqueue (.logger i))

/-- End a logger, and wait for its end. -/
def stopLogger (i : Nat) : Deployment :=
  let loggers := d.loggers.modify i fun l => { l with isCancelled := true }
  let isOver (d : Deployment) : Bool :=
    (d.loggers[i]?.map fun l => decide (l.stage = .finished)).getD true
  ({ d with loggers }.enqueue (.logger i)).advance isOver patience

/-! ### Waiters -/

/-- Send someone to wait. -/
def send (wish : Wish) : Nat × Deployment :=
  let (i, waiters) := added d.waiters { wish }
  (i, { d with waiters }.enqueue (.waiter i))

/-- Wait for a waiter. -/
def join (i : Nat) : Option (Nat × Answer) × Deployment :=
  let answer? (d : Deployment) := d.waiters[i]?.bind (·.answer?)
  let d := d.advance (fun d => (answer? d).isSome) patience
  (answer? d, d)

/-! ### Jobs -/

/-- Add a job processor. -/
def addProcessor (settings : Settings) (relays : Bool) : Nat × Deployment :=
  let (i, processors) := added d.processors { host := .make {} settings.tick relays }
  (i, { d with processors })

/-- Start a job processor; this has an effect only once. -/
def startProcessor (i : Nat) : Deployment :=
  match d.processors[i]? with
  | none => d
  | some p =>
    if p.isStarted then d
    else
      { d with processors := d.processors.set i { p with isStarted := true } }.enqueue
        (.worker (.processor i))

/-- End a job processor that was started, and wait for its end. -/
def stopProcessor (i : Nat) : Deployment :=
  let isOver (d : Deployment) : Bool :=
    (d.processors[i]?.map fun p => !p.isStarted || p.host.isFinished).getD true
  if isOver d then d
  else
    let processors := d.processors.modify i fun p => { p with host := p.host.cancel }
    ({ d with processors }.enqueue (.worker (.processor i))).advance isOver patience

/-- Let go of a job processor. -/
def dropProcessor (i : Nat) : Deployment :=
  { d with processors := d.processors.modify i ({ · with isDropped := true }) }.retire i

/-- Ask for a job to be skipped. -/
def cancelJob (processor : Nat) (job : Jobs.JobId) : Bool × Deployment :=
  d.onBoard processor false (·.requestCancel job)

/-- The ticket of a job. -/
def ticket? (processor : Nat) (job : Jobs.JobId) : Option (Jobs.Ticket Rehearsal.Job) :=
  d.processors[processor]?.bind (·.board.tickets[job]?)

/-- How a job ended, if it has. -/
def outcome? (processor : Nat) (job : Jobs.JobId) :
    Option (Except Jobs.Error Rehearsal.Job) :=
  match d.processors[processor]? with
  | some p => p.board.outcome? job
  | none => some (.error .processorGone)

/-- Wait for the end of a job, but at most for a number of milliseconds. -/
def awaitJob (processor : Nat) (job : Jobs.JobId) (limit : Nat) :
    Except Jobs.Error Rehearsal.Job × Deployment :=
  let d := d.advance (fun d => (d.outcome? processor job).isSome) limit
  ((d.outcome? processor job).getD (.error .timeout), d)

/-- Why the root of a directory was not built. -/
inductive RootError where
  | queueFull
  | jobFailed (root : String) (cause : Jobs.Error)
deriving DecidableEq, Repr

/-- The wording of an error, the outermost cause first. -/
def RootError.causes : RootError → List String
  | queueFull => ["Job queue is full"]
  | jobFailed root cause => ["Failed to build discovery root " ++ root, cause.message]

/-- How long a step of building a root may take, in milliseconds. -/
def rootLimit : Nat := 30000

/-- Have a job processor build the root of a directory. -/
def buildRoot (processor : Nat) (root : String) (maxAttempts : Nat) :
    Except RootError Unit × Deployment :=
  match d.fulfil (.submit processor (.build ⟨root⟩) maxAttempts (some rootLimit)) with
  | (⟨_, none⟩, d) => (.error .queueFull, d)
  | (⟨_, some job⟩, d) =>
    match d.awaitJob processor job rootLimit with
    | (.ok _, d) => (.ok (), d)
    | (.error e, d) => (.error (.jobFailed root e), d)

/-! ### Events from outside -/

/-- Tell a party's worker of an event past the store. The answer is whether it still listens, if it
ever did. -/
def tell (party : Party) (e : Store.Event) : Option Bool × Deployment :=
  match party with
  | .client i =>
    match d.clients[i]? with
    | some site =>
      match site.host with
      | some host =>
        let (heard, host, store) := host.tell e d.store
        (heard, { d with store, clients := d.clients.set i { site with host := some host } })
      | none => (none, d)
    | none => (none, d)
  | .drill i =>
    match d.drills[i]? with
    | some drill =>
      let (heard, host, store) := drill.host.tell e d.store
      (heard, { d with store, drills := d.drills.set i { drill with host } })
    | none => (none, d)
  | .processor i =>
    match d.processors[i]? with
    | some p =>
      let (heard, host, store) := p.host.tell e d.store
      (heard, { d with store, processors := d.processors.set i { p with host } })
    | none => (none, d)

end ServiceRegistry.Deployment
