import ServiceRegistry.Worker

/-! # Workers in time

A host runs a worker by the clock. The first tick is at once, and the next ones follow at a fixed
interval. If a tick is more than a tolerance late, the interval is counted anew from then. A pass
may wait; meanwhile there are no ticks, and a wish to stop is heeded when the pass has ended. -/

namespace ServiceRegistry.Deployment

/-- The time in milliseconds, and how many waits were registered; of waits that end at one time the
first registered ends first. -/
structure Clock where
  now : Nat := 0
  registered : Nat := 0

/-- A time at which something is to go on. -/
structure Wake where
  time : Nat
  order : Nat

/-- Is the first wake before the second? -/
def Wake.before (a b : Wake) : Bool := a.time < b.time || (a.time = b.time && a.order < b.order)

/-- Register a wait until a time. -/
def Clock.wakeAt (c : Clock) (time : Nat) : Wake × Clock :=
  (⟨time, c.registered⟩, { c with registered := c.registered + 1 })

/-- How late a tick may be without shifting the ones after it. -/
def tolerance : Nat := 5

/-- What a host is at. -/
inductive Activity (τ σ : Type) where
  | starting
  | idle
  /-- A pass waits. -/
  | working (id : SessionId) (pass : Pass) (rest : Script σ (τ × Except StoreError Bool))
      (until' : Wake)
  | finished

/-- A worker that runs by the clock. -/
structure Host (τ σ : Type) where
  worker : Worker τ
  interval : Nat
  /-- The next tick. -/
  due : Wake := ⟨0, 0⟩
  activity : Activity τ σ := .starting
  /-- Where only node events reach the worker, by a relay: those that have passed it. -/
  relayed : Option (List Store.Event) := none
  isCancelled : Bool := false
  /-- Has it ever tried to open a session? -/
  hasTried : Bool := false

namespace Host

variable {τ σ : Type} (h : Host τ σ)

/-- When the host has to go on by itself. -/
def wake? : Option Wake :=
  match h.activity with
  | .idle => some h.due
  | .working _ _ _ w => some w
  | _ => none

/-- Has it ended? -/
def isFinished : Bool :=
  match h.activity with
  | .finished => true
  | _ => false

/-- Events of a session that has ended do not pass the relay any more. -/
def settleRelay : Host τ σ :=
  match h.worker.session with
  | some _ => h
  | none => { h with relayed := h.relayed.map fun _ => [] }

/-- Go on with a pass until it ends or waits. -/
def proceed (clock : Clock) (id : SessionId) (pass : Pass)
    (script : Script σ (τ × Except StoreError Bool)) (scene : Script.Scene σ) :
    Host τ σ × Script.Scene σ × Clock :=
  match script.run id clock.now scene with
  | (.finished (task, result), scene) =>
    let (worker, store) := h.worker.endPass scene.store pass task result
    ({ h with worker, activity := .idle }.settleRelay, { scene with store }, clock)
  | (.waiting ms rest, scene) =>
    let (wake, clock) := clock.wakeAt (clock.now + ms)
    ({ h with activity := .working id pass rest wake }, scene, clock)

/-- How a worker behind a relay takes its events. -/
def receiveRelayed (events : List Store.Event) (w : Worker τ) (s : Store) : Worker τ × Store :=
  w.heed s events

/-- One tick. -/
def tick [Task τ σ] (clock : Clock) (scene : Script.Scene σ) :
    Host τ σ × Script.Scene σ × Clock :=
  let late := h.due.time + tolerance < clock.now
  let (due, clock) := clock.wakeAt ((if late then clock.now else h.due.time) + h.interval)
  let connects := scene.store.counters.connects
  let (next, worker, store) :=
    match h.relayed with
    | none => h.worker.beginTick scene.store Worker.receive Worker.receive scene.shared
    | some events =>
      h.worker.beginTick scene.store (receiveRelayed events) (receiveRelayed []) scene.shared
  let h := { h with
    worker, due, activity := .idle
    relayed := h.relayed.map fun _ => []
    hasTried := h.hasTried || store.counters.connects ≠ connects }
  let scene := { scene with store }
  match next with
  | none => (h.settleRelay, scene, clock)
  | some (id, pass) => h.proceed clock id pass (Task.work worker.task id pass) scene

/-- The end: the session is closed, and the task leaves the shared state. -/
def finish (leave : τ → σ → σ) (scene : Script.Scene σ) : Host τ σ × Script.Scene σ :=
  let (worker, store) := h.worker.close scene.store
  ({ h with worker, activity := .finished }.settleRelay,
    { scene with store, shared := leave worker.task scene.shared })

/-- Heed a wish to stop, or make the ticks that are due, at most `n`. -/
def catchUp [Task τ σ] (leave : τ → σ → σ) :
    (n : Nat) → Host τ σ → Clock → Script.Scene σ → Host τ σ × Script.Scene σ × Clock
  | 0, h, clock, scene => (h, scene, clock)
  | n + 1, h, clock, scene =>
    match h.activity with
    | .idle =>
      if h.isCancelled then
        let (h, scene) := h.finish leave scene
        (h, scene, clock)
      else if h.due.time ≤ clock.now then
        let (h, scene, clock) := h.tick clock scene
        catchUp leave n h clock scene
      else (h, scene, clock)
    | _ => (h, scene, clock)

/-- Go on at the present time. Every tick moves the next one by at least a millisecond, which bounds
how many can be due. -/
def poll [Task τ σ] (leave : τ → σ → σ) (clock : Clock) (scene : Script.Scene σ) :
    Host τ σ × Script.Scene σ × Clock :=
  let catchUp (h : Host τ σ) (clock : Clock) (scene : Script.Scene σ) :=
    catchUp leave (clock.now - h.due.time + 2) h clock scene
  match h.activity with
  | .starting => catchUp { h with activity := .idle, due := ⟨clock.now, 0⟩ } clock scene
  | .idle => catchUp h clock scene
  | .working id pass rest wake =>
    if wake.time ≤ clock.now then
      let (h, scene, clock) := h.proceed clock id pass rest scene
      let (due, clock) := clock.wakeAt h.due.time
      catchUp { h with due } clock scene
    else (h, scene, clock)
  | .finished => (h, scene, clock)

/-! ### From outside -/

/-- A host that has not made a tick yet. -/
def make (task : τ) (interval : Nat) (relays : Bool) : Host τ σ where
  worker := { task }
  interval := max 1 interval
  relayed := if relays then some [] else none

/-- Wish for an end. -/
def cancel : Host τ σ := { h with isCancelled := true }

/-- Do events of the session wait for the relay? -/
def hasMail (s : Store) : Bool :=
  match h.relayed, h.worker.session with
  | some _, some id => !(s.inbox id).isEmpty
  | _, _ => false

/-- The relay passes on what is about nodes and drops the rest. -/
def relay (s : Store) : Host τ σ × Store :=
  match h.worker.session with
  | none => (h, s)
  | some id =>
    let passed := (s.inbox id).filter (·.change ≠ .none)
    ({ h with relayed := h.relayed.map (· ++ passed) }, s.clearInbox id)

/-- Tell the worker of an event past the store and the relay. The answer is whether it still
listens, if it ever did. -/
def tell (e : Store.Event) (s : Store) : Option Bool × Host τ σ × Store :=
  match h.worker.session with
  | none => (if h.hasTried then some false else none, h, s)
  | some id =>
    match h.relayed with
    | none => (some true, h, s.post id e)
    | some events => (some true, { h with relayed := some (events ++ [e]) }, s)

end Host

end ServiceRegistry.Deployment
