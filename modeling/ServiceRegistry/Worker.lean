import ServiceRegistry.Script

/-! # Workers

A worker owns at most one session of the store and drives a task. At every tick it takes the events
of its session, opens a session if it has none, and asks the task for the generation that should be
processed. Only a generation above the last processed one makes it run a pass. A pass that fails or
is not complete leaves its generation unprocessed, so a later tick runs it again.

The generation counter starts at 1 and rises with every new session and every change of a node that
the session is told of; the task may raise it too. -/

namespace ServiceRegistry

/-- One pass of a worker. -/
structure Pass where
  tick : Nat
  generation : Nat
deriving DecidableEq, Repr

/-- Work driven by a worker; `σ` is the state that it shares with others. -/
class Task (τ : Type) (σ : outParam Type) where
  /-- The task and the generation counter after the task was asked at a tick. -/
  request : τ → σ → (tick generation : Nat) → τ × Nat
  /-- One pass; `true` if it is complete. -/
  work : τ → SessionId → Pass → Script σ (τ × Except StoreError Bool)

/-- What a worker knows of its connection. -/
inductive Link where
  | disconnected
  /-- A session was opened, but nothing has confirmed it yet; work is tried, and confirms it. -/
  | connecting
  | connected
deriving DecidableEq, Repr

/-- A worker between two steps. -/
structure Worker (τ : Type) where
  task : τ
  generation : Nat := 1
  /-- The last generation that was processed completely. -/
  processed : Nat := 0
  /-- The number of ticks so far. -/
  ticks : Nat := 0
  session : Option SessionId := none
  link : Link := .disconnected

namespace Worker

variable {τ σ : Type} (w : Worker τ) (s : Store)

/-- Ask for a pass. -/
def trigger : Worker τ := { w with generation := w.generation + 1 }

/-! ### The session -/

/-- End the session, if there is one, with whatever still waits in its inbox. -/
def close : Worker τ × Store :=
  match w.session with
  | some id => ({ w with session := none, link := .disconnected }, (s.close id).clearInbox id)
  | none => ({ w with link := .disconnected }, s)

/-- Open a session if there is none; failing that, a later tick tries again. -/
def open' : Worker τ × Store :=
  match w.session with
  | some _ => (w, s)
  | none =>
    match s.connect with
    | (.ok id, s) =>
      ({ w with session := some id, link := .connecting, generation := w.generation + 1 }, s)
    | (.error _, s) => (w, s)

/-- Take one event other than the end of the session. -/
def note (e : Store.Event) : Worker τ :=
  match e.signal with
  | .syncConnected =>
    { w with
      link := .connected
      generation := if e.change = .none then w.generation else w.generation + 1 }
  | .disconnected => { w with link := .disconnected }
  | .expired => w
  | .authFailed => w

/-- Take events in order; the end of the session closes it, and the rest is dropped. -/
def heed (w : Worker τ) (s : Store) : List Store.Event → Worker τ × Store
  | [] => (w, s)
  | e :: es => if e.signal = .expired then w.close s else heed (w.note e) s es

/-- Take all events that wait for the session. -/
def receive : Worker τ × Store :=
  match w.session with
  | none => (w, s)
  | some id => w.heed (s.clearInbox id) (s.inbox id)

/-- What comes first in a tick: take the events, and unless connected open a session and take the
events again. How events are taken is a parameter, since something may stand between the store and
the worker. -/
def settle (first again : Worker τ → Store → Worker τ × Store) : Worker τ × Store :=
  let (w, s) := first w s
  if w.link = .connected then (w, s)
  else
    let (w, s) := w.open' s
    again w s

/-! ### Ticks and passes -/

/-- Ask the task, and decide whether a pass is due and on which session. -/
def decide [Task τ σ] (shared : σ) (tick : Nat) : Option (SessionId × Pass) × Worker τ :=
  if w.link = .disconnected then (none, w)
  else
    let (task, generation) := Task.request w.task shared tick w.generation
    let w := { w with task, generation }
    match w.session with
    | none => (none, w)
    | some id => (if generation ≤ w.processed then none else some (id, ⟨tick, generation⟩), w)

/-- The start of a tick: the session and the pass to run on it, if one is due. -/
def beginTick [Task τ σ] (first again : Worker τ → Store → Worker τ × Store) (shared : σ) :
    Option (SessionId × Pass) × Worker τ × Store :=
  let tick := w.ticks
  let (w, s) := { w with ticks := tick + 1 }.settle s first again
  let (due, w) := w.decide shared tick
  (due, w, s)

/-- The end of a pass. -/
def endPass (pass : Pass) (task : τ) (result : Except StoreError Bool) : Worker τ × Store :=
  let w := { w with task }
  match result with
  | .ok complete =>
    ({ w with
      link := if w.link = .connecting then .connected else w.link
      processed := if complete then pass.generation else w.processed }, s)
  | .error e =>
    if e.isConnectionLoss then ({ w with link := .disconnected }, s)
    else if e.isSessionExpired then w.close s
    else (w, s)

end Worker

end ServiceRegistry
