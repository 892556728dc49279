import ServiceRegistry.Catalog
import ServiceRegistry.Record.Codec
import ServiceRegistry.Worker.Survey

/-! # Following a directory

A follower visits the children of a root, reads their payloads and publishes the records in them as
the next edition of a catalogue. A node without data, or gone, or failing to be read in another way
adds no record; only a lost connection or an ended session breaks the visit off, and then nothing is
published. A payload that is no record puts its node into quarantine: for the penalty time the node
is not read.

All reads of a visit are begun in the order of the children. One that takes no time is dealt with
before the next begins; the others are dealt with in the order in which they end, up to the time
limit of the visit. Those that would end later add nothing. -/

namespace ServiceRegistry

/-- A party that publishes what it reads below a root. -/
structure Follower where
  root : String
  /-- The time limit of the reads of a visit. -/
  timeLimit : Nat
  penalty : Nat
  layout : Ring.Layout := .standard
  /-- Node paths and the times at which their quarantine ends. -/
  quarantine : Dict Nat := .empty

namespace Follower

/-- Is a node in quarantine at a time? -/
def isQuarantined (f : Follower) (now : Nat) (path : String) : Bool :=
  match f.quarantine.find? path with
  | some until' => now < until'
  | none => false

/-- What a visit has found so far. -/
structure Harvest where
  records : List Record := []
  quarantine : Dict Nat

/-- Add a payload to the harvest, or put its node into quarantine. -/
def reap (penalty : Nat) (path : String) (data : Bytes) (h : Harvest) : Script Catalog Harvest :=
  if data = [] then pure h
  else .fresh fun id =>
    match Record.decode id data with
    | .ok r => pure { h with records := h.records ++ [r] }
    | .error _ => .clock fun now =>
      pure { h with quarantine := h.quarantine.insert path (now + penalty) }

/-- Does the error of a read break the visit off? -/
def isFatal (e : StoreError) : Bool := e.isConnectionLoss || e.isSessionExpired

/-- Take what a read whose time is over has brought. -/
def collect (penalty : Nat) (path : String) (h : Harvest) :
    Script Catalog (Harvest × Except StoreError Unit) :=
  .call (.finishRead path) fun
    | .ok data => do return (← reap penalty path data h, .ok ())
    | .error e => pure (h, if isFatal e then .error e else .ok ())

/-- Put a read among others that take time, in the order in which they end. -/
def enqueue (read : String × Nat) : List (String × Nat) → List (String × Nat)
  | [] => [read]
  | next :: slow => if read.2 < next.2 then read :: next :: slow else next :: enqueue read slow

/-- Begin the reads in order. The result has the reads that take time, with that time, unless an
error broke the visit off. -/
def begin' (penalty : Nat) :
    List String → List (String × Nat) → Harvest →
      Script Catalog (Harvest × Except StoreError (List (String × Nat)))
  | [], slow, h => pure (h, .ok slow)
  | path :: paths, slow, h =>
    .call (.beginRead path) fun
      | .error e => if isFatal e then pure (h, .error e) else begin' penalty paths slow h
      | .ok (some ms) => begin' penalty paths (enqueue (path, ms) slow) h
      | .ok none => do
        let (h, result) ← collect penalty path h
        match result with
        | .error e => pure (h, .error e)
        | .ok () => begin' penalty paths slow h

/-- Finish the reads that take time, when some of it has passed: those that end within the limit are
collected. -/
def finish (f : Follower) : Nat → List (String × Nat) → Harvest →
    Script Catalog (Harvest × Except StoreError Unit)
  | _, [], h => pure (h, .ok ())
  | passed, (path, ms) :: slow, h =>
    if ms ≤ f.timeLimit then
      .pauseFor (ms - passed) do
        let (h, result) ← collect f.penalty path h
        match result with
        | .error e => pure (h, .error e)
        | .ok () => f.finish ms slow h
    else .pauseFor (f.timeLimit - passed) (pure (h, .ok ()))

/-- A visit that begins at a time. -/
def visitAt (f : Follower) (now : Nat) (children : List String) :
    Script Catalog (Follower × Except StoreError Unit) := do
  let paths := children.map (Path.child f.root)
  let admitted := paths.filter fun p => !f.isQuarantined now p
  let serving := f.quarantine.filter fun _ until' => now < until'
  let (h, result) ← begin' f.penalty admitted [] { quarantine := serving }
  match result with
  | .error e => return ({ f with quarantine := h.quarantine }, .error e)
  | .ok slow =>
    let (h, result) ← f.finish 0 slow h
    match result with
    | .error e => return ({ f with quarantine := h.quarantine }, .error e)
    | .ok () =>
      .change (·.publish f.layout h.records)
        (pure ({ f with quarantine := h.quarantine }, .ok ()))

/-- One visit. -/
def visit (f : Follower) (children : List String) :
    Script Catalog (Follower × Except StoreError Unit) :=
  .clock fun now => f.visitAt now children

end Follower

end ServiceRegistry
