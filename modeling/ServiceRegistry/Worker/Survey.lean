import ServiceRegistry.Worker

/-! # Surveys of a directory

A survey lists the children of a root, watching for the next change of them, and hands the list to
its visitors one after the other; the first error ends the pass. Visitors may ask for a pass, and
every `scanTicks` ticks one is asked for in any case. -/

namespace ServiceRegistry

/-- A visitor of the children of a root. -/
class Visitor (ν : Type) (σ : outParam Type) where
  /-- The visitor and the generation counter after the visitor was asked at a tick. -/
  request : ν → σ → (tick generation : Nat) → ν × Nat
  /-- One visit, with the children that were listed. -/
  visit : ν → (children : List String) → SessionId → (generation : Nat) →
    Script σ (ν × Except StoreError Unit)

/-- A root and its visitors. -/
structure Survey (ν : Type) where
  root : String
  scanTicks : Nat
  /-- The tick of the last scan that was asked for because it was time. -/
  lastScan : Nat := 0
  visitors : List ν

namespace Survey

variable {ν σ : Type} [Visitor ν σ]

/-- A survey that has not scanned yet. -/
def make (root : String) (scanTicks : Nat) (visitors : List ν) : Survey ν :=
  { root, scanTicks := max 1 scanTicks, visitors }

/-- Ask visitors in order. -/
def requestAll (shared : σ) (tick : Nat) : List ν → Nat → List ν × Nat
  | [], generation => ([], generation)
  | v :: vs, generation =>
    let (v, generation) := Visitor.request v shared tick generation
    let (vs, generation) := requestAll shared tick vs generation
    (v :: vs, generation)

/-- Ask for a scan if it is time, else ask the visitors. -/
def request (t : Survey ν) (shared : σ) (tick generation : Nat) : Survey ν × Nat :=
  if t.scanTicks ≤ tick - t.lastScan then ({ t with lastScan := tick }, generation + 1)
  else
    let (visitors, generation) := requestAll shared tick t.visitors generation
    ({ t with visitors }, generation)

/-- Visit in order until an error. -/
def visitAll (children : List String) (id : SessionId) (generation : Nat) :
    List ν → Script σ (List ν × Except StoreError Unit)
  | [] => pure ([], .ok ())
  | v :: vs => do
    let (v, result) ← Visitor.visit v children id generation
    match result with
    | .error e => return (v :: vs, .error e)
    | .ok () =>
      let (vs, result) ← visitAll children id generation vs
      return (v :: vs, result)

/-- One pass: list the root, then visit. -/
def work (t : Survey ν) (id : SessionId) (pass : Pass) :
    Script σ (Survey ν × Except StoreError Bool) :=
  .call (.list t.root true) fun
    | .error e => pure (t, .error e)
    | .ok children => do
      let (visitors, result) ← visitAll children id pass.generation t.visitors
      return ({ t with visitors }, result.map fun _ => true)

instance : Task (Survey ν) σ where
  request := request
  work := work

end Survey

end ServiceRegistry
