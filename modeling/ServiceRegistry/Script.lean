import ServiceRegistry.Store
import ServiceRegistry.InstanceId.Source

/-! # Scripts

A script is what a party does with a session, one atomic step after the other: calls on the store,
looks at and changes of the state `σ` that the party shares with others, looks at the clock, fresh
identities, and waits. The next steps depend on the answers, so a script is a tree. Between two
steps anything may happen to the store and the shared state; `Script.run` is the case where nothing
does, up to the next wait.

`Script.Calls` says that every call in a script has a property, whatever the answers are. -/

namespace ServiceRegistry

/-! ### Requests -/

/-- A call on the store, as data. -/
inductive Request where
  | list (path : String) (watching : Bool)
  /-- Begin to read a payload; the answer says how long that takes, if it takes time. -/
  | beginRead (path : String)
  /-- Take the payload at the end of a read. -/
  | finishRead (path : String)
  | probe (path : String)
  | create (path : String) (data : Bytes) (mode : Store.Mode)
  | delete (path : String)
deriving DecidableEq, Repr

namespace Request

/-- What a call is answered with if it succeeds. -/
abbrev Answer : Request → Type
  | list _ _ => List String
  | beginRead _ => Option Nat
  | finishRead _ => Bytes
  | probe _ => Bool
  | create _ _ _ => Unit
  | delete _ => Unit

/-- Does the call ask for a change of the tree? -/
def isWrite : Request → Bool
  | create _ _ _ => true
  | delete _ => true
  | _ => false

end Request

/-- Answer a call of a session. -/
def Store.serve (s : Store) (id : SessionId) :
    (r : Request) → Except StoreError r.Answer × Store
  | .list path watching => s.list id path watching
  | .beginRead path => s.beginRead id path
  | .finishRead path => (s.finishRead path, s)
  | .probe path => s.probe id path
  | .create path data mode => s.create id path data mode
  | .delete path => s.delete id path

/-! ### Scripts -/

/-- Steps of a party that end in an `α`. -/
inductive Script (σ : Type) (α : Type) : Type where
  | done (value : α)
  | call (request : Request) (next : Except StoreError request.Answer → Script σ α)
  /-- Look at the shared state. -/
  | look (next : σ → Script σ α)
  /-- Change the shared state. -/
  | change (f : σ → σ) (next : Script σ α)
  /-- Look at the clock, in milliseconds. -/
  | clock (next : Nat → Script σ α)
  /-- Draw a fresh identity. -/
  | fresh (next : InstanceId → Script σ α)
  /-- Wait for some milliseconds. -/
  | wait (ms : Nat) (next : Script σ α)

namespace Script

variable {σ τ α β : Type}

/-- One script after another. -/
def bind : Script σ α → (α → Script σ β) → Script σ β
  | done a, f => f a
  | call r next, f => call r fun answer => (next answer).bind f
  | look next, f => look fun s => (next s).bind f
  | change g next, f => change g (next.bind f)
  | clock next, f => clock fun now => (next now).bind f
  | fresh next, f => fresh fun id => (next id).bind f
  | wait ms next, f => wait ms (next.bind f)

instance : Monad (Script σ) where
  pure := done
  bind := bind

/-- A script over a part of the shared state. -/
def zoom (get : σ → τ) (set : τ → σ → σ) : Script τ α → Script σ α
  | done a => done a
  | call r next => call r fun answer => (next answer).zoom get set
  | look next => look fun s => (next (get s)).zoom get set
  | change g next => change (fun s => set (g (get s)) s) (next.zoom get set)
  | clock next => clock fun now => (next now).zoom get set
  | fresh next => fresh fun id => (next id).zoom get set
  | wait ms next => wait ms (next.zoom get set)

/-- Wait, unless there is nothing to wait for. -/
def pauseFor (ms : Nat) (rest : Script σ α) : Script σ α := if ms = 0 then rest else wait ms rest

/-- A single call. -/
def ask (r : Request) : Script σ (Except StoreError r.Answer) := call r done

/-- Every call in the script has the property, whatever the answers. -/
def Calls (p : Request → Prop) : Script σ α → Prop
  | done _ => True
  | call r next => p r ∧ ∀ answer, (next answer).Calls p
  | look next => ∀ s, (next s).Calls p
  | change _ next => next.Calls p
  | clock next => ∀ now, (next now).Calls p
  | fresh next => ∀ id, (next id).Calls p
  | wait _ next => next.Calls p

theorem calls_bind {p : Request → Prop} {x : Script σ α} {f : α → Script σ β}
    (hx : x.Calls p) (hf : ∀ a, (f a).Calls p) : (x.bind f).Calls p := by
  induction x with
  | done a => exact hf a
  | call r next ih => exact ⟨hx.1, fun answer => ih answer (hx.2 answer)⟩
  | look next ih => exact fun s => ih s (hx s)
  | change g next ih => exact ih hx
  | clock next ih => exact fun now => ih now (hx now)
  | fresh next ih => exact fun id => ih id (hx id)
  | wait ms next ih => exact ih hx

/-! ### Running -/

/-- What a script acts on. -/
structure Scene (σ : Type) where
  store : Store
  shared : σ
  ids : IdSource := {}

/-- How far a script came without waiting. -/
inductive Progress (σ : Type) (α : Type) where
  | finished (value : α)
  | waiting (ms : Nat) (rest : Script σ α)

/-- Run a script for a session at a time until it ends or waits, with nothing in between its steps.
-/
def run (id : SessionId) (now : Nat) : Script σ α → Scene σ → Progress σ α × Scene σ
  | done a, scene => (.finished a, scene)
  | call r next, scene =>
    let (answer, store) := scene.store.serve id r
    (next answer).run id now { scene with store }
  | look next, scene => (next scene.shared).run id now scene
  | change f next, scene => next.run id now { scene with shared := f scene.shared }
  | clock next, scene => (next now).run id now scene
  | fresh next, scene =>
    let (drawn, ids) := scene.ids.draw
    (next drawn).run id now { scene with ids }
  | wait ms next, scene => if ms = 0 then next.run id now scene else (.waiting ms next, scene)

/-- What a script needs from a party that runs it to its end, waits included. -/
structure Machine (S : Type) (σ : Type) where
  serve : S → (r : Request) → Except StoreError r.Answer × S
  shared : S → σ
  setShared : σ → S → S
  now : S → Nat
  draw : S → InstanceId × S
  pause : Nat → S → S

/-- Run a script to its end. -/
def execute {S : Type} (m : Machine S σ) : Script σ α → S → α × S
  | done a, st => (a, st)
  | call r next, st =>
    let (answer, st) := m.serve st r
    (next answer).execute m st
  | look next, st => (next (m.shared st)).execute m st
  | change f next, st => next.execute m (m.setShared (f (m.shared st)) st)
  | clock next, st => (next (m.now st)).execute m st
  | fresh next, st =>
    let (drawn, st) := m.draw st
    (next drawn).execute m st
  | wait ms next, st => next.execute m (m.pause ms st)

/-- Read a payload, however long it takes. -/
def readData (path : String) : Script σ (Except StoreError Bytes) :=
  call (.beginRead path) fun
    | .error e => done (.error e)
    | .ok none => call (.finishRead path) done
    | .ok (some ms) => wait ms (call (.finishRead path) done)

end Script

end ServiceRegistry
