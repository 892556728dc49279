import ServiceRegistry.Dict
import ServiceRegistry.Text.Bytes
import ServiceRegistry.Store.Error
import ServiceRegistry.Store.Path

/-! # The coordination store

The store keeps nodes under their paths. A node is persistent, or ephemeral and owned by a session;
when a session ends its ephemeral nodes go. A session may watch the children of a path: the first
change of these children puts one event into the session's inbox and ends the watch. A session whose
connection is lost lives on, but its calls fail until it is connected again.

`put` and `remove` change the tree past all sessions. Calls of sessions are counted, and any of them
can be made to fail by an injected failure. Each operation here is one atomic step. -/

namespace ServiceRegistry

/-- The number of a session; the first is 1. -/
abbrev SessionId := Nat

namespace Store

/-! ### Parts -/

/-- What an event says about the connection of its session. -/
inductive Signal where
  | syncConnected
  | disconnected
  | expired
  | authFailed
deriving DecidableEq, Repr

/-- What an event says about a node; `none` is a pure change of the session. -/
inductive Change where
  | none
  | nodeCreated
  | nodeDeleted
  | nodeDataChanged
  | nodeChildrenChanged
deriving DecidableEq, Repr

/-- What a session is told. -/
structure Event where
  signal : Signal
  change : Change := .none
  path : Option String := none
deriving DecidableEq, Repr

/-- A node: its payload, and the session that owns it if it is ephemeral. -/
structure Node where
  data : Bytes
  owner : Option SessionId := none
deriving DecidableEq, Repr

/-- How long a node lives. -/
inductive Mode where
  | ephemeral
  | persistent
deriving DecidableEq, Repr

/-- A live session. -/
structure Session where
  id : SessionId
  isConnected : Bool := true
deriving DecidableEq, Repr

/-- The kinds of calls that can be made to fail. -/
inductive Call where
  | connect
  | children
  | data
  | exists
  | create
  | delete
deriving DecidableEq, Repr

/-- How many calls were made, of the kinds that are counted. -/
structure Counters where
  connects : Nat := 0
  children : Nat := 0
  data : Nat := 0
  creates : Nat := 0
  deletes : Nat := 0
deriving DecidableEq, Repr

/-- One more call of a kind. -/
def Counters.count (c : Counters) : Call → Counters
  | .connect => { c with connects := c.connects + 1 }
  | .children => { c with children := c.children + 1 }
  | .data => { c with data := c.data + 1 }
  | .exists => c
  | .create => { c with creates := c.creates + 1 }
  | .delete => { c with deletes := c.deletes + 1 }

end Store

/-- The coordination store. -/
structure Store where
  nodes : Dict Store.Node := .empty
  /-- The live sessions. -/
  sessions : List Store.Session := []
  /-- Who watches the children of which path. -/
  watches : List (String × SessionId) := []
  /-- Events that were sent and not yet taken, the oldest first. -/
  inboxes : List (SessionId × Store.Event) := []
  /-- The number of sessions opened so far. -/
  opened : Nat := 0
  counters : Store.Counters := {}
  /-- Injected failures, the oldest first. -/
  failures : List (Store.Call × StoreError.Code) := []
  /-- How long the read of a payload takes, in milliseconds. -/
  readDelay : Nat := 0

namespace Store

variable (s : Store)

/-! ### Nodes -/

/-- Is there a node at the path? The root is always there. -/
def has (path : String) : Bool := path = Path.root || s.nodes.contains path

/-- The payload of the node at the path. -/
def data? (path : String) : Option Bytes := (s.nodes.find? path).map (·.data)

/-- Is the node at the path ephemeral? -/
def isEphemeral (path : String) : Bool := ((s.nodes.find? path).bind (·.owner)).isSome

/-- The paths right below a path, ascending. -/
def childPaths (path : String) : List String :=
  s.nodes.keys.filter fun p => p ≠ path && Path.parent p = path

/-- The names of the children of a path, in the order of their paths. -/
def children (path : String) : List String := (s.childPaths path).map Path.name

/-! ### Events -/

/-- The session, if it is live. -/
def session? (id : SessionId) : Option Session := s.sessions.find? (·.id = id)

/-- The events that wait for a session. -/
def inbox (id : SessionId) : List Event := (s.inboxes.filter (·.1 = id)).map (·.2)

/-- Put an event into an inbox. -/
def post (id : SessionId) (e : Event) : Store := { s with inboxes := s.inboxes ++ [(id, e)] }

/-- Empty an inbox. -/
def clearInbox (id : SessionId) : Store := { s with inboxes := s.inboxes.filter (·.1 ≠ id) }

/-- The sessions that watch the children of a path. -/
def watchers (path : String) : List SessionId := (s.watches.filter (·.1 = path)).map (·.2)

/-- Watch the children of a path. -/
def watch (path : String) (id : SessionId) : Store :=
  if (path, id) ∈ s.watches then s else { s with watches := s.watches ++ [(path, id)] }

/-- The event that the children of a path changed. -/
def childrenChanged (path : String) : Event := ⟨.syncConnected, .nodeChildrenChanged, some path⟩

/-- Tell the live watchers of a path that its children changed, and end their watches. -/
def notify (path : String) : Store :=
  let told := (s.watchers path).filter fun id => (s.session? id).isSome
  { s with
    watches := s.watches.filter (·.1 ≠ path)
    inboxes := s.inboxes ++ told.map (·, childrenChanged path) }

/-! ### Changes past all sessions -/

/-- Make an empty persistent node unless the path has one. -/
def ensure (path : String) : Store :=
  if s.nodes.contains path then s
  else notify { s with nodes := s.nodes.insert path ⟨[], none⟩ } (Path.parent path)

/-- Set a payload, making the nodes on the way; it is kept only if the path is one of theirs. -/
def put (path : String) (data : Bytes) : Store :=
  let s := (Path.chain (Path.elements path)).foldl ensure s
  match s.nodes.find? path with
  | some node => { s with nodes := s.nodes.insert path { node with data } }
  | none => s

/-- Drop a node, whatever stands below it. -/
def drop (path : String) : Store :=
  notify { s with nodes := s.nodes.erase path } (Path.parent path)

/-- Drop a node if there is one; was there? -/
def remove (path : String) : Bool × Store :=
  if s.nodes.contains path then (true, s.drop path) else (false, s)

/-- Make the next call of a kind fail. -/
def failNext (call : Call) (code : StoreError.Code) : Store :=
  { s with failures := s.failures ++ [(call, code)] }

/-! ### The life of sessions -/

/-- Count a call. -/
def count (call : Call) : Store := { s with counters := s.counters.count call }

/-- The injected failure that a call meets, and the failures left. -/
def takeFailure (call : Call) :
    List (Call × StoreError.Code) → Option (StoreError.Code × List (Call × StoreError.Code))
  | [] => none
  | f :: fs =>
    if f.1 = call then some (f.2, fs)
    else (takeFailure call fs).map fun (code, rest) => (code, f :: rest)

/-- Go on with a call unless a failure was injected for it. -/
def unlessInjected {α : Type} (call : Call) (path : String)
    (next : Store → Except StoreError α × Store) : Except StoreError α × Store :=
  match takeFailure call s.failures with
  | some (code, rest) => (.error ⟨code, path⟩, { s with failures := rest })
  | none => next s

/-- Open a session; it is told at once that it is connected. -/
def connect : Except StoreError SessionId × Store :=
  (s.count .connect).unlessInjected .connect Path.root fun s =>
    let id := s.opened + 1
    let s := { s with opened := id, sessions := s.sessions ++ [⟨id, true⟩] }
    (.ok id, post s id ⟨.syncConnected, .none, none⟩)

/-- The paths of the nodes that a session owns, ascending. -/
def ownedBy (id : SessionId) : List String :=
  (s.nodes.entries.filter (·.2.owner = some id)).map (·.1)

/-- End a session: its ephemeral nodes go, one by one, and so do its watches. -/
def endSession (id : SessionId) : Store :=
  let s := { s with sessions := s.sessions.filter (·.id ≠ id) }
  let s := (s.ownedBy id).foldl drop s
  { s with watches := s.watches.filter (·.2 ≠ id) }

/-- End a session at its own wish. -/
def close (id : SessionId) : Store := if (s.session? id).isSome then s.endSession id else s

/-- End a session from outside; it is told. -/
def expire (id : SessionId) : Store :=
  if (s.session? id).isSome then (s.post id ⟨.expired, .none, none⟩).endSession id else s

/-- Set whether a session is connected, and tell it. -/
def setConnected (id : SessionId) (on : Bool) : Store :=
  if (s.session? id).isSome then
    let sessions := s.sessions.map fun e => if e.id = id then { e with isConnected := on } else e
    post { s with sessions } id ⟨if on then .syncConnected else .disconnected, .none, none⟩
  else s

/-- Cut the connection of a session. -/
def disconnect (id : SessionId) : Store := s.setConnected id false

/-- Bring the connection of a session back. -/
def reconnect (id : SessionId) : Store := s.setConnected id true

/-! ### Calls of sessions -/

/-- A call of a session: it is counted, the session must be live and connected, and then an injected
failure is met before the call itself. -/
def call {α : Type} (call : Call) (id : SessionId) (path : String)
    (next : Store → Except StoreError α × Store) : Except StoreError α × Store :=
  let s := s.count call
  match s.session? id with
  | none => (.error ⟨.sessionExpired, path⟩, s)
  | some e =>
    if e.isConnected then s.unlessInjected call path next else (.error ⟨.connectionLoss, path⟩, s)

/-- List the children of a path, and watch them if asked to. -/
def list (id : SessionId) (path : String) (watching : Bool) :
    Except StoreError (List String) × Store :=
  s.call .children id path fun s =>
    if s.has path then (.ok (s.children path), if watching then s.watch path id else s)
    else (.error ⟨.noNode, path⟩, s)

/-- Begin to read a payload; the answer is how long that takes, if it takes time. -/
def beginRead (id : SessionId) (path : String) : Except StoreError (Option Nat) × Store :=
  s.call .data id path fun s => (.ok (if s.readDelay = 0 then none else some s.readDelay), s)

/-- The payload at the end of a read. -/
def finishRead (path : String) : Except StoreError Bytes :=
  match s.data? path with
  | some data => .ok data
  | none => .error ⟨.noNode, path⟩

/-- Is there a node? -/
def probe (id : SessionId) (path : String) : Except StoreError Bool × Store :=
  s.call .exists id path fun s => (.ok (s.has path), s)

/-- Make a node whose parent exists. -/
def create (id : SessionId) (path : String) (data : Bytes) (mode : Mode) :
    Except StoreError Unit × Store :=
  s.call .create id path fun s =>
    if s.has path then (.error ⟨.nodeExists, path⟩, s)
    else if !s.has (Path.parent path) then (.error ⟨.noNode, path⟩, s)
    else
      let owner := match mode with
        | .ephemeral => some id
        | .persistent => none
      (.ok (), notify { s with nodes := s.nodes.insert path ⟨data, owner⟩ } (Path.parent path))

/-- Drop a node without children. -/
def delete (id : SessionId) (path : String) : Except StoreError Unit × Store :=
  s.call .delete id path fun s =>
    if !s.nodes.contains path then (.error ⟨.noNode, path⟩, s)
    else if !(s.childPaths path).isEmpty then (.error ⟨.other "NotEmpty", path⟩, s)
    else (.ok (), s.drop path)

end Store

end ServiceRegistry
