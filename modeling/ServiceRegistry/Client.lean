import ServiceRegistry.Announcing.Publisher
import ServiceRegistry.Client.Endpoint
import ServiceRegistry.Client.Settings
import ServiceRegistry.Directory.Follower

/-! # Discovery clients

A client follows a directory into its catalogue, answers lookups from it, and, if it may write,
announces the records of its roster. A lookup takes a ring of the service's pool and on it the
record that serves a key. The key is that of the first hash hint; without one it is drawn, and so is
the ring where any will do. The draws are arguments (`Draw`), so that lookups are functions. -/

namespace ServiceRegistry

/-- What narrows a lookup down; only a hash key has an effect. -/
inductive Hint where
  | hash (key : String)
  | qualifier (text : String)
  | version (number : Nat)
deriving DecidableEq, Repr

/-- The random part of a lookup: the position of a ring and a key. -/
structure Draw where
  ring : Nat := 0
  key : String := "0"
deriving DecidableEq, Repr

/-- What a client shares with its worker. -/
structure Client.Shared where
  catalog : Catalog
  roster : Roster := {}

/-- A discovery client. -/
structure Client where
  settings : Settings
  /-- May it announce? -/
  isWritable : Bool
  shared : Client.Shared
  layout : Ring.Layout := .standard

namespace Client

/-- A new client; one that is disabled lets nobody wait for a first edition. -/
def make (settings : Settings) (isWritable : Bool) : Client where
  settings := settings
  isWritable := isWritable
  shared := { catalog := { isOpen := !settings.enabled } }

variable (c : Client)

/-- The services that the client knows. -/
def catalog : Catalog := c.shared.catalog

/-- The records that the client announces. -/
def roster : Roster := c.shared.roster

/-! ### Announcing -/

/-- The client may not announce. -/
inductive ReadOnly where
  | readOnly
deriving DecidableEq, Repr

/-- The wording of an error. -/
def ReadOnly.message : ReadOnly → String
  | .readOnly => "Discovery client is read-only"

/-- Change the roster, if the client may. -/
def changeRoster (f : Roster → Roster) : Except ReadOnly Client :=
  if c.isWritable then .ok { c with shared := { c.shared with roster := f c.shared.roster } }
  else .error .readOnly

/-- Announce a record. -/
def announce (r : Record) : Except ReadOnly Client := c.changeRoster (·.announce r)

/-- Announce a record no more. -/
def withdraw (r : Record) : Except ReadOnly Client := c.changeRoster (·.withdraw r)

/-- Announce nothing any more. -/
def withdrawAll : Except ReadOnly Client := c.changeRoster (·.withdrawAll)

/-! ### Looking up -/

/-- The key that the hints ask for, if they do. -/
def hashKey? (hints : List Hint) : Option String :=
  hints.findSome? fun
    | .hash key => some key
    | _ => none

/-- The ring that serves a type of a service. -/
def ring? (service : String) (kind : Option String) (draw : Nat) : Option Ring :=
  ((c.catalog.pool? service).bind (·.ring? kind draw)).filter fun ring => ring.size ≠ 0

/-- An instance of a service. -/
def find (service : String) (kind : Option String) (hints : List Hint) (draw : Draw) :
    Except Unavailable Record :=
  match c.ring? service kind draw.ring with
  | none => .error (.notFound (Record.describe service kind))
  | some ring =>
    match ring.get c.layout ((hashKey? hints).getD draw.key) with
    | .ok r => .ok r
    | .error .empty => .error (.notFound (Record.describe service kind))

/-- The URL of the instance that was found for a service. -/
def urlOf (service : String) (kind : Option String) (found : Except Unavailable Record) :
    Except Unavailable Url := do
  let e ← Endpoint.ofRecord (Record.describe service kind) (← found)
  e.url (Record.describe service kind)

/-- The URL of an instance of a service. -/
def findUrl (service : String) (kind : Option String) (hints : List Hint) (draw : Draw) :
    Except Unavailable Url :=
  urlOf service kind (c.find service kind hints draw)

/-- The URL that a service URI stands for at the instance that was found for its service. -/
def resolveAt (u : ServiceUri) (found : Except Unavailable Record) : Except Unavailable Url := do
  if !c.settings.enabled then throw .disabled
  let e ← Endpoint.ofRecord (Record.describe u.name u.kind) (← found)
  e.resolve u

/-- The URL that a service URI stands for. -/
def resolve (u : ServiceUri) (hints : List Hint) (draw : Draw) : Except Unavailable Url :=
  c.resolveAt u (c.find u.name u.kind hints draw)

/-- All instances of a service. -/
def findAll (service : String) : List Record :=
  ((c.catalog.pool? service).map (·.records)).getD []

/-- The instances on the ring that serves a type. -/
def findAllOfKind (service : String) (kind : Option String) (draw : Nat) : List Record :=
  ((c.ring? service kind draw).map (·.records)).getD []

/-- All services with their instances. -/
def findAllServices : Dict (List Record) := c.catalog.listing

/-! ### What a lookup can find -/

/-- Draws of which each possible choice of a ring occurs in one. -/
def ringDraws (service : String) : List Nat :=
  List.range (max 1 (((c.catalog.pool? service).map (·.size)).getD 0))

/-- The instances that some draw finds. -/
def candidates (service : String) (kind : Option String) (hints : List Hint) : List Record :=
  ((c.ringDraws service).filterMap (c.ring? service kind)).flatMap fun ring =>
    match hashKey? hints with
    | some key => (ring.get c.layout key).toOption.toList
    | none => ring.reachable

/-- All that a lookup can come to, whatever the draws are. -/
def outcomes (service : String) (kind : Option String) (hints : List Hint) :
    List (Except Unavailable Record) :=
  match c.candidates service kind hints with
  | [] => [c.find service kind hints {}]
  | found => found.map .ok

/-- All that asking for the instances of a type can come to. -/
def outcomesOfKind (service : String) (kind : Option String) : List (List Record) :=
  (c.ringDraws service).map (c.findAllOfKind service kind)

/-! ### The worker of a client -/

/-- The visitors of a client's directory. -/
inductive Member where
  | follower (f : Follower)
  | publisher (p : Publisher)

instance : Visitor Member Shared where
  request m shared _ generation :=
    match m with
    | .follower f => (.follower f, generation)
    | .publisher p =>
      let (p, generation) := p.request shared.roster generation
      (.publisher p, generation)
  visit m children _ generation :=
    match m with
    | .follower f => do
      let (f, result) ← (f.visit children).zoom Shared.catalog fun catalog s => { s with catalog }
      return (.follower f, result)
    | .publisher p => do
      let (p, result) ←
        (p.visit children generation).zoom Shared.roster fun roster s => { s with roster }
      return (.publisher p, result)

/-- The survey of a client: it follows, and it publishes if it can announce and may. -/
def survey : Survey Member :=
  let follower : Follower :=
    { root := c.settings.root
      timeLimit := c.settings.rpcTimeout
      penalty := c.settings.penaltyTime
      layout := c.layout }
  let publishers :=
    if c.isWritable && c.settings.announceEnabled then
      [Member.publisher { root := c.settings.root }]
    else []
  .make c.settings.root c.settings.scanTicks (.follower follower :: publishers)

end Client

end ServiceRegistry
