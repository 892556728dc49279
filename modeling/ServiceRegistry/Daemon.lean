import ServiceRegistry.Daemon.Config
import ServiceRegistry.Deployment.Operation

/-! # The daemon

The daemon announces services on behalf of those that can not announce themselves. It reads its
configuration, opens the store, has the root of the directory built, starts a client that may
announce, waits for a first edition of the catalogue, and announces the configured records. -/

namespace ServiceRegistry

/-- A daemon that has come up. -/
structure Daemon where
  config : Daemon.Config
  deployment : Deployment
  /-- The client that announces. -/
  client : Nat
  /-- The records that were announced. -/
  announced : List Record

namespace Daemon

/-! ### Failures -/

/-- Why a file could not be read as text. -/
inductive FileError where
  | notFound
  | notText
deriving DecidableEq, Repr

/-- The wording of an error. -/
def FileError.message : FileError → String
  | notFound => "No such file or directory (os error 2)"
  | notText => "stream did not contain valid UTF-8"

/-- A store that can not be opened. -/
structure StoreUnknown where
  connect : String
deriving DecidableEq, Repr

/-- The wording of an error. -/
def StoreUnknown.message (e : StoreUnknown) : String :=
  "Cannot connect to " ++ e.connect ++ ": discoveryd was built without the zookeeper feature"

/-- A static announcement that is no record. -/
structure BadAnnouncement where
  id : InstanceId
  cause : Record.Error

/-- The wording of an error, the outermost cause first. -/
def BadAnnouncement.causes (e : BadAnnouncement) : List String :=
  ["Invalid static announcement " ++ e.id.text, e.cause.message]

/-- Why the daemon does not come up. -/
inductive Failure where
  | unreadable (path : String) (cause : FileError)
  | badConfig (path : String) (cause : Config.Error)
  | disabled (path : String)
  | badAnnouncement (cause : BadAnnouncement)
  | noStore (cause : StoreUnknown)
  | noRoot (cause : Deployment.RootError)
  | notAnnounced (cause : Client.ReadOnly)

/-- What could not be done with the configuration. -/
def loading (path : String) : String := "Failed to load config from " ++ path

/-- The wording of a failure, the outermost cause first. -/
def Failure.causes : Failure → List String
  | unreadable path cause =>
    [loading path, "Failed to read config file: " ++ path, cause.message]
  | badConfig path _ =>
    [loading path, "Failed to parse config file: " ++ path, "TOML parse error"]
  | disabled path => ["Service discovery is disabled, set discovery.enabled in " ++ path]
  | badAnnouncement cause => cause.causes
  | noStore cause => [cause.message]
  | noRoot cause => cause.causes
  | notAnnounced cause => ["Failed to announce static service", cause.message]

/-! ### Coming up -/

/-- The only store there is. -/
def memoryStore : String := "memory"

/-- Open the store. -/
def openStore (settings : Settings) : Except StoreUnknown Store :=
  if settings.connect = memoryStore then .ok {} else .error ⟨settings.connect⟩

/-- The record of a static announcement. -/
def record (a : StaticAnnouncement) : Except BadAnnouncement Record :=
  a.record.mapError fun cause => ⟨a.id, cause⟩

/-- Read the configuration from what a file holds, if there is one. -/
def load (path : String) (file : Option Bytes) : Except Failure Config := do
  let some bytes := file | throw (.unreadable path .notFound)
  let some document := Bytes.text? bytes | throw (.unreadable path .notText)
  (Config.read document).mapError (.badConfig path)

/-- Announce records in order. -/
def announceAll (d : Deployment) (client : Nat) : List Record → Except Failure Deployment
  | [] => .ok d
  | r :: rs =>
    match d.announcing client (·.announce r) with
    | (.ok (), d) => announceAll d client rs
    | (.error e, _) => .error (.notAnnounced e)

/-- Have the root of the directory built, if that is configured. -/
def buildRoot (config : Config) (d : Deployment) : Except Failure Deployment :=
  let (processor, d) := d.addProcessor config.settings false
  let d := d.startProcessor processor
  if config.buildsRoot then
    match d.buildRoot processor config.settings.root config.buildAttempts with
    | (.ok (), d) => .ok d
    | (.error e, _) => .error (.noRoot e)
  else .ok d

/-- Come up with a configuration, or fail. -/
def start (path : String) (file : Option Bytes) : Except Failure Daemon := do
  let config ← load path file
  if !config.settings.enabled then throw (.disabled path)
  let announced ← (config.announcements.mapM record).mapError .badAnnouncement
  let store ← (openStore config.settings).mapError .noStore
  let d ← buildRoot config { store }
  let (client, d) := d.addClient config.settings true false
  let (_, d) := d.fulfil (.start client)
  let (_, d) := d.fulfil (.edition (.client client) config.settings.worldChangeTimeout)
  let deployment ← announceAll d client announced
  return { config, deployment, client, announced }

/-- How a record is named when it is announced. -/
def label (r : Record) : String := r.nodeName ++ " (" ++ r.id.text ++ ")"

end Daemon

end ServiceRegistry
