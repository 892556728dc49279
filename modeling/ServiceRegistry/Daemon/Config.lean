import ServiceRegistry.Client.Settings
import ServiceRegistry.Record
import ServiceRegistry.Toml

/-! # Configuration of the daemon

A configuration is a TOML document with three parts: the settings of the discovery client, those of
the daemon itself, and a list of static announcements. Unknown keys are ignored. A group of settings
may also be a list, with the values in the order of the fields. The first value of a wrong kind, in
the order of the document, decides the error; fields that are missing come after it. -/

namespace ServiceRegistry.Daemon

/-- A static announcement as it is configured. -/
structure StaticAnnouncement where
  id : InstanceId
  name : String
  kind : Option String
  scheme : String
  address : String
  port : Nat

/-- The record of a static announcement. -/
def StaticAnnouncement.record (a : StaticAnnouncement) : Except Record.Error Record :=
  Record.atEndpoint a.name a.kind a.id a.scheme a.address a.port true

/-- The configuration of the daemon. -/
structure Config where
  settings : Settings := {}
  /-- Is the root of the directory built before anything is announced below it? -/
  buildsRoot : Bool := true
  buildAttempts : Nat := 10
  /-- The time between two lines on the state of the world, in seconds. -/
  logInterval : Nat := 60
  announcements : List StaticAnnouncement := []

namespace Config

/-! ### Errors -/

/-- Why a text is no configuration. -/
inductive Error where
  | notToml
  /-- A value is of another kind, or out of the range, of its field. -/
  | wrongValue
  | missing (field : String)
  | badId
deriving DecidableEq, Repr

/-- The wording of the errors that name what is wrong. -/
def Error.message? : Error → Option String
  | notToml => none
  | wrongValue => none
  | missing field => some ("missing field " ++ "\x60" ++ field ++ "\x60")
  | badId => some "UUID parsing failed"

/-! ### Single values -/

open Toml (Value Entries)

/-- A truth value. -/
def truth : Value → Except Error Bool
  | .truth b => .ok b
  | _ => .error .wrongValue

/-- A text. -/
def text : Value → Except Error String
  | .text s => .ok s
  | _ => .error .wrongValue

/-- A natural number up to a bound. -/
def natural (bound : Nat) : Value → Except Error Nat
  | .integer n => if 0 ≤ n ∧ n ≤ bound then .ok n.toNat else .error .wrongValue
  | _ => .error .wrongValue

/-- A natural number of 64 bits. -/
def long : Value → Except Error Nat := natural 18446744073709551615

/-- An identity: its text, or its sixteen bytes. -/
def identity : Value → Except Error InstanceId
  | .text s =>
    match InstanceId.parse? s with
    | some id => .ok id
    | none => .error .badId
  | .list _ vs => do
    let bytes ← (vs.take 16).mapM (natural 255)
    if bytes.length < 16 then .error .wrongValue
    else return .ofDigits (bytes.flatMap fun b => [Bytes.nibble (b / 16), Bytes.nibble b])
  | _ => .error .wrongValue

/-! ### Groups of fields -/

/-- A field of a `σ`: its key and how a value is taken. -/
structure Field (σ : Type) where
  key : String
  take : σ → Value → Except Error σ

/-- A field that is read in a way and then set. -/
def field {σ α : Type} (key : String) (read : Value → Except Error α) (set : α → σ → σ) :
    Field σ where
  key := key
  take := fun s v => (read v).map fun a => set a s

/-- Take the entries of a table in order; unknown keys are ignored. -/
def takeEntries {σ : Type} (fields : List (Field σ)) (s : σ) (es : Entries) : Except Error σ :=
  es.foldlM
    (fun s (key, v) =>
      match fields.find? (·.key = key) with
      | some f => f.take s v
      | none => .ok s)
    s

/-- Take a group of fields; a date counts as a table with an unknown key. -/
def takeGroup {σ : Type} (fields : List (Field σ)) (s : σ) : Value → Except Error σ
  | .table _ es => takeEntries fields s es
  | .date => .ok s
  | .list _ vs => (fields.zip vs).foldlM (fun s (f, v) => f.take s v) s
  | _ => .error .wrongValue

/-- The fields of the settings of a client. -/
def settingsFields : List (Field Settings) := [
  field "enabled" truth fun v s => { s with enabled := v },
  field "announce_enabled" truth fun v s => { s with announceEnabled := v },
  field "connect" text fun v s => { s with connect := v },
  field "root" text fun v s => { s with root := v },
  field "scan_interval_ms" long fun v s => { s with scanInterval := v },
  field "tick_interval_ms" long fun v s => { s with tickInterval := v },
  field "rpc_timeout_ms" long fun v s => { s with rpcTimeout := v },
  field "session_timeout_ms" long fun v s => { s with sessionTimeout := v },
  field "penalty_time_ms" long fun v s => { s with penaltyTime := v },
  field "world_change_timeout_ms" long fun v s => { s with worldChangeTimeout := v },
  field "startup_wait_ms" long fun v s => { s with startupWait := v }]

/-- The fields of the daemon itself. -/
def daemonFields : List (Field Config) := [
  field "build_root_path" truth fun v c => { c with buildsRoot := v },
  field "build_attempts" (natural 4294967295) fun v c => { c with buildAttempts := v },
  field "state_log_interval_secs" long fun v c => { c with logInterval := v }]

/-! ### Static announcements -/

/-- The fields of a static announcement that were read. -/
structure Draft where
  id : Option InstanceId := none
  name : Option String := none
  kind : Option String := none
  scheme : Option String := none
  address : Option String := none
  port : Option Nat := none

/-- The fields of a static announcement. -/
def announcementFields : List (Field Draft) := [
  field "id" identity fun v d => { d with id := some v },
  field "name" text fun v d => { d with name := some v },
  field "type" text fun v d => { d with kind := some v },
  field "scheme" text fun v d => { d with scheme := some v },
  field "address" text fun v d => { d with address := some v },
  field "port" (natural 65535) fun v d => { d with port := some v }]

/-- A field that must be there. -/
def required {α : Type} (key : String) : Option α → Except Error α
  | some a => .ok a
  | none => .error (.missing key)

/-- A static announcement; in a list no field may be missing. -/
def announcement (v : Value) : Except Error StaticAnnouncement := do
  let d ← takeGroup announcementFields {} v
  match v with
  | .list _ vs => if vs.length < announcementFields.length then throw .wrongValue
  | _ => pure ()
  return {
    id := ← required "id" d.id
    name := ← required "name" d.name
    kind := d.kind
    scheme := ← required "scheme" d.scheme
    address := ← required "address" d.address
    port := ← required "port" d.port }

/-- A list of static announcements. -/
def announcementList : Value → Except Error (List StaticAnnouncement)
  | .list _ vs => vs.mapM announcement
  | _ => .error .wrongValue

/-! ### The whole -/

/-- The parts of a configuration. -/
def parts : List (Field Config) := [
  ⟨"discovery", fun c v => do
    return { c with settings := ← takeGroup settingsFields c.settings v }⟩,
  ⟨"daemon", takeGroup daemonFields⟩,
  field "static_announce" announcementList fun v c => { c with announcements := v }]

/-- Read a configuration. -/
def read (document : String) : Except Error Config :=
  match Toml.read document with
  | none => .error .notToml
  | some es => takeEntries parts {} es

end Config

end ServiceRegistry.Daemon
