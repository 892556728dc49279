import ServiceRegistry.Dict
import ServiceRegistry.InstanceId

/-! # Service records

A record announces one instance of a service: the name of the service, an optional type, the
identity of the instance, free properties, and whether the announcement outlives the session that
made it. Two records are equal when all of these agree; the name under which a record is stored
(`Record.nodeName`) depends on name, type and identity only. -/

namespace ServiceRegistry

/-- One announced instance of a service. -/
structure Record where
  name : String
  /-- The type, such as `http`; having none is a type of its own. -/
  kind : Option String
  id : InstanceId
  properties : Dict String
  /-- Does the announcement outlive the session that made it? -/
  isStatic : Bool
  name_ne : name ≠ ""
deriving DecidableEq

namespace Record

/-- A name that is written out is seen not to be empty. -/
theorem written_name_ne (name : String) : if name = "" then True else name ≠ "" := by
  split
  · trivial
  · assumption

/-- Why a record can not be made. -/
inductive Error where
  | emptyName
deriving DecidableEq, Repr

/-- The wording of an error. -/
def Error.message : Error → String
  | .emptyName => "Service name can not be empty"

/-- A record of the given parts; only an empty name is refused. -/
def make (name : String) (kind : Option String) (id : InstanceId) (properties : Dict String)
    (isStatic : Bool := false) : Except Error Record :=
  if h : name = "" then .error .emptyName
  else .ok { name, kind, id, properties, isStatic, name_ne := h }

/-! ### Well-known properties -/

/-- The property that holds the scheme of an instance's URL. -/
def schemeKey : String := "serviceScheme"
/-- The property that holds the host name or address of an instance. -/
def addressKey : String := "serviceAddress"
/-- The property that holds the port of an instance. -/
def portKey : String := "servicePort"

/-- The properties of an instance that is reached at an address and a port. -/
def endpointProperties (scheme address : String) (port : Nat) : Dict String :=
  ((Dict.empty.insert schemeKey scheme).insert addressKey address).insert portKey (toString port)

/-- A record of an instance that is reached at an address and a port. -/
def atEndpoint (name : String) (kind : Option String) (id : InstanceId) (scheme address : String)
    (port : Nat) (isStatic : Bool := false) : Except Error Record :=
  make name kind id (endpointProperties scheme address port) isStatic

/-- The value of a property. -/
def property? (r : Record) (key : String) : Option String := r.properties.find? key

/-! ### Names -/

/-- The name of the node that holds the record: name, type and identity, joined by hyphens. -/
def nodeName (r : Record) : String := r.name ++ "-" ++ r.kind.getD "" ++ "-" ++ r.id.text

/-- How a service and a type are written in messages. -/
def describe (name : String) : Option String → String
  | some kind => name ++ "/" ++ kind
  | none => name

theorem make_eq_error_iff {name kind id properties isStatic e} :
    make name kind id properties isStatic = .error e ↔ name = "" := by
  cases e
  unfold make
  split <;> simp [*]

end Record

end ServiceRegistry
