import ServiceRegistry.Record
import ServiceRegistry.ServiceUri
import ServiceRegistry.Text.Blank
import ServiceRegistry.Text.Quoted
import ServiceRegistry.Url

/-! # Endpoints

The endpoint of an instance is the scheme, address and port in its record's properties, none of them
empty and the port a decimal number below 65536. `Endpoint.url` is its URL; `Endpoint.resolve` is
the URL of a service URI at it, in which the ports of `http` and `https` are left out and blank
components are dropped. -/

namespace ServiceRegistry

/-- Why no instance can be offered. -/
inductive Unavailable where
  | disabled
  | notFound (service : String)
  | noEndpoint (service : String) (address port : Option String)
  | badPort (service port : String)
  | badUrl (service : String) (cause : Url.Error)
  | badTarget (target : String) (cause : Url.Error)
deriving DecidableEq, Repr

/-- An optional text as messages show it. -/
def showOptional : Option String → String
  | some s => "Some(" ++ Text.quoted s ++ ")"
  | none => "None"

/-- The wording of a cause. -/
def Unavailable.detail : Unavailable → String
  | disabled => "Service discovery is disabled"
  | notFound service => "No " ++ service ++ " service found"
  | noEndpoint service address port =>
    "Service " ++ service ++ " exists but misses address information (" ++ showOptional address ++
      "/" ++ showOptional port ++ ")"
  | badPort service port => "Bad port (" ++ port ++ ") in service information for " ++ service
  | badUrl service cause => "Could not create URL for " ++ service ++ ": " ++ cause.message
  | badTarget target cause => "Could not create URL from " ++ target ++ ": " ++ cause.message

/-- The wording of an error. -/
def Unavailable.message (e : Unavailable) : String := "Service not available: " ++ e.detail

/-- Where an instance is reached. -/
structure Endpoint where
  scheme : String
  address : String
  port : Nat
deriving DecidableEq, Repr

namespace Endpoint

/-- Read a port: digits after an optional plus sign. -/
def readPort? (s : String) : Option Nat :=
  let digits := match s.toList with
    | '+' :: cs => cs
    | cs => cs
  if digits.isEmpty || !digits.all Char.isDigit then none
  else
    let n := digits.foldl (fun n c => n * 10 + (c.toNat - '0'.toNat)) 0
    if n ≤ 65535 then some n else none

/-- A property that is present and not empty. -/
def given? (r : Record) (key : String) : Option String := (r.property? key).filter (· ≠ "")

/-- The endpoint of a record; `service` describes what was asked for. -/
def ofRecord (service : String) (r : Record) : Except Unavailable Endpoint :=
  match given? r Record.schemeKey, given? r Record.addressKey, given? r Record.portKey with
  | some scheme, some address, some port =>
    match readPort? port with
    | some n => .ok ⟨scheme, address, n⟩
    | none => .error (.badPort service port)
  | _, address, port => .error (.noEndpoint service address port)

/-- The address as the host of a URL: an IPv6 address goes into brackets. -/
def host (e : Endpoint) : String :=
  if (Url.Host.ipv6? e.address.toList).isSome then "[" ++ e.address ++ "]" else e.address

/-- The scheme and the host. -/
def base (e : Endpoint) : String := e.scheme ++ "://" ++ e.host

/-- The URL of an endpoint. -/
def url (service : String) (e : Endpoint) : Except Unavailable Url :=
  match Url.parse (e.base ++ ":" ++ toString e.port) with
  | .ok u => .ok u
  | .error cause => .error (.badUrl service cause)

/-- Is the port the one that its scheme implies? -/
def hasImpliedPort (e : Endpoint) : Bool :=
  (e.scheme = "http" && e.port = 80) || (e.scheme = "https" && e.port = 443)

/-- A component after its mark, unless it is blank. -/
def component (mark : String) : Option String → String
  | some s => if Text.allBlank s then "" else mark ++ s
  | none => ""

/-- The text of a service URI's URL at an endpoint. -/
def target (u : ServiceUri) (e : Endpoint) : String :=
  e.base ++ (if e.hasImpliedPort then "" else ":" ++ toString e.port) ++
    component "" (some u.path) ++ component "?" u.query ++ component "#" u.fragment

/-- The URL of a service URI at an endpoint. -/
def resolve (u : ServiceUri) (e : Endpoint) : Except Unavailable Url :=
  match Url.parse (e.target u) with
  | .ok url => .ok url
  | .error cause => .error (.badTarget (e.target u) cause)

end Endpoint

end ServiceRegistry
