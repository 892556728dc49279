import ServiceRegistry.Text.Cut

/-! # Service URIs

A URI `srvc://name[:type]/path[?query][#fragment]` names a service instead of a host.
`ServiceUri.parse` reads one and `ServiceUri.text` writes it. The fragment is cut off first, then
the query; the path starts at the first slash of what is left, and the type after the first colon
before that slash. -/

namespace ServiceRegistry

/-- The parts of a URI that names a service. -/
structure ServiceUri where
  name : String
  kind : Option String
  path : String
  query : Option String
  fragment : Option String
deriving DecidableEq, Repr

namespace ServiceUri

open Text (cut)

/-- Why a text is no service URI; each cause keeps the text. -/
inductive Error where
  | unsupportedScheme (text : String)
  | missingPath (text : String)
  | emptyName (text : String)
deriving DecidableEq, Repr

/-- The wording of an error. -/
def Error.message : Error → String
  | .unsupportedScheme t => "ServiceUri only supports srvc:// URIs: " ++ t
  | .missingPath t => "ServiceUri requires a slash after the service: " ++ t
  | .emptyName t => "ServiceUri has an empty service name: " ++ t

/-- What every service URI starts with. -/
def scheme : List Char := "srvc://".toList

/-- What follows a given start. -/
def after? : List Char → List Char → Option (List Char)
  | [], cs => some cs
  | _ :: _, [] => none
  | x :: xs, c :: cs => if x = c then after? xs cs else none

/-- Read a service URI. -/
def parse (text : String) : Except Error ServiceUri :=
  match after? scheme text.toList with
  | none => .error (.unsupportedScheme text)
  | some rest =>
    let (rest, fragment) := cut '#' rest
    let (rest, query) := cut '?' rest
    match cut '/' rest with
    | (_, none) => .error (.missingPath text)
    | (service, some path) =>
      let (name, kind) := cut ':' service
      if name = [] then .error (.emptyName text)
      else .ok {
        name := .ofList name
        kind := kind.map .ofList
        path := .ofList ('/' :: path)
        query := query.map .ofList
        fragment := fragment.map .ofList }

/-- Write a service URI. -/
def text (u : ServiceUri) : String :=
  .ofList scheme ++ u.name ++ (u.kind.elim "" (":" ++ ·)) ++ u.path ++
    (u.query.elim "" ("?" ++ ·)) ++ (u.fragment.elim "" ("#" ++ ·))

end ServiceUri

end ServiceRegistry
