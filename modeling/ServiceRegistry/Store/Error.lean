import ServiceRegistry.Text.Quoted

/-! # Errors of the coordination store

A call on a session fails with a code and the path it was about. A lost connection and a timeout
both count as connection loss. -/

namespace ServiceRegistry

/-- What went wrong in a call on the store. -/
inductive StoreError.Code where
  | connectionLoss
  | sessionExpired
  | noNode
  | nodeExists
  | operationTimeout
  | other (text : String)
deriving DecidableEq, Repr

/-- A failed call: what went wrong, and on which path. -/
structure StoreError where
  code : StoreError.Code
  path : String
deriving DecidableEq, Repr

namespace StoreError

/-- The name of a code in messages. -/
def Code.text : Code → String
  | connectionLoss => "ConnectionLoss"
  | sessionExpired => "SessionExpired"
  | noNode => "NoNode"
  | nodeExists => "NodeExists"
  | operationTimeout => "OperationTimeout"
  | other t => "Other(" ++ Text.quoted t ++ ")"

/-- The wording of an error. -/
def message (e : StoreError) : String :=
  "Coordination store error " ++ e.code.text ++ " on " ++ e.path

/-- Did the call fail because the store could not be reached in time? -/
def isConnectionLoss (e : StoreError) : Bool :=
  e.code = .connectionLoss || e.code = .operationTimeout

/-- Did the call fail because the session has ended? -/
def isSessionExpired (e : StoreError) : Bool := e.code = .sessionExpired

/-- Did the call fail because there is no such node? -/
def isNoNode (e : StoreError) : Bool := e.code = .noNode

/-- Did the call fail because the node is there already? -/
def isNodeExists (e : StoreError) : Bool := e.code = .nodeExists

end StoreError

end ServiceRegistry
