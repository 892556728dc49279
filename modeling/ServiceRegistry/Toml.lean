import ServiceRegistry.Toml.Read

/-! # TOML documents

A document is read statement by statement. Entries go into the table of the last header, or into the
table of the document before the first one. The table of a header joins the others when the next one
begins. -/

namespace ServiceRegistry.Toml

/-- Where the table of the last header belongs. -/
inductive Place where
  | top
  | table (path : List String) (key : String)
  | listElement (path : List String) (key : String)

/-- What was read so far. -/
structure Draft where
  /-- The tables that are complete. -/
  joined : Entries := []
  place : Place := .top
  /-- The entries of the table of the last header. -/
  current : Entries := []

namespace Draft

/-- Join the table of the last header to the others. -/
def join (d : Draft) : Option Entries :=
  match d.place with
  | .top => some d.current
  | .table path key => d.joined.putTable path key d.current
  | .listElement path key => d.joined.addTable path key d.current

/-- Take a statement. -/
def take (d : Draft) : Statement → Option Draft
  | .entry path key v => do return { d with current := ← d.current.put path key v }
  | .header path key => do
    let (current, joined) ← (← d.join).takeTable path key
    return { joined, place := .table path key, current }
  | .listHeader path key => do
    return { joined := ← d.join, place := .listElement path key }

end Draft

/-- Read a document; a byte order mark before it is dropped. -/
def read (document : String) : Option Entries := do
  let cs := match document.toList with
    | '\ufeff' :: cs => cs
    | cs => cs
  let draft ← (← statements (cs.length + 1) cs).foldlM Draft.take {}
  draft.join

end ServiceRegistry.Toml
