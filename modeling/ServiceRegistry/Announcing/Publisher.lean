import ServiceRegistry.Announcing.Roster
import ServiceRegistry.Record.Codec
import ServiceRegistry.Worker.Survey

/-! # Publishing a roster

A publisher brings the nodes below a root in line with a roster. A visit makes a node for every
desired record whose node name is not listed: an ephemeral one, or a persistent one for a static
record. It then deletes the nodes of other records that it once confirmed and that are desired no
more, and last the nodes of static records that should be removed. A failing deletion of a static
record is left for a later visit; every other failure breaks the visit off, except that a node to be
made may be there already and a node to be deleted may be gone. -/

namespace ServiceRegistry

/-- A party that keeps the nodes of a roster. -/
structure Publisher where
  root : String
  /-- The roster's generation for which a pass was last asked. -/
  noticed : Nat := 0
  /-- Node names and the generations in which they were last desired, those of static records left
  out. -/
  confirmed : Dict Nat := .empty

namespace Publisher

/-- Ask for a pass if the roster changed. -/
def request (p : Publisher) (roster : Roster) (generation : Nat) : Publisher × Nat :=
  if p.noticed < roster.generation then ({ p with noticed := roster.generation }, generation + 1)
  else (p, generation)

/-- How long the node of a record lives. -/
def mode (r : Record) : Store.Mode := if r.isStatic then .persistent else .ephemeral

/-- Note that a record is desired. -/
def confirm (p : Publisher) (r : Record) (generation : Nat) : Publisher :=
  if r.isStatic then p else { p with confirmed := p.confirmed.insert r.nodeName generation }

/-- Make the nodes of the records that are not listed. -/
def makeMissing (children : List String) (generation : Nat) :
    List Record → Publisher → Script Roster (Publisher × Except StoreError Unit)
  | [], p => pure (p, .ok ())
  | r :: rs, p =>
    let p := p.confirm r generation
    if r.nodeName ∈ children then makeMissing children generation rs p
    else .call (.create (Path.child p.root r.nodeName) r.encode (mode r)) fun
      | .ok _ => makeMissing children generation rs p
      | .error e =>
        if e.isNodeExists then makeMissing children generation rs p else pure (p, .error e)

/-- Delete nodes that were confirmed and are desired no more. -/
def sweep : List String → Publisher → Script Roster (Publisher × Except StoreError Unit)
  | [], p => pure (p, .ok ())
  | name :: names, p =>
    .call (.delete (Path.child p.root name)) fun
      | .ok _ => sweep names { p with confirmed := p.confirmed.erase name }
      | .error e =>
        if e.isNoNode then sweep names { p with confirmed := p.confirmed.erase name }
        else pure (p, .error e)

/-- The names that were not confirmed in this generation. They come in alphabetical order, where a
table that hashes its keys has them in an order of its own, which differs from table to table. -/
def stale (p : Publisher) (generation : Nat) : List String :=
  (p.confirmed.filter fun _ seen => seen ≠ generation).keys

/-- Delete the nodes of static records that should be removed. -/
def removeStatic (root : String) : List Record → Script Roster Unit
  | [] => pure ()
  | r :: rs =>
    .call (.delete (Path.child root r.nodeName)) fun
      | .ok _ => .change (·.unqueue r) (removeStatic root rs)
      | .error e =>
        if e.isNoNode then .change (·.unqueue r) (removeStatic root rs) else removeStatic root rs

/-- One visit. -/
def visit (p : Publisher) (children : List String) (generation : Nat) :
    Script Roster (Publisher × Except StoreError Unit) :=
  .look fun roster => do
    let (p, result) ← makeMissing children generation roster.desired p
    match result with
    | .error e => return (p, .error e)
    | .ok () =>
      let (p, result) ← sweep (p.stale generation) p
      match result with
      | .error e => return (p, .error e)
      | .ok () => .look fun roster => do
        removeStatic p.root roster.removals
        return (p, .ok ())

end Publisher

end ServiceRegistry
