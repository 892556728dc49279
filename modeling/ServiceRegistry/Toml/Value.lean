/-! # Values of a TOML document

A table keeps its entries in the order in which they came to be. How a table was made decides what
may still be added to it: `put` sets a value under a path of keys, and refuses a path that runs into
a value, sets a key twice, or reaches by keys a table that a header made or that stands in braces.
-/

namespace ServiceRegistry.Toml

/-- How a table was made. -/
inductive Origin where
  /-- By a header of its own; so is the table of the whole document. -/
  | header
  /-- By a header of a table below it. -/
  | passing
  /-- By a dotted key. -/
  | dotted
  /-- In braces. -/
  | inline
deriving DecidableEq, Repr

/-- A value; of floating-point numbers and dates only the kind is kept. -/
inductive Value where
  | text (s : String)
  | integer (n : Int)
  | truth (b : Bool)
  | float
  | date
  /-- A list is open if it grows by a header for each of its tables. -/
  | list (isOpen : Bool) (elements : List Value)
  | table (origin : Origin) (entries : List (String × Value))

/-- The entries of a table. -/
abbrev Entries := List (String × Value)

namespace Entries

/-- The value under a key. -/
def get? (es : Entries) (key : String) : Option Value := (es.find? (·.1 = key)).map (·.2)

/-- Replace the value under a key. -/
def replace (es : Entries) (key : String) (v : Value) : Entries :=
  es.map fun e => if e.1 = key then (key, v) else e

/-- Drop a key. -/
def erase (es : Entries) (key : String) : Entries := es.filter (·.1 ≠ key)

/-- May one pass through a table on the way to another one? -/
def mayPass (byKeys : Bool) : Origin → Bool
  | .header => !byKeys
  | .passing => true
  | .dotted => true
  | .inline => false

/-- Change the table at a path, making those that are not there. The last of the tables of an open
list stands for the list. -/
def update {α : Type} (byKeys : Bool) (f : Origin → Entries → Option (α × Entries)) :
    List String → Origin → Entries → Option (α × Entries)
  | [], origin, es => f origin es
  | key :: keys, _, es =>
    match es.get? key with
    | none => do
      let origin := if byKeys then Origin.dotted else .passing
      let (a, inner) ← update byKeys f keys origin []
      return (a, es ++ [(key, .table origin inner)])
    | some (.table origin inner) => do
      if !mayPass byKeys origin then none
      let (a, inner) ← update byKeys f keys origin inner
      return (a, es.replace key (.table origin inner))
    | some (.list true tables) =>
      match tables.getLast? with
      | some (.table origin inner) => do
        let (a, inner) ← update byKeys f keys origin inner
        return (a, es.replace key (.list true (tables.dropLast ++ [.table origin inner])))
      | _ => none
    | some _ => none

/-- Set a value under a path of keys and a last key. -/
def put (es : Entries) (path : List String) (key : String) (v : Value) : Option Entries :=
  let set (origin : Origin) (es : Entries) : Option (Unit × Entries) :=
    if (decide (origin = .dotted)) = path.isEmpty ∨ (es.get? key).isSome then none
    else some ((), es ++ [(key, v)])
  (update true set path .header es).map (·.2)

/-- Take out the table that a header names, which must be new or only passed through so far. -/
def takeTable (es : Entries) (path : List String) (key : String) : Option (Entries × Entries) :=
  update false
    (fun _ es =>
      match es.get? key with
      | none => some ([], es)
      | some (.table .passing inner) => some (inner, es.erase key)
      | some _ => none)
    path .header es

/-- Put in the table that a header names. -/
def putTable (es : Entries) (path : List String) (key : String) (table : Entries) :
    Option Entries :=
  (update false (fun _ es => some ((), es ++ [(key, .table .header table)])) path .header es).map
    (·.2)

/-- Add a table to an open list. -/
def addTable (es : Entries) (path : List String) (key : String) (table : Entries) :
    Option Entries :=
  let add (_ : Origin) (es : Entries) : Option (Unit × Entries) :=
    match es.get? key with
    | none => some ((), es ++ [(key, .list true [.table .header table])])
    | some (.list true tables) =>
      some ((), es.replace key (.list true (tables ++ [.table .header table])))
    | some _ => none
  (update false add path .header es).map (·.2)

end Entries

end ServiceRegistry.Toml
