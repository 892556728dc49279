import ServiceRegistry.Pool

/-! # Catalogues

A catalogue is what one party knows of all services: a pool for each service name. Every publication
makes a new edition. A pool whose records did not change is carried over from the edition before, so
an entry also says in which edition its pool was built. A gate tells whether those who wait for a
first edition may go on; where there will be none it stands open from the start. -/

namespace ServiceRegistry

/-- A pool and the edition in which it was built. -/
structure Catalog.Entry where
  pool : Pool
  since : Nat

/-- The known services. -/
structure Catalog where
  entries : Dict Catalog.Entry := .empty
  /-- How many editions were published. -/
  edition : Nat := 0
  /-- Need nobody wait for a first edition any more? -/
  isOpen : Bool := false

namespace Catalog

/-- The pool of a service. -/
def pool? (c : Catalog) (service : String) : Option Pool := (c.entries.find? service).map (·.pool)

/-- Publish new pools. -/
def replace (c : Catalog) (pools : Dict Pool) : Catalog where
  entries := pools.map fun pool => ⟨pool, c.edition + 1⟩
  edition := c.edition + 1
  isOpen := true

/-- Records by the name of their service, in the order in which they were read. -/
def byService (records : List Record) : Dict (List Record) :=
  records.foldl (fun d r => d.insert r.name ((d.find? r.name).getD [] ++ [r])) .empty

/-- The entry of a service for the next edition: the one before, if it holds just these records. -/
def nextEntry (layout : Ring.Layout) (c : Catalog) (service : String) (records : List Record) :
    Option Entry :=
  match (c.entries.find? service).filter (·.pool.holds records) with
  | some entry => some entry
  | none =>
    match Pool.build layout records with
    | .ok pool => some ⟨pool, c.edition + 1⟩
    | .error _ => none

/-- Publish the records that were read. -/
def publish (layout : Ring.Layout) (c : Catalog) (records : List Record) : Catalog where
  entries := (byService records).entries.foldl
    (fun d (service, records) =>
      match c.nextEntry layout service records with
      | some entry => d.insert service entry
      | none => d) .empty
  edition := c.edition + 1
  isOpen := true

/-- Every service with its records. -/
def listing (c : Catalog) : Dict (List Record) := c.entries.map (·.pool.records)

end Catalog

/-- One line on how many instances each service has, the services in order of name. -/
def summarize (services : Dict (List Record)) : String :=
  if services.entries.isEmpty then "no services"
  else ", ".intercalate (services.entries.map fun (name, records) =>
    name ++ "=" ++ toString records.length)

end ServiceRegistry
