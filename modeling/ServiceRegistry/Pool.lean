import ServiceRegistry.Ring

/-! # Pools

A pool holds all instances of one service, with one ring for each type and one for the instances
without a type. Asked for a type, it offers the ring of that type, else the ring without type. Asked
for no type, it offers the ring without type, else one of the typed rings, drawn with the weight of
their sizes; the draw, a number below the size of the pool, is an argument.

The typed rings stand in the order of their types, as a dictionary has them. In a table that hashes
its keys they stand in an order of its own, which differs from table to table. So which ring a
single draw leads to is a matter of that order; how many draws lead to a ring is not. -/

namespace ServiceRegistry

/-- The instances of one service by type. -/
structure Pool where
  /-- The name that all records share; an empty pool has none. -/
  service : Option String
  untyped : Option Ring
  typed : Dict Ring
  /-- The number of records. -/
  size : Nat

namespace Pool

/-- Why records can not be pooled. -/
inductive Error where
  /-- The first record has another name than a later one. -/
  | mixedNames (first other : String)
deriving DecidableEq, Repr

/-- The wording of an error. -/
def Error.message : Error → String
  | .mixedNames first other => "All services must have the same name: " ++ first ++ " != " ++ other

/-! ### Building -/

/-- The types that occur, each as often as it does. -/
def kinds (records : List Record) : List String := records.filterMap (·.kind)

/-- The records of a type. -/
def ofKind (kind : Option String) (records : List Record) : List Record :=
  records.filter (·.kind = kind)

/-- The pool of records that share a name. -/
def build (layout : Ring.Layout) (records : List Record) : Except Error Pool :=
  let first := records.head?.map (·.name)
  match records.find? fun r => some r.name ≠ first with
  | some other => .error (.mixedNames (first.getD "") other.name)
  | none =>
    let plain := ofKind none records
    .ok {
      service := first
      untyped := if plain.isEmpty then none else some (.build layout plain)
      typed := (kinds records).foldl
        (fun d kind =>
          if d.contains kind then d else d.insert kind (.build layout (ofKind (some kind) records)))
        .empty
      size := records.length }

/-! ### Asking -/

/-- The rings, the one without type first. -/
def rings (pool : Pool) : List Ring := pool.untyped.toList ++ pool.typed.entries.map (·.2)

/-- All records, ring by ring. -/
def records (pool : Pool) : List Record := pool.rings.flatMap (·.records)

/-- The ring that holds the `draw`-th record when the rings stand one after the other. -/
def pick (draw : Nat) : List Ring → Option Ring
  | [] => none
  | ring :: rings => if draw < ring.size then some ring else pick (draw - ring.size) rings

/-- The ring that serves a type; the typed rings stand in the order of their types, if one of them
is to be drawn. -/
def ring? (pool : Pool) (kind : Option String) (draw : Nat) : Option Ring :=
  match kind with
  | some kind => (pool.typed.find? kind).or pool.untyped
  | none => pool.untyped.or (pick draw (pool.typed.entries.map (·.2)))

/-- The rings that some draw offers for a type. -/
def offered (pool : Pool) (kind : Option String) : List Ring :=
  match kind, pool.untyped with
  | none, none => pool.typed.entries.map (·.2)
  | _, _ => (pool.ring? kind 0).toList

/-- Does the pool hold exactly these records, as a set? -/
def holds (pool : Pool) (records : List Record) : Bool :=
  (pool.records.all fun r => r ∈ records) && records.all fun r => r ∈ pool.records

end Pool

end ServiceRegistry
