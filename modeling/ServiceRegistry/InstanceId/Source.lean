import ServiceRegistry.InstanceId
import ServiceRegistry.Ring.Blake3

/-! # Fresh identities

A source hands out identities one after the other, spread by hashing a seed and a count. They carry
the digits that mark an identity as randomly made. -/

namespace ServiceRegistry

/-- Where fresh identities come from. -/
structure IdSource where
  seed : String := ""
  count : Nat := 0
deriving DecidableEq, Repr

namespace IdSource

/-- The hexadecimal digits of a word, the most significant first. -/
def wordDigits (w : UInt32) : List (Fin 16) :=
  (List.range 8).reverse.map fun i => Bytes.nibble (w.toNat / Nat.pow 16 i)

/-- Mark digits as randomly made: version 4, variant 8 to b. -/
def mark (ds : List (Fin 16)) : List (Fin 16) :=
  (ds.set 12 (Bytes.nibble 4)).modify 16 fun d => Bytes.nibble (8 + d.val % 4)

/-- The next identity and the source after it. -/
def draw (source : IdSource) : InstanceId × IdSource :=
  let hash := Blake3.hash (.ofText (source.seed ++ "/" ++ toString source.count))
  (.ofDigits (mark ((hash.toList.take 4).flatMap wordDigits)),
    { source with count := source.count + 1 })

end IdSource

end ServiceRegistry
