/-! # Decimal numbers

Numbers as they are written: digits and a power of ten. -/

namespace ServiceRegistry

/-- The number `digits · 10 ^ exponent`, without its sign. -/
structure Decimal where
  digits : Nat
  exponent : Int
deriving DecidableEq, Repr

namespace Decimal

/-- Is the number so large that the nearest binary floating-point number is infinite? -/
def isHuge (d : Decimal) : Bool :=
  let places := ((toString d.digits).length : Int) + d.exponent
  if d.digits = 0 ∨ places < 300 then false
  else if 320 < places then true
  else
    let limit := Nat.pow 2 1024 - Nat.pow 2 970
    if 0 ≤ d.exponent then limit ≤ d.digits * Nat.pow 10 d.exponent.toNat
    else limit * Nat.pow 10 (-d.exponent).toNat ≤ d.digits

/-- The nearest number of at most 53 binary digits; a tie goes to the even one. -/
def round53 (n : Nat) : Nat :=
  let unit := Nat.pow 2 (n.log2 - 52)
  let q := n / unit
  let r := n % unit
  if 2 * r < unit ∨ (2 * r = unit ∧ q % 2 = 0) then q * unit else (q + 1) * unit

/-- Is the number so large that it becomes infinite if the digits and the power of ten are rounded
before they are multiplied? Near the limit this and `isHuge` may differ. -/
def isHugeByFactors (d : Decimal) : Bool :=
  if d.digits = 0 ∨ d.exponent < 0 then false
  else if 308 < d.exponent then true
  else
    Nat.pow 2 1024 - Nat.pow 2 970 ≤
      round53 d.digits * round53 (Nat.pow 10 d.exponent.toNat)

end Decimal

end ServiceRegistry
