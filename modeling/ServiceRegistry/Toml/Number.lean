import ServiceRegistry.Decimal
import ServiceRegistry.Toml.Value

/-! # Numbers and dates in TOML

A number is decimal with an optional sign and no leading zeros, or hexadecimal, octal or binary
after `0x`, `0o` or `0b`; single underscores may stand between digits. An integer has 64 bits. A
number with a fraction or an exponent is a floating-point number. A date and a time of day must
exist. -/

namespace ServiceRegistry.Toml

/-! ### Digits -/

/-- The value of a digit in a base. -/
def digitIn? (base : Nat) (c : Char) : Option Nat :=
  let value :=
    if c.isDigit then c.toNat - '0'.toNat
    else if 'a' ≤ c ∧ c ≤ 'f' then c.toNat - 'a'.toNat + 10
    else if 'A' ≤ c ∧ c ≤ 'F' then c.toNat - 'A'.toNat + 10
    else base
  if value < base then some value else none

/-- Read more digits, each after an optional underscore: their value after `acc`, their number after
`count`, and the rest. -/
def moreDigits (base acc count : Nat) : List Char → Option ((Nat × Nat) × List Char)
  | '_' :: c :: rest => do
    let d ← digitIn? base c
    moreDigits base (acc * base + d) (count + 1) rest
  | ['_'] => none
  | c :: rest =>
    match digitIn? base c with
    | some d => moreDigits base (acc * base + d) (count + 1) rest
    | none => some ((acc, count), c :: rest)
  | [] => some ((acc, count), [])

/-- Read at least one digit. -/
def digits? (base : Nat) : List Char → Option ((Nat × Nat) × List Char)
  | c :: rest => do
    let d ← digitIn? base c
    moreDigits base d 1 rest
  | [] => none

/-- A number of decimal digits. -/
def fixed? (count : Nat) (cs : List Char) : Option (Nat × List Char) :=
  let (ds, rest) := cs.splitAt count
  if ds.length = count ∧ ds.all Char.isDigit then
    some (ds.foldl (fun n c => n * 10 + (c.toNat - '0'.toNat)) 0, rest)
  else none

/-- Read a sign: is it a minus? -/
def sign : List Char → Bool × List Char
  | '+' :: rest => (false, rest)
  | '-' :: rest => (true, rest)
  | cs => (false, cs)

/-! ### Numbers -/

/-- The numbers below this one and not below its negative fit into 64 bits. -/
def integerLimit : Int := 9223372036854775808

/-- An integer, if 64 bits hold it. -/
def integer? (n : Int) : Option Value :=
  if -integerLimit ≤ n ∧ n < integerLimit then some (.integer n) else none

/-- Read the digits of a whole number: a zero stands alone. -/
def whole? : List Char → Option ((Nat × Nat) × List Char)
  | '0' :: rest => some ((0, 1), rest)
  | cs => digits? 10 cs

/-- Read an exponent after its letter. -/
def exponent? (cs : List Char) : Option (Int × List Char) := do
  let (isNegative, cs) := sign cs
  let ((n, _), rest) ← digits? 10 cs
  return (if isNegative then -(n : Int) else n, rest)

/-- A floating-point number; above zero it must not be too large. -/
def float? (isNegative : Bool) (d : Decimal) : Option Value :=
  if d.isHuge ∧ !isNegative then none else some .float

/-- Read what may follow a whole number: a fraction and an exponent. -/
def afterWhole (isNegative : Bool) (n : Nat) : List Char → Option (Value × List Char)
  | '.' :: rest => do
    let ((m, count), rest) ← digits? 10 rest
    let digits := n * Nat.pow 10 count + m
    match rest with
    | c :: more =>
      if c = 'e' ∨ c = 'E' then
        let (e, rest) ← exponent? more
        return (← float? isNegative ⟨digits, e - count⟩, rest)
      else return (← float? isNegative ⟨digits, -count⟩, rest)
    | [] => return (← float? isNegative ⟨digits, -count⟩, [])
  | c :: rest =>
    if c = 'e' ∨ c = 'E' then do
      let (e, rest) ← exponent? rest
      return (← float? isNegative ⟨n, e⟩, rest)
    else (integer? (if isNegative then -(n : Int) else n)).map (·, c :: rest)
  | [] => (integer? (if isNegative then -(n : Int) else n)).map (·, [])

/-- Read an integer in another base after its mark. -/
def inBase (base : Nat) (cs : List Char) : Option (Value × List Char) := do
  let ((n, _), rest) ← digits? base cs
  return (← integer? n, rest)

/-- Read a number. -/
def number? (cs : List Char) : Option (Value × List Char) :=
  match cs with
  | '0' :: 'x' :: rest => inBase 16 rest
  | '0' :: 'o' :: rest => inBase 8 rest
  | '0' :: 'b' :: rest => inBase 2 rest
  | cs =>
    let (isNegative, cs) := sign cs
    match cs with
    | 'i' :: 'n' :: 'f' :: rest => some (.float, rest)
    | 'n' :: 'a' :: 'n' :: rest => some (.float, rest)
    | cs => do
      let ((n, _), rest) ← whole? cs
      afterWhole isNegative n rest

/-! ### Dates -/

/-- Is it a leap year? -/
def isLeap (year : Nat) : Bool := year % 4 = 0 && (year % 100 ≠ 0 || year % 400 = 0)

/-- The number of days of a month. -/
def daysIn (year month : Nat) : Nat :=
  if month = 2 then if isLeap year then 29 else 28
  else if month ∈ [4, 6, 9, 11] then 30 else 31

/-- Read a date. -/
def calendarDate? (cs : List Char) : Option (List Char) := do
  let (year, rest) ← fixed? 4 cs
  match rest with
  | '-' :: rest =>
    let (month, rest) ← fixed? 2 rest
    match rest with
    | '-' :: rest =>
      let (day, rest) ← fixed? 2 rest
      if 1 ≤ month ∧ month ≤ 12 ∧ 1 ≤ day ∧ day ≤ daysIn year month then some rest else none
    | _ => none
  | _ => none

/-- Read a time of day up to its minutes. -/
def hourMinute? (cs : List Char) : Option (List Char) := do
  let (hour, rest) ← fixed? 2 cs
  match rest with
  | ':' :: rest =>
    let (minute, rest) ← fixed? 2 rest
    if hour ≤ 23 ∧ minute ≤ 59 then some rest else none
  | _ => none

/-- Read a time of day; its last minute may have a leap second. -/
def timeOfDay? (cs : List Char) : Option (List Char) := do
  match ← hourMinute? cs with
  | ':' :: rest =>
    let (second, rest) ← fixed? 2 rest
    if 60 < second then none
    else
      match rest with
      | '.' :: rest =>
        let (fraction, rest) := rest.span Char.isDigit
        if fraction.isEmpty then none else some rest
      | rest => some rest
  | _ => none

/-- Read an offset from universal time, if there is one. -/
def offset? : List Char → Option (List Char)
  | 'Z' :: rest => some rest
  | 'z' :: rest => some rest
  | '+' :: rest => hourMinute? rest
  | '-' :: rest => hourMinute? rest
  | rest => some rest

/-- Read a date, a time of day, or both. -/
def date? (cs : List Char) : Option (List Char) :=
  match calendarDate? cs with
  | none => timeOfDay? cs
  | some rest =>
    match rest with
    | c :: time =>
      if c = 'T' ∨ c = 't' ∨ c = ' ' then
        match timeOfDay? time with
        | some rest => offset? rest
        | none => some (c :: time)
      else some (c :: time)
    | [] => some []

end ServiceRegistry.Toml
