import ServiceRegistry.Text.Cut
import ServiceRegistry.Url.Label
import ServiceRegistry.Url.Percent

/-! # Hosts of URLs

A host is a domain, an IPv4 address, an IPv6 address, or, in a URL whose scheme is not special, a
text of its own. A text whose last dotted part is a number is read as an IPv4 address of one to four
numbers, each decimal, octal after a leading 0 or hexadecimal after `0x`, the last of which fills
the bytes that are left. An IPv6 address stands in brackets and is written with its longest run of
at least two zero pieces left out.

Domains are limited to ASCII. A domain with other characters, also percent-encoded ones, is refused
as invalid; the mapping of such a domain to labels that start with `xn--`, which a reader of
international domains makes, is left out. Labels that are given in that form are checked. -/

namespace ServiceRegistry.Url

/-- Why a text is no URL. -/
inductive Error where
  | emptyHost
  | invalidPort
  | invalidIpv4
  | invalidIpv6
  /-- The host is no domain, internationalised or not. -/
  | invalidDomain
  /-- A character may not stand in a host of its own kind. -/
  | invalidHostCharacter
  | noScheme
deriving DecidableEq, Repr

/-- The wording of an error. -/
def Error.message : Error → String
  | .emptyHost => "empty host"
  | .invalidPort => "invalid port number"
  | .invalidIpv4 => "invalid IPv4 address"
  | .invalidIpv6 => "invalid IPv6 address"
  | .invalidDomain => "invalid international domain name"
  | .invalidHostCharacter => "invalid domain character"
  | .noScheme => "relative URL without a base"

/-- The host of a URL. -/
inductive Host where
  | domain (name : String)
  /-- An address of 32 bits. -/
  | ipv4 (address : Nat)
  /-- An address of eight pieces of 16 bits. -/
  | ipv6 (pieces : List Nat)
  | opaqueText (text : String)
deriving DecidableEq, Repr

namespace Host

/-! ### Numbers -/

/-- The value of digits in a base. -/
def number? (base : Nat) (cs : List Char) : Option Nat :=
  cs.foldlM (fun n c => do
    let d ← Bytes.hexValue? c
    if d.val < base then some (n * base + d.val) else none) 0

/-- A part of an IPv4 address: decimal, octal after `0`, hexadecimal after `0x`. -/
def ipv4Number? : List Char → Option Nat
  | [] => none
  | '0' :: 'x' :: cs => number? 16 cs
  | '0' :: 'X' :: cs => number? 16 cs
  | '0' :: c :: cs => number? 8 (c :: cs)
  | cs => number? 10 cs

/-- The dotted parts, less an empty last one. -/
def dottedParts (cs : List Char) : List (List Char) :=
  let parts := Text.split '.' cs
  if parts.getLast? = some [] then parts.dropLast else parts

/-- Is the text to be read as an IPv4 address? -/
def endsInNumber (cs : List Char) : Bool :=
  match (dottedParts cs).getLast? with
  | none => false
  | some last => (!last.isEmpty && last.all Char.isDigit) || (ipv4Number? last).isSome

/-- Read an IPv4 address. -/
def readIpv4 (cs : List Char) : Except Error Nat :=
  let parts := dottedParts cs
  match parts.mapM ipv4Number? with
  | none => .error .invalidIpv4
  | some numbers =>
    match numbers.getLast? with
    | none => .error .invalidIpv4
    | some last =>
      let front := numbers.dropLast
      if 4 < parts.length || Nat.pow 256 (4 - front.length) ≤ last || front.any (255 < ·) then
        .error .invalidIpv4
      else .ok ((front.mapIdx fun i n => n * Nat.pow 256 (3 - i)).foldl (· + ·) last)

/-! ### IPv6 -/

/-- A piece of one to four hexadecimal digits. -/
def piece? (cs : List Char) : Option Nat :=
  if 1 ≤ cs.length ∧ cs.length ≤ 4 then number? 16 cs else none

/-- A decimal byte without a leading zero. -/
def decimalByte? (cs : List Char) : Option Nat := do
  if cs.isEmpty || 3 < cs.length || (1 < cs.length && cs.head? = some '0') then none
  let n ← number? 10 cs
  if n < 256 then some n else none

/-- The two pieces that four dotted decimal bytes stand for. -/
def dottedPieces? (cs : List Char) : Option (List Nat) :=
  match (Text.split '.' cs).mapM decimalByte? with
  | some [a, b, c, d] => some [a * 256 + b, c * 256 + d]
  | _ => none

/-- Pieces between colons; the last may be four dotted decimal bytes if `dotted`. -/
def pieces? (dotted : Bool) : List (List Char) → Option (List Nat)
  | [] => some []
  | [last] =>
    match piece? last with
    | some p => some [p]
    | none => if dotted then dottedPieces? last else none
  | part :: parts => do
    let p ← piece? part
    return p :: (← pieces? dotted parts)

/-- What stands before and after the first two colons in a row. -/
def cutAtGap : List Char → List Char × Option (List Char)
  | ':' :: ':' :: rest => ([], some rest)
  | c :: rest =>
    let (before, after) := cutAtGap rest
    (c :: before, after)
  | [] => ([], none)

/-- The parts between colons; nothing has none. -/
def colonParts (cs : List Char) : List (List Char) := if cs.isEmpty then [] else Text.split ':' cs

/-- Read an IPv6 address without brackets. -/
def ipv6? (cs : List Char) : Option (List Nat) :=
  match cutAtGap cs with
  | (all, none) => do
    let ps ← pieces? true (Text.split ':' all)
    if ps.length = 8 then some ps else none
  | (before, some after) => do
    let front ← pieces? false (colonParts before)
    let back ← pieces? true (colonParts after)
    let given := front.length + back.length
    if given ≤ 7 then some (front ++ List.replicate (8 - given) 0 ++ back) else none

/-- How many zeros a list starts with. -/
def leadingZeros (ps : List Nat) : Nat := (ps.takeWhile (· == 0)).length

/-- Where the first of the longest runs of zeros starts, and how long it is. -/
def longestZeros : Nat → List Nat → Nat × Nat
  | _, [] => (0, 0)
  | start, p :: ps =>
    let later := longestZeros (start + 1) ps
    let here := leadingZeros (p :: ps)
    if later.2 ≤ here then (start, here) else later

/-- A piece in lower-case hexadecimal digits. -/
def pieceText (n : Nat) : List Char := Nat.toDigits 16 n

/-- Pieces with colons between them. -/
def piecesText (ps : List Nat) : List Char := [':'].intercalate (ps.map pieceText)

/-- An IPv6 address without brackets. -/
def ipv6Text (ps : List Nat) : List Char :=
  let (start, len) := longestZeros 0 ps
  if len < 2 then piecesText ps
  else piecesText (ps.take start) ++ [':', ':'] ++ piecesText (ps.drop (start + len))

/-! ### Domains and other texts -/

/-- Characters that may not stand in a domain. -/
def isForbiddenInDomain (c : Char) : Bool :=
  c.toNat ≤ 0x20 || c.toNat == 0x7f ||
  ['%', '#', '/', ':', '<', '>', '?', '@', '[', '\\', ']', '^', '|'].contains c

/-- Characters that may not stand in a host that is a text of its own. -/
def isForbiddenInText (c : Char) : Bool :=
  ['\x00', '\t', '\n', '\r', ' ', '#', '/', ':', '<', '>', '?', '@', '[', '\\', ']', '^',
    '|'].contains c

/-- Read a bracketed IPv6 address. -/
def readBracketed (cs : List Char) : Except Error Host :=
  if cs.getLast? = some ']' then
    match ipv6? (cs.drop 1).dropLast with
    | some ps => .ok (.ipv6 ps)
    | none => .error .invalidIpv6
  else .error .invalidIpv6

/-- Read the host of a URL with a special scheme. A domain that is not of ASCII characters is
refused. -/
def read (cs : List Char) : Except Error Host :=
  if cs.head? = some '[' then readBracketed cs
  else
    let bytes := decodeBytes cs
    if bytes.any (0x80 ≤ ·) then .error .invalidDomain
    else
      let name := bytes.map fun b => (Char.ofNat b.toNat).toLower
      if name.any isForbiddenInDomain then .error .invalidDomain
      else if !(Text.split '.' name).all Label.isAllowed then .error .invalidDomain
      else if name.isEmpty then .error .emptyHost
      else if endsInNumber name then (readIpv4 name).map .ipv4
      else .ok (.domain (.ofList name))

/-- Read the host of a URL with another scheme. -/
def readText (cs : List Char) : Except Error Host :=
  if cs.head? = some '[' then readBracketed cs
  else if cs.any isForbiddenInText then .error .invalidHostCharacter
  else .ok (.opaqueText (.ofList (encode controlSet cs)))

/-- Is this the host of nothing? -/
def isEmpty : Host → Bool
  | opaqueText t => t.isEmpty
  | _ => false

/-- A host as it stands in a URL. -/
def text : Host → List Char
  | domain name => name.toList
  | ipv4 n =>
    let bytes := [n / 16777216, n / 65536 % 256, n / 256 % 256, n % 256]
    ['.'].intercalate (bytes.map (Nat.toDigits 10))
  | ipv6 ps => '[' :: ipv6Text ps ++ [']']
  | opaqueText t => t.toList

end Host

end ServiceRegistry.Url
