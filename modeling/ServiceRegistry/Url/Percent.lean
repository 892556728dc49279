import ServiceRegistry.Text.Bytes

/-! # Percent-encoding

A character that may not stand in a component of a URL is written as the bytes of its UTF-8 form,
each as a percent sign and two upper-case hexadecimal digits. Which characters these are depends on
the component; beyond ASCII all of them are. -/

namespace ServiceRegistry.Url

/-- Characters that may not stand in a component; those beyond ASCII need not be counted. -/
abbrev EncodeSet := Char → Bool

/-- C0 controls and delete. -/
def controlSet : EncodeSet := fun c => c.toNat < 0x20 || c.toNat == 0x7f

/-- What is encoded in a fragment. -/
def fragmentSet : EncodeSet := fun c => controlSet c || [' ', '"', '<', '>', '\x60'].contains c

/-- What is encoded in a query. -/
def querySet : EncodeSet := fun c => controlSet c || [' ', '"', '#', '<', '>'].contains c

/-- What is encoded in the query of a URL with a special scheme. -/
def specialQuerySet : EncodeSet := fun c => querySet c || c == '\''

/-- What is encoded in a path. -/
def pathSet : EncodeSet := fun c => fragmentSet c || ['#', '?', '\x7b', '\x7d'].contains c

/-- What is encoded in a user name or password. -/
def userSet : EncodeSet := fun c =>
  pathSet c || ['/', ':', ';', '=', '@', '[', '\\', ']', '^', '|'].contains c

/-- The upper-case hexadecimal digit of a value. -/
def upperDigit (n : Nat) : Char := (n.digitChar).toUpper

/-- A byte as a percent sign and two digits. -/
def encodeByte (b : UInt8) : List Char :=
  ['%', upperDigit (b.toNat / 16), upperDigit (b.toNat % 16)]

/-- A character as it stands in a component. -/
def encodeChar (set : EncodeSet) (c : Char) : List Char :=
  if 0x80 ≤ c.toNat || set c then (String.utf8EncodeChar c).flatMap encodeByte else [c]

/-- Text as it stands in a component. -/
def encode (set : EncodeSet) (cs : List Char) : List Char := cs.flatMap (encodeChar set)

/-- The bytes of a text in which percent signs with two digits stand for bytes. -/
def decodeBytes : List Char → Bytes
  | '%' :: a :: b :: rest =>
    match Bytes.hexValue? a, Bytes.hexValue? b with
    | some hi, some lo => UInt8.ofNat (hi.val * 16 + lo.val) :: decodeBytes rest
    | _, _ => 0x25 :: decodeBytes (a :: b :: rest)
  | c :: rest => String.utf8EncodeChar c ++ decodeBytes rest
  | [] => []

end ServiceRegistry.Url
