/-! # Text as bytes

Payloads are lists of bytes. `Bytes.ofText` is the UTF-8 form of a text and `Bytes.text?` reads it
back; `text?_ofText` says that nothing is lost. -/

namespace ServiceRegistry

/-- A payload, byte by byte. -/
abbrev Bytes := List UInt8

namespace Bytes

/-- The UTF-8 form of a text. -/
def ofText (s : String) : Bytes := s.toByteArray.data.toList

/-- The text that the bytes are the UTF-8 form of, if they are one. -/
def text? (b : Bytes) : Option String := String.fromUTF8? ⟨b.toArray⟩

theorem text?_ofText (s : String) : text? (ofText s) = some s := by
  have h : (⟨(ofText s).toArray⟩ : ByteArray) = s.toByteArray := by simp [ofText]
  unfold text?
  rw [h]
  simp [String.fromUTF8?, s.isValidUTF8, String.fromUTF8]

/-- The last hexadecimal digit of a number. -/
def nibble (n : Nat) : Fin 16 := ⟨n % 16, Nat.mod_lt n (Nat.zero_lt_succ 15)⟩

/-- The value of a hexadecimal digit of either case. -/
def hexValue? (c : Char) : Option (Fin 16) :=
  if '0' ≤ c ∧ c ≤ '9' then some (nibble (c.toNat - '0'.toNat))
  else if 'a' ≤ c ∧ c ≤ 'f' then some (nibble (c.toNat - 'a'.toNat + 10))
  else if 'A' ≤ c ∧ c ≤ 'F' then some (nibble (c.toNat - 'A'.toNat + 10))
  else none

/-- The lower-case hexadecimal digit of a value. -/
def hexDigit (d : Fin 16) : Char :=
  if d.val < 10 then Char.ofNat ('0'.toNat + d.val) else Char.ofNat ('a'.toNat + d.val - 10)

@[simp] theorem hexValue?_hexDigit (d : Fin 16) : hexValue? (hexDigit d) = some d := by
  revert d; decide

/-- Two lower-case hexadecimal digits a byte. -/
def hex (b : Bytes) : String :=
  String.ofList <| b.flatMap fun x =>
    [hexDigit (nibble (x.toNat / 16)), hexDigit (nibble x.toNat)]

/-- Read two hexadecimal digits a byte. -/
def ofHex? (s : String) : Option Bytes :=
  let rec pairs : List Char → Option Bytes
    | [] => some []
    | [_] => none
    | a :: b :: rest => do
      let hi ← hexValue? a
      let lo ← hexValue? b
      return UInt8.ofNat (hi.val * 16 + lo.val) :: (← pairs rest)
  pairs s.toList

end Bytes

end ServiceRegistry
