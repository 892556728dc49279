/-! # Blank text

The blank characters are those with the Unicode property White_Space. -/

namespace ServiceRegistry.Text

/-- Is the character blank? -/
def isBlank (c : Char) : Bool :=
  (0x9 ≤ c.toNat && c.toNat ≤ 0xd) || c.toNat == 0x20 || c.toNat == 0x85 || c.toNat == 0xa0 ||
  c.toNat == 0x1680 || (0x2000 ≤ c.toNat && c.toNat ≤ 0x200a) || c.toNat == 0x2028 ||
  c.toNat == 0x2029 || c.toNat == 0x202f || c.toNat == 0x205f || c.toNat == 0x3000

/-- Is there nothing but blanks? -/
def allBlank (s : String) : Bool := s.toList.all isBlank

end ServiceRegistry.Text
