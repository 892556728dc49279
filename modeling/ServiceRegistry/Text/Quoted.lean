import ServiceRegistry.Text.Unseen

/-! # Quoted text

Messages show a text between double quotes, with the characters that would be lost there escaped. -/

namespace ServiceRegistry

namespace Text

/-- A character as it stands between the quotes of a quoted text: quote, backslash, newline,
carriage return, tab and zero have short escapes, other control characters and those that are not
seen by themselves are written by their hexadecimal value. -/
def escapeChar (c : Char) : List Char :=
  if c = '"' then ['\\', '"']
  else if c = '\\' then ['\\', '\\']
  else if c = '\n' then ['\\', 'n']
  else if c = '\r' then ['\\', 'r']
  else if c = '\t' then ['\\', 't']
  else if c = '\x00' then ['\\', '0']
  else if c.toNat < 0x20 ∨ c.toNat = 0x7f ∨ isUnseen c then
    '\\' :: 'u' :: '\x7b' :: (Nat.toDigits 16 c.toNat ++ ['\x7d'])
  else [c]

/-- A text in double quotes, as messages show it. -/
def quoted (s : String) : String := .ofList ('"' :: s.toList.flatMap escapeChar ++ ['"'])

end Text

end ServiceRegistry
