/-! # JSON strings, written

A JSON string is written between double quotes. Quote and backslash are escaped by a backslash;
backspace, form feed, newline, carriage return and tab have an escape of one letter; the other
characters below U+0020 are written by four hexadecimal digits, and every other character stands for
itself. -/

namespace ServiceRegistry.Json

/-- The lower-case hexadecimal digits of a code below 256, four of them. -/
def hexEscape (n : Nat) : List Char :=
  ['\\', 'u', '0', '0', (n / 16).digitChar, (n % 16).digitChar]

/-- A character as it stands in a JSON string. -/
def escapeChar (c : Char) : List Char :=
  if c = '"' then ['\\', '"']
  else if c = '\\' then ['\\', '\\']
  else if c = '\x08' then ['\\', 'b']
  else if c = '\x0c' then ['\\', 'f']
  else if c = '\n' then ['\\', 'n']
  else if c = '\r' then ['\\', 'r']
  else if c = '\t' then ['\\', 't']
  else if c.toNat < 0x20 then hexEscape c.toNat
  else [c]

/-- The characters of a JSON string. -/
def quote (s : List Char) : List Char := '"' :: s.flatMap escapeChar ++ ['"']

end ServiceRegistry.Json
