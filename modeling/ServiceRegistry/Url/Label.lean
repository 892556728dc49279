import ServiceRegistry.Text.Punycode
import ServiceRegistry.Url.Label.Alphabet

/-! # Labels of domains

A label that starts with `xn--` stands for a text with characters beyond ASCII, in punycode. Such a
label is refused if it does not read as punycode, if its text is of ASCII characters alone, if a
character of the text may not stand in a label, or if a mark comes first. Whether marks could be
joined to the characters before them, and in which direction a text runs, is not looked at. -/

namespace ServiceRegistry.Url.Label

/-- What every international label starts with. -/
def internationalMark : List Char := "xn--".toList

/-- May a text be that of an international label? -/
def isText : List Char → Bool
  | [] => false
  | c :: cs =>
    !isMark c && (c :: cs).any (0x80 ≤ ·.toNat) &&
      (c :: cs).all fun c => c.toNat < 0x80 || isLetter c || isMark c

/-- May a label of lower-case ASCII characters stand in a domain? -/
def isAllowed (label : List Char) : Bool :=
  label.take 4 ≠ internationalMark || (Text.Punycode.decode? (label.drop 4)).any isText

end ServiceRegistry.Url.Label
