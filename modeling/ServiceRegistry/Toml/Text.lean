import ServiceRegistry.Text.Bytes

/-! # Texts and keys in TOML

There are four forms of a text: between double quotes with escapes, between single quotes as it
stands, and either of them in triple quotes over several lines. A key is a bare word or a text of
one of the first two forms; keys are joined by dots. Each reader gives what it read and the rest. -/

namespace ServiceRegistry.Toml

/-! ### Characters -/

/-- Is it a blank within a line? -/
def isBlank (c : Char) : Bool := c = ' ' || c = '\t'

/-- What follows the blanks. -/
def skipBlanks (cs : List Char) : List Char := cs.dropWhile isBlank

/-- May the character stand for itself? Of the control characters only the tab may. -/
def isPlain (c : Char) : Bool := c = '\t' || (0x20 ≤ c.toNat && c.toNat ≠ 0x7f)

/-- What follows a line break. -/
def newline? : List Char → Option (List Char)
  | '\n' :: rest => some rest
  | '\r' :: '\n' :: rest => some rest
  | _ => none

/-- What follows a comment, if there is one. -/
def skipComment : List Char → List Char
  | '#' :: rest => rest.dropWhile isPlain
  | cs => cs

/-- What follows blanks and line breaks. -/
def skipSpace : List Char → List Char
  | [] => []
  | '\r' :: '\n' :: rest => skipSpace rest
  | c :: rest => if isBlank c || c = '\n' then skipSpace rest else c :: rest

/-- What follows blanks, comments and line breaks; a comment needs a line break after it. -/
def skipLines : (fuel : Nat) → List Char → Option (List Char)
  | 0, _ => none
  | n + 1, cs =>
    match skipBlanks cs with
    | '#' :: rest => (newline? (skipComment ('#' :: rest))).bind (skipLines n)
    | rest =>
      match newline? rest with
      | some rest => skipLines n rest
      | none => some rest

/-! ### Escapes -/

/-- The character with a code, given by hexadecimal digits. -/
def codePoint? (digits : List Char) : Option Char := do
  let ds ← digits.mapM Bytes.hexValue?
  let n := ds.foldl (fun n d => n * 16 + d.val) 0
  if h : n.isValidChar then some (Char.ofNatAux n h) else none

/-- What a letter after a backslash stands for. -/
def letterEscape? : Char → Option Char
  | 'b' => some '\x08'
  | 't' => some '\t'
  | 'n' => some '\n'
  | 'f' => some '\x0c'
  | 'r' => some '\r'
  | '"' => some '"'
  | '\\' => some '\\'
  | _ => none

/-- A number of characters, if there are as many. -/
def takeExactly? (n : Nat) (cs : List Char) : Option (List Char × List Char) :=
  if (cs.take n).length = n then some (cs.splitAt n) else none

/-- Read an escape after its backslash. -/
def escape? : List Char → Option (Char × List Char)
  | 'u' :: rest => do
    let (digits, rest) ← takeExactly? 4 rest
    return (← codePoint? digits, rest)
  | 'U' :: rest => do
    let (digits, rest) ← takeExactly? 8 rest
    return (← codePoint? digits, rest)
  | c :: rest => (letterEscape? c).map (·, rest)
  | [] => none

/-! ### Texts in one line -/

/-- Read a text with escapes after its opening quote. -/
def quotedText : (fuel : Nat) → List Char → Option (List Char × List Char)
  | 0, _ => none
  | _, [] => none
  | n + 1, c :: rest =>
    if c = '"' then some ([], rest)
    else if c = '\\' then do
      let (e, rest) ← escape? rest
      let (text, rest) ← quotedText n rest
      return (e :: text, rest)
    else if isPlain c then (quotedText n rest).map fun (text, rest) => (c :: text, rest)
    else none

/-- Read a text without escapes after its opening quote. -/
def literalText (cs : List Char) : Option (List Char × List Char) :=
  let (text, rest) := cs.span fun c => isPlain c && c ≠ '\''
  match rest with
  | '\'' :: rest => some (text, rest)
  | _ => none

/-! ### Texts over several lines -/

/-- The end of a text in triple quotes, if it is here: up to two quotes before the last three belong
to the text. -/
def closing? (quote : Char) (cs : List Char) : Option (List Char × List Char) :=
  let count := (cs.takeWhile (· = quote)).length
  if count < 3 then none
  else
    let extra := min 2 (count - 3)
    some (List.replicate extra quote, cs.drop (extra + 3))

/-- Read a text over several lines after its opening quotes; a backslash at the end of a line drops
the space up to the next visible character. -/
def quotedLines : (fuel : Nat) → List Char → Option (List Char × List Char)
  | 0, _ => none
  | _, [] => none
  | n + 1, c :: rest =>
    match closing? '"' (c :: rest), newline? (c :: rest) with
    | some found, _ => some found
    | none, some rest => (quotedLines n rest).map fun (text, rest) => ('\n' :: text, rest)
    | none, none =>
      if c = '\\' then
        match newline? (skipBlanks rest) with
        | some rest => quotedLines n (skipSpace rest)
        | none => do
          let (e, rest) ← escape? rest
          let (text, rest) ← quotedLines n rest
          return (e :: text, rest)
      else if isPlain c then (quotedLines n rest).map fun (text, rest) => (c :: text, rest)
      else none

/-- Read a text over several lines without escapes. -/
def literalLines : (fuel : Nat) → List Char → Option (List Char × List Char)
  | 0, _ => none
  | _, [] => none
  | n + 1, c :: rest =>
    match closing? '\'' (c :: rest), newline? (c :: rest) with
    | some found, _ => some found
    | none, some rest => (literalLines n rest).map fun (text, rest) => ('\n' :: text, rest)
    | none, none =>
      if isPlain c then (literalLines n rest).map fun (text, rest) => (c :: text, rest) else none

/-- A line break right after the opening quotes does not count. -/
def skipFirstBreak (cs : List Char) : List Char := (newline? cs).getD cs

/-- Read a text of any form. -/
def text? (cs : List Char) : Option (String × List Char) :=
  let fuel := cs.length + 1
  let found := match cs with
    | '"' :: '"' :: '"' :: rest => quotedLines fuel (skipFirstBreak rest)
    | '\'' :: '\'' :: '\'' :: rest => literalLines fuel (skipFirstBreak rest)
    | '"' :: rest => quotedText fuel rest
    | '\'' :: rest => literalText rest
    | _ => none
  found.map fun (text, rest) => (.ofList text, rest)

/-! ### Keys -/

/-- May the character stand in a bare key? -/
def isBare (c : Char) : Bool := c.isAlphanum || c = '-' || c = '_'

/-- Read a single key. -/
def key? : List Char → Option (String × List Char)
  | '"' :: rest => (quotedText (rest.length + 1) rest).map fun (text, rest) => (.ofList text, rest)
  | '\'' :: rest => (literalText rest).map fun (text, rest) => (.ofList text, rest)
  | cs =>
    let (word, rest) := cs.span isBare
    if word.isEmpty then none else some (.ofList word, rest)

/-- How many keys a path may have, and how deep values may be nested, at most one less. -/
def depthLimit : Nat := 80

/-- Read keys joined by dots, with blanks around each. -/
def keyPath : (fuel : Nat) → List Char → Option ((List String × String) × List Char)
  | 0, _ => none
  | n + 1, cs => do
    let (key, rest) ← key? (skipBlanks cs)
    match skipBlanks rest with
    | '.' :: rest =>
      let ((path, last), rest) ← keyPath n rest
      return ((key :: path, last), rest)
    | rest => return (([], key), rest)

/-- Read a path of keys: all but the last one, and the last one. -/
def path? (cs : List Char) : Option ((List String × String) × List Char) :=
  keyPath (depthLimit - 1) cs

end ServiceRegistry.Toml
