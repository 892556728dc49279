import ServiceRegistry.Toml.Number
import ServiceRegistry.Toml.Text

/-! # Statements of a TOML document

A document is a sequence of statements, one in a line: a value under a path of keys, or a header
that names a table or one more table of a list. -/

namespace ServiceRegistry.Toml

/-! ### Values -/

/-- Drop a word from the start. -/
def dropWord? : List Char → List Char → Option (List Char)
  | [], cs => some cs
  | _ :: _, [] => none
  | w :: ws, c :: cs => if w = c then dropWord? ws cs else none

/-- Read a value that has no values in it. -/
def scalar? (cs : List Char) : Option (Value × List Char) :=
  match cs with
  | [] => none
  | c :: _ =>
    if c = '"' ∨ c = '\'' then (text? cs).map fun (s, rest) => (.text s, rest)
    else if c = 't' then (dropWord? "true".toList cs).map (.truth true, ·)
    else if c = 'f' then (dropWord? "false".toList cs).map (.truth false, ·)
    else
      match date? cs with
      | some rest => some (.date, rest)
      | none => number? cs

mutual

/-- Read a value, nested to a depth. -/
def value : (fuel depth : Nat) → List Char → Option (Value × List Char)
  | 0, _, _ => none
  | n + 1, depth, cs =>
    match cs with
    | '[' :: rest => do
      if depthLimit ≤ depth + 1 then none
      let (vs, rest) ← elements n (depth + 1) rest
      return (.list false vs, rest)
    | '\x7b' :: rest => do
      if depthLimit ≤ depth + 1 then none
      match skipBlanks rest with
      | '\x7d' :: rest => return (.table .inline [], rest)
      | rest =>
        let (es, rest) ← members n (depth + 1) [] rest
        return (.table .inline es, rest)
    | cs => scalar? cs

/-- Read the elements of a list up to its end. -/
def elements : (fuel depth : Nat) → List Char → Option (List Value × List Char)
  | 0, _, _ => none
  | n + 1, depth, cs => do
    match ← skipLines (cs.length + 1) cs with
    | ']' :: rest => return ([], rest)
    | cs =>
      let (v, rest) ← value n depth cs
      match ← skipLines (rest.length + 1) rest with
      | ',' :: rest =>
        let (vs, rest) ← elements n depth rest
        return (v :: vs, rest)
      | ']' :: rest => return ([v], rest)
      | _ => none

/-- Read the entries of a table in braces up to its end. -/
def members : (fuel depth : Nat) → Entries → List Char → Option (Entries × List Char)
  | 0, _, _, _ => none
  | n + 1, depth, es, cs => do
    let ((path, key), rest) ← path? cs
    match rest with
    | '=' :: rest =>
      let (v, rest) ← value n depth (skipBlanks rest)
      let es ← es.put path key v
      match skipBlanks rest with
      | ',' :: rest => members n depth es rest
      | '\x7d' :: rest => return (es, rest)
      | _ => none
    | _ => none

end

/-! ### Lines -/

/-- A statement. -/
inductive Statement where
  | entry (path : List String) (key : String) (v : Value)
  | header (path : List String) (key : String)
  | listHeader (path : List String) (key : String)

/-- What follows the end of a line. -/
def lineEnd? (cs : List Char) : Option (List Char) :=
  match skipComment (skipBlanks cs) with
  | [] => some []
  | rest => newline? rest

/-- Read a statement up to the end of its line. -/
def statement? (cs : List Char) : Option (Statement × List Char) :=
  match cs with
  | '[' :: '[' :: rest => do
    let ((path, key), rest) ← path? rest
    match rest with
    | ']' :: ']' :: rest => return (.listHeader path key, ← lineEnd? rest)
    | _ => none
  | '[' :: rest => do
    let ((path, key), rest) ← path? rest
    match rest with
    | ']' :: rest => return (.header path key, ← lineEnd? rest)
    | _ => none
  | cs => do
    let ((path, key), rest) ← path? cs
    match rest with
    | '=' :: rest =>
      let (v, rest) ← value (2 * rest.length + 2) 0 (skipBlanks rest)
      return (.entry path key v, ← lineEnd? rest)
    | _ => none

/-- Read statements up to the end of the document. -/
def statements : (fuel : Nat) → List Char → Option (List Statement)
  | 0, _ => none
  | n + 1, cs => do
    match skipBlanks cs with
    | [] => return []
    | c :: rest =>
      if c = '#' ∨ c = '\n' ∨ c = '\r' then statements n (← lineEnd? (c :: rest))
      else
        let (s, rest) ← statement? (c :: rest)
        return s :: (← statements n rest)

end ServiceRegistry.Toml
