import ServiceRegistry.Url.Host

/-! # URLs

`Url.parse` reads an absolute URL by the rules of the URL standard and `Url.text` writes it. Blanks
and controls at both ends are dropped, and so are tabs and line ends anywhere. The schemes `http`,
`https`, `ws`, `wss`, `ftp` and `file` are special: a backslash counts as a slash, the host is a
domain or an address, the port of the scheme is left out, and the path is never empty. Segments `.`
and `..` of a path are resolved. -/

namespace ServiceRegistry

namespace Url

/-! ### Schemes -/

/-- The kinds of schemes. -/
inductive SchemeKind where
  | file
  | special
  | other
deriving DecidableEq, Repr

/-- The kind of a scheme. -/
def SchemeKind.of (scheme : String) : SchemeKind :=
  if scheme = "file" then .file
  else if ["http", "https", "ws", "wss", "ftp"].contains scheme then .special
  else .other

/-- Is a backslash a slash? -/
def SchemeKind.isSpecial : SchemeKind → Bool
  | .other => false
  | _ => true

/-- The port that is left out for a scheme. -/
def defaultPort? (scheme : String) : Option Nat :=
  if scheme = "http" ∨ scheme = "ws" then some 80
  else if scheme = "https" ∨ scheme = "wss" then some 443
  else if scheme = "ftp" then some 21
  else none

/-- May a character stand in a scheme after its first letter? -/
def isSchemeChar (c : Char) : Bool := c.isAlphanum || c == '+' || c == '-' || c == '.'

/-- The scheme in lower case and what follows its colon. -/
def cutScheme? (cs : List Char) : Option (String × List Char) :=
  match cs with
  | [] => none
  | c :: _ =>
    if !c.isAlpha then none
    else
      match cs.dropWhile isSchemeChar with
      | ':' :: rest => some (.ofList ((cs.takeWhile isSchemeChar).map Char.toLower), rest)
      | _ => none

/-! ### Paths -/

/-- The path of a URL: segments that follow slashes, or a text of its own. -/
inductive Route where
  | segments (list : List (List Char))
  | opaqueText (text : List Char)
deriving DecidableEq, Repr

/-- Does the character separate segments? -/
def isSlash (kind : SchemeKind) (c : Char) : Bool := c == '/' || (kind.isSpecial && c == '\\')

/-- The segments between slashes. -/
def splitSegments (kind : SchemeKind) (cs : List Char) : List (List Char) :=
  Text.split '/' (cs.map fun c => if isSlash kind c then '/' else c)

/-- Is it the segment of one dot? -/
def isDot (segment : List Char) : Bool :=
  [".", "%2e"].contains (String.ofList (segment.map Char.toLower))

/-- Is it the segment of two dots? -/
def isDoubleDot (segment : List Char) : Bool :=
  ["..", ".%2e", "%2e.", "%2e%2e"].contains (String.ofList (segment.map Char.toLower))

/-- Is it a drive: a letter with a colon or a bar? -/
def isDrive : List Char → Bool
  | [c, d] => c.isAlpha && (d == ':' || d == '|')
  | _ => false

/-- Is a drive all that stands before a backslash or the end? -/
def startsAtDrive (segment : List Char) : Bool := isDrive (segment.takeWhile (· ≠ '\\'))

/-- The segments before the last, except that a drive stays. -/
def shorten (done : List (List Char)) : List (List Char) :=
  if done.getLast?.any startsAtDrive then done else done.dropLast

/-- Does a character count for nothing wherever it stands: a tab or a line end? -/
def isGap (c : Char) : Bool := c == '\t' || c == '\n' || c == '\r'

/-- The characters that count. -/
def dropGaps (cs : List Char) : List Char := cs.filter fun c => !isGap c

/-- A letter and a colon that a gap parts from more text: the drive, and the text after the gap. -/
def brokenDrive? (segment : List Char) : Option (List Char × List Char) :=
  match segment.dropWhile isGap with
  | [] => none
  | c :: rest =>
    match rest.dropWhile isGap with
    | ':' :: g :: rest =>
      let rest := dropGaps rest
      if c.isAlpha && isGap g && !rest.isEmpty then some ([c, ':'], rest) else none
    | _ => none

/-- Segments that are resolved. -/
structure Resolved where
  segments : List (List Char) := []
  /-- Is the first of them a drive, with nothing in its segment after it? -/
  atDrive : Bool := false

/-- Resolve segments after those already resolved. A drive is read as such only at the front of a
file's path. If it is broken off there, what follows it is a segment, even if it is of dots. -/
def resolve (kind : SchemeKind) : Resolved → List (List Char) → Resolved
  | done, [] => done
  | done, written :: rest =>
    let segment := dropGaps written
    let atFront := kind = .file && done.segments.isEmpty
    let next : Resolved :=
      match if atFront then brokenDrive? written else none with
      | some (drive, more) => { done with segments := [drive, encode pathSet more] }
      | none =>
        if isDoubleDot segment || isDot segment then
          let left := if isDoubleDot segment then shorten done.segments else done.segments
          { done with segments := if rest.isEmpty then left ++ [[]] else left }
        else if atFront && isDrive segment then
          { segments := [segment.take 1 ++ [':']], atDrive := true }
        else { done with segments := done.segments ++ [encode pathSet segment] }
    resolve kind next rest

/-- A path as it stands in a URL. -/
def Route.text : Route → List Char
  | segments list => list.flatMap ('/' :: ·)
  | opaqueText t => t

/-! ### URLs -/

/-- A user name and password. -/
structure User where
  name : List Char := []
  password : List Char := []
deriving DecidableEq, Repr

/-- Is nobody named? -/
def User.isEmpty (u : User) : Bool := u.name.isEmpty && u.password.isEmpty

/-- A user as it stands in a URL. -/
def User.text (u : User) : List Char :=
  if u.isEmpty then []
  else u.name ++ (if u.password.isEmpty then [] else ':' :: u.password) ++ ['@']

end Url

/-- An absolute URL. -/
structure Url where
  scheme : String
  user : Url.User := {}
  host : Option Url.Host := none
  port : Option Nat := none
  path : Url.Route
  query : Option (List Char) := none
  fragment : Option (List Char) := none
deriving DecidableEq, Repr

namespace Url

/-- Write a URL. A path that starts with two slashes must not read as a host. -/
def text (u : Url) : String :=
  let authority : List Char :=
    match u.host with
    | some host =>
      ['/', '/'] ++ u.user.text ++ host.text ++
        (match u.port with | some p => ':' :: Nat.toDigits 10 p | none => [])
    | none => if u.path.text.take 2 = ['/', '/'] then ['/', '.'] else []
  .ofList (u.scheme.toList ++ ':' :: authority ++ u.path.text ++
    (match u.query with | some q => '?' :: q | none => []) ++
    (match u.fragment with | some f => '#' :: f | none => []))

/-! ### Reading the authority -/

/-- What stands before and after the last `@` in the authority, if one stands there. -/
def cutUser (kind : SchemeKind) (cs : List Char) : Option (List Char × List Char) :=
  let authority := cs.takeWhile fun c => !isSlash kind c
  (Text.cutLast '@' authority).map fun (user, host) =>
    (user, host ++ cs.dropWhile fun c => !isSlash kind c)

/-- Read a user name and password. -/
def readUser (cs : List Char) : User :=
  let (name, password) := Text.cut ':' cs
  { name := encode userSet name, password := encode userSet (password.getD []) }

/-- The host ends at a slash, and at a colon outside brackets. -/
def cutHost (kind : SchemeKind) : Bool → List Char → List Char × List Char
  | _, [] => ([], [])
  | inside, c :: cs =>
    if (c == ':' && !inside) || isSlash kind c then ([], c :: cs)
    else
      let inside := if c == '[' then true else if c == ']' then false else inside
      let (host, rest) := cutHost kind inside cs
      (c :: host, rest)

/-- Read a port up to a slash of either kind: `none` if there are no digits. -/
def readPort : Option Nat → List Char → Except Error (Option Nat × List Char)
  | port, [] => .ok (port, [])
  | port, c :: cs =>
    if c.isDigit then
      let value := port.getD 0 * 10 + (c.toNat - '0'.toNat)
      if 65535 < value then .error .invalidPort else readPort (some value) cs
    else if c == '/' || c == '\\' then .ok (port, c :: cs)
    else .error .invalidPort

/-- The segments of a path that follows an authority. -/
def readPath (kind : SchemeKind) (cs : List Char) : Route :=
  match cs with
  | [] => if kind.isSpecial then .segments [[]] else .segments []
  | c :: rest =>
    .segments (resolve kind {} (splitSegments kind (if isSlash kind c then rest else cs))).segments

/-- What the parts of a URL after its scheme are read with: the query and the fragment, which are
cut off first. -/
structure Tail where
  query : Option (List Char)
  fragment : Option (List Char)

/-- Read what follows the two slashes of an authority. -/
def readAuthority (scheme : String) (kind : SchemeKind) (tail : Tail) (cs : List Char) :
    Except Error Url := do
  let ended := tail.query.isSome || tail.fragment.isSome
  let (user, rest) ←
    match cutUser kind cs with
    | none => pure (({} : User), cs)
    | some ([], rest) =>
      let stops := match rest with
        | [] => ended
        | c :: _ => isSlash kind c
      if stops then throw .emptyHost
      pure ({}, rest)
    | some (user, rest) => pure (readUser user, rest)
  let (hostText, rest) := cutHost kind false rest
  if kind.isSpecial && hostText.isEmpty then throw .emptyHost
  let host ← if kind.isSpecial then Host.read hostText else Host.readText hostText
  if host.isEmpty && rest.head? = some ':' then throw .emptyHost
  let (port, rest) ←
    match rest with
    | ':' :: rest => readPort none rest
    | rest => pure (none, rest)
  if host.isEmpty && !user.isEmpty then throw .emptyHost
  return {
    scheme, user, host := some host
    port := if port = defaultPort? scheme then none else port
    path := readPath kind rest, query := tail.query, fragment := tail.fragment }

/-! ### Files -/

/-- A path without the empty segments at its front. -/
def trimSegments : List (List Char) → List (List Char)
  | [] :: s :: rest => trimSegments (s :: rest)
  | list => list

/-- What follows a slash at the front, if one stands there. -/
def afterSlash? (cs : List Char) : Option (List Char) :=
  match cs.dropWhile isGap with
  | [] => none
  | c :: rest => if isSlash .file c then some rest else none

/-- Read what follows the scheme `file`, gaps included. After a host one slash is the start of the
path; where no host stands, or `localhost`, that slash is an empty segment before the path, and a
drive after it is left as it is written. A drive in the place of the host is the start of the path,
and a drive after a host puts the host aside. -/
def readFile (tail : Tail) (cs : List Char) : Except Error Url := do
  let url (host : Option Host) (path : List Char) : Url :=
    let path := resolve .file {} (splitSegments .file path)
    let host := if path.atDrive then none else host
    { scheme := "file", host := some (host.getD (.opaqueText ""))
      path := .segments (trimSegments path.segments), query := tail.query,
      fragment := tail.fragment }
  match afterSlash? cs with
  | none => return url none cs
  | some rest =>
    match afterSlash? rest with
    | none => return url none rest
    | some rest =>
      let hostText := dropGaps (rest.takeWhile fun c => !isSlash .file c)
      let path := rest.dropWhile fun c => !isSlash .file c
      if isDrive hostText then return url none rest
      else if hostText.isEmpty then return url none path
      else
        let host ← Host.read hostText
        if host = .domain "localhost" then return url none path
        else return url (some host) (path.drop 1)

/-! ### Reading URLs -/

/-- Is it a control or a space? -/
def isEdge (c : Char) : Bool := c.toNat ≤ 0x20

/-- The text without controls and spaces at its ends. -/
def trim (cs : List Char) : List Char :=
  ((cs.dropWhile isEdge).reverse.dropWhile isEdge).reverse

/-- Read an absolute URL. -/
def parse (s : String) : Except Error Url :=
  let cs := trim s.toList
  match cutScheme? (dropGaps cs) with
  | none => .error .noScheme
  | some (scheme, _) =>
    let kind := SchemeKind.of scheme
    let (rest, fragment) := Text.cut '#' ((cs.dropWhile (· ≠ ':')).drop 1)
    let (written, query) := Text.cut '?' rest
    let set := if kind.isSpecial then specialQuerySet else querySet
    let tail : Tail :=
      ⟨query.map fun q => encode set (dropGaps q),
        fragment.map fun f => encode fragmentSet (dropGaps f)⟩
    match kind, dropGaps written with
    | .file, _ => readFile tail written
    | .special, rest => readAuthority scheme kind tail (rest.dropWhile (isSlash kind))
    | .other, '/' :: '/' :: rest => readAuthority scheme kind tail rest
    | .other, '/' :: rest =>
      .ok { scheme, path := .segments (resolve kind {} (splitSegments kind rest)).segments,
            query := tail.query, fragment := tail.fragment }
    | .other, rest =>
      .ok { scheme, path := .opaqueText (encode controlSet rest),
            query := tail.query, fragment := tail.fragment }

end Url

end ServiceRegistry
