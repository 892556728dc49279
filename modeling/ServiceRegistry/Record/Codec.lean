import ServiceRegistry.Record
import ServiceRegistry.Json.Quote
import ServiceRegistry.Json.Read

/-! # The wire form of records

A record travels as a JSON object with the members `serviceName`, `serviceType`, `serviceId`,
`properties` and `staticAnnouncement`. `Record.encode` writes all five, without blanks and with the
properties in key order. `Record.decode` reads more than that: members may come in any order, all
but the name may be absent or null, members of other names are passed over, and a JSON array may
hold the values in the order above, with any number of them missing at the end. A record without an
identity is given a fresh one. -/

namespace ServiceRegistry.Record

open Json (Fault)

/-! ### Fields -/

/-- The members of a record on the wire. -/
inductive Field where
  | name
  | kind
  | id
  | properties
  | isStatic
deriving DecidableEq, Repr

namespace Field

/-- The fields in the order in which they are written. -/
def all : List Field := [name, kind, id, properties, isStatic]

/-- The key of a field. -/
def key : Field → String
  | name => "serviceName"
  | kind => "serviceType"
  | id => "serviceId"
  | properties => "properties"
  | isStatic => "staticAnnouncement"

/-- The field with a given key. -/
def ofKey? (k : String) : Option Field := all.find? (·.key = k)

end Field

/-! ### Writing -/

/-- A text, as a JSON string. -/
def quoteText (s : String) : String := .ofList (Json.quote s.toList)

/-- The properties as a JSON object, without the braces. -/
def propertiesText (es : List (String × String)) : String :=
  ",".intercalate (es.map fun e => quoteText e.1 ++ ":" ++ quoteText e.2)

/-- The value of a field as JSON. -/
def fieldText (r : Record) : Field → String
  | .name => quoteText r.name
  | .kind => r.kind.elim "null" quoteText
  | .id => quoteText r.id.text
  | .properties => "\x7b" ++ propertiesText r.properties.entries ++ "\x7d"
  | .isStatic => if r.isStatic then "true" else "false"

/-- The JSON object of a record. -/
def encodeText (r : Record) : String :=
  "\x7b" ++ ",".intercalate (Field.all.map fun f => quoteText f.key ++ ":" ++ r.fieldText f) ++
    "\x7d"

/-- The wire form of a record. -/
def encode (r : Record) : Bytes := .ofText r.encodeText

/-! ### Errors -/

/-- Why bytes are no record. -/
inductive DecodeError where
  /-- The bytes are no JSON as far as they were read. -/
  | text (fault : Fault)
  /-- A value of another kind stands where a field's value should. -/
  | wrongShape
  | missing (field : Field)
  | duplicate (field : Field)
  | badId
  | invalid (error : Record.Error)
deriving DecidableEq, Repr

/-- The wording of the errors that name what is wrong with a record. -/
def DecodeError.message? : DecodeError → Option String
  | .text _ => none
  | .wrongShape => none
  | .missing f => some ("missing field " ++ "\x60" ++ f.key ++ "\x60")
  | .duplicate f => some ("duplicate field " ++ "\x60" ++ f.key ++ "\x60")
  | .badId => some "UUID parsing failed"
  | .invalid e => some e.message

/-- A reader of JSON bytes as a reader of parts of a record. -/
def liftFault {α : Type} : Except Fault α → Except DecodeError α
  | .ok a => .ok a
  | .error e => .error (.text e)

/-! ### Reading values -/

/-- The error of a value that stands where one of another kind should: a word, a number or a string
is read to its end first, and a number too large for a float is no number. -/
def wrongValue : Bytes → DecodeError
  | [] => .text .ended
  | b :: rest =>
    let afterWord (word : Bytes) : DecodeError :=
      match Json.expect word rest with
      | .ok _ => .wrongShape
      | .error e => .text e
    let afterNumber (bs : Bytes) : DecodeError :=
      match Json.scanNumber bs with
      | .ok (d, _) => if d.isHugeByFactors then .text .malformed else .wrongShape
      | .error [] => .text .ended
      | .error _ => .text .malformed
    if b = 0x6e then afterWord Json.ull
    else if b = 0x74 then afterWord Json.rue
    else if b = 0x66 then afterWord Json.alse
    else if b = 0x2d then afterNumber rest
    else if (Json.digit? b).isSome then afterNumber (b :: rest)
    else if b = 0x22 then
      match Json.readString rest with
      | .ok _ => .wrongShape
      | .error e => .text e
    else if b = 0x5b || b = 0x7b then .wrongShape
    else .text .malformed

/-- A string value. -/
def readText (bs : Bytes) : Except DecodeError (String × Bytes) :=
  match Json.skipBlanks bs with
  | [] => .error (.text .ended)
  | b :: rest =>
    if b = 0x22 then liftFault (Json.readString rest) else .error (wrongValue (b :: rest))

/-- A truth value. -/
def readTruth (bs : Bytes) : Except DecodeError (Bool × Bytes) :=
  match Json.skipBlanks bs with
  | [] => .error (.text .ended)
  | b :: rest =>
    if b = 0x74 then (liftFault (Json.expect Json.rue rest)).map (true, ·)
    else if b = 0x66 then (liftFault (Json.expect Json.alse rest)).map (false, ·)
    else .error (wrongValue (b :: rest))

/-- An identity, as a string value. -/
def readId (bs : Bytes) : Except DecodeError (InstanceId × Bytes) :=
  match readText bs with
  | .error e => .error e
  | .ok (s, rest) =>
    match InstanceId.parse? s with
    | some id => .ok (id, rest)
    | none => .error .badId

/-- A value that may be `null`. -/
def readOptional {α : Type} (read : Bytes → Except DecodeError (α × Bytes)) (bs : Bytes) :
    Except DecodeError (Option α × Bytes) :=
  match Json.skipBlanks bs with
  | [] => .error (.text .ended)
  | b :: rest =>
    if b = 0x6e then (liftFault (Json.expect Json.ull rest)).map (none, ·)
    else (read (b :: rest)).map fun (a, rest) => (some a, rest)

/-- The key of a member and the bytes after it. -/
def memberKey : Bytes → Except DecodeError (String × Bytes)
  | [] => .error (.text .ended)
  | b :: rest =>
    if b = 0x22 then liftFault (Json.readString rest) else .error (.text .malformed)

theorem length_lt_of_memberKey {bs rest : Bytes} {k : String}
    (h : memberKey bs = .ok (k, rest)) : rest.length < bs.length := by
  unfold memberKey at h
  split at h
  · simp at h
  · split at h
    · unfold liftFault at h
      split at h
      · next hr =>
        simp only [Except.ok.injEq] at h
        subst h
        have := Json.length_lt_of_readString hr
        simp only [List.length_cons]
        omega
      · simp at h
    · simp at h

/-- The bytes after the colon that follows a key. -/
def afterColon (bs : Bytes) : Except DecodeError Bytes :=
  match Json.skipBlanks bs with
  | [] => .error (.text .ended)
  | c :: rest => if c = 0x3a then .ok rest else .error (.text .malformed)

theorem length_lt_of_afterColon {bs rest : Bytes} (h : afterColon bs = .ok rest) :
    rest.length < bs.length := by
  unfold afterColon at h
  have hb := Json.length_skipBlanks_le bs
  split at h
  · simp at h
  · next hs =>
    rw [hs] at hb
    simp only [List.length_cons] at hb
    split at h
    · simp only [Except.ok.injEq] at h
      rw [← h]
      omega
    · simp at h

/-- The key of the next member of an object and the bytes after it, or the bytes after the end of
the object. `first` says that no member came before. -/
def readKey (first : Bool) (bs : Bytes) : Except DecodeError (Option String × Bytes) :=
  match Json.skipBlanks bs with
  | [] => .error (.text .ended)
  | b :: rest =>
    if b = 0x7d then .ok (none, rest)
    else if first then (memberKey (b :: rest)).map fun (k, rest) => (some k, rest)
    else if b = 0x2c then
      (memberKey (Json.skipBlanks rest)).map fun (k, rest) => (some k, rest)
    else .error (.text .malformed)

theorem length_lt_of_readKey {first : Bool} {bs rest : Bytes} {k : Option String}
    (h : readKey first bs = .ok (k, rest)) : rest.length < bs.length := by
  have key {bs : Bytes}
      (h : ((memberKey bs).map fun (k, rest) => (some k, rest)) = .ok (k, rest)) :
      rest.length < bs.length := by
    cases hm : memberKey bs with
    | error e => simp [hm, Except.map] at h
    | ok p =>
      simp only [hm, Except.map, Except.ok.injEq, Prod.mk.injEq] at h
      rw [← h.2]
      exact length_lt_of_memberKey hm
  unfold readKey at h
  have hb := Json.length_skipBlanks_le bs
  split at h
  · simp at h
  · next b r hbs =>
    rw [hbs] at hb
    simp only [List.length_cons] at hb
    split at h
    · simp only [Except.ok.injEq, Prod.mk.injEq] at h
      rw [← h.2]
      omega
    · split at h
      · have := key h
        simp only [List.length_cons] at this
        omega
      · split at h
        · have h₁ := key h
          have h₂ := Json.length_skipBlanks_le r
          omega
        · simp at h

/-- The string after a colon. -/
def memberText (bs : Bytes) : Except DecodeError (String × Bytes) :=
  match afterColon bs with
  | .error e => .error e
  | .ok rest => readText rest

theorem length_le_of_memberText {bs rest : Bytes} {s : String}
    (h : memberText bs = .ok (s, rest)) : rest.length ≤ bs.length := by
  unfold memberText at h
  split at h
  · simp at h
  · next r hc =>
    have h₁ := length_lt_of_afterColon hc
    have h₂ := Json.length_skipBlanks_le r
    unfold readText at h
    split at h
    · simp at h
    · next hs =>
      rw [hs] at h₂
      split at h
      · unfold liftFault at h
        split at h
        · next hr =>
          simp only [Except.ok.injEq] at h
          subst h
          have := Json.length_lt_of_readString hr
          simp only [List.length_cons] at h₂
          omega
        · simp at h
      · simp at h

/-- The members of an object of strings, after those already read; of two with one key the later
counts. -/
def readProperties (first : Bool) (known : Dict String) (bs : Bytes) :
    Except DecodeError (Dict String × Bytes) :=
  match hk : readKey first bs with
  | .error e => .error e
  | .ok (none, rest) => .ok (known, rest)
  | .ok (some k, rest) =>
    match hv : memberText rest with
    | .error e => .error e
    | .ok (v, rest') =>
      have := length_lt_of_readKey hk
      have := length_le_of_memberText hv
      readProperties false (known.insert k v) rest'
termination_by bs.length
decreasing_by omega

/-- An object of strings. -/
def readObject (bs : Bytes) : Except DecodeError (Dict String × Bytes) :=
  match Json.skipBlanks bs with
  | [] => .error (.text .ended)
  | b :: rest =>
    if b = 0x7b then readProperties true .empty rest else .error (wrongValue (b :: rest))

/-! ### Reading records -/

/-- The fields read so far; the outer option says whether the field was given, the inner one
whether its value was other than `null`. -/
structure Draft where
  name : Option String := none
  kind : Option (Option String) := none
  id : Option (Option InstanceId) := none
  properties : Option (Option (Dict String)) := none
  isStatic : Option (Option Bool) := none

namespace Draft

/-- Was the field given? -/
def has (d : Draft) : Field → Bool
  | .name => d.name.isSome
  | .kind => d.kind.isSome
  | .id => d.id.isSome
  | .properties => d.properties.isSome
  | .isStatic => d.isStatic.isSome

/-- Read the value of a field. -/
def readField (d : Draft) (f : Field) (bs : Bytes) : Except DecodeError (Draft × Bytes) :=
  match f with
  | .name => (readText bs).map fun (v, rest) => ({ d with name := some v }, rest)
  | .kind => (readOptional readText bs).map fun (v, rest) => ({ d with kind := some v }, rest)
  | .id => (readOptional readId bs).map fun (v, rest) => ({ d with id := some v }, rest)
  | .properties =>
    (readOptional readObject bs).map fun (v, rest) => ({ d with properties := some v }, rest)
  | .isStatic =>
    (readOptional readTruth bs).map fun (v, rest) => ({ d with isStatic := some v }, rest)

/-- The record that was read; `fresh` is its identity if none was given. -/
def finish (d : Draft) (fresh : InstanceId) : Except DecodeError Record :=
  match d.name with
  | none => .error (.missing .name)
  | some name =>
    match Record.make name d.kind.join (d.id.join.getD fresh) (d.properties.join.getD .empty)
      (d.isStatic.join.getD false) with
    | .ok r => .ok r
    | .error e => .error (.invalid e)

end Draft

/-- The rest of a member after its key: a field that was not given yet, or one that is passed over.
That a field is given twice is seen at its key. -/
def readMember (d : Draft) (k : String) (bs : Bytes) : Except DecodeError (Draft × Bytes) :=
  match Field.ofKey? k with
  | some f => if d.has f then .error (.duplicate f) else do d.readField f (← afterColon bs)
  | none => do
    let bs ← afterColon bs
    (liftFault (Json.skipValue [] bs)).map (d, ·)

/-- The members of a record's object. Each takes at least one byte, so `fuel` need not exceed the
number of bytes. -/
def readMembers (fuel : Nat) (first : Bool) (d : Draft) (bs : Bytes) :
    Except DecodeError (Draft × Bytes) :=
  match fuel with
  | 0 => .error (.text .ended)
  | fuel + 1 => do
    match ← readKey first bs with
    | (none, rest) => return (d, rest)
    | (some k, rest) =>
      let (d, rest) ← readMember d k rest
      readMembers fuel false d rest

/-- The values of a record's array, for the fields that are left. -/
def readElements (first : Bool) (d : Draft) (fields : List Field) (bs : Bytes) :
    Except DecodeError (Draft × Bytes) :=
  match Json.skipBlanks bs, fields with
  | [], _ => .error (.text .ended)
  | b :: rest, [] => if b = 0x5d then .ok (d, rest) else .error (.text .malformed)
  | b :: rest, f :: fields =>
    let value (bs : Bytes) : Except DecodeError (Draft × Bytes) := do
      let (d, rest) ← d.readField f bs
      readElements false d fields rest
    if b = 0x5d then if f = .name then .error .wrongShape else .ok (d, rest)
    else if first then value (b :: rest)
    else if b = 0x2c then
      match Json.skipBlanks rest with
      | [] => .error (.text .ended)
      | c :: rest => if c = 0x5d then .error (.text .malformed) else value (c :: rest)
    else .error (.text .malformed)

/-- Read a record, and give it the identity `fresh` if it has none of its own. -/
def decode (fresh : InstanceId) (bs : Bytes) : Except DecodeError Record := do
  let (d, rest) ←
    match Json.skipBlanks bs with
    | [] => .error (.text .ended)
    | b :: rest =>
      if b = 0x7b then readMembers (rest.length + 1) true {} rest
      else if b = 0x5b then readElements true {} Field.all rest
      else .error (wrongValue (b :: rest))
  let r ← d.finish fresh
  match Json.skipBlanks rest with
  | [] => return r
  | _ :: _ => .error (.text .malformed)

end ServiceRegistry.Record
