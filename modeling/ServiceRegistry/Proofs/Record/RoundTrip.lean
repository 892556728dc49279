import ServiceRegistry.Proofs.Json.RoundTrip
import ServiceRegistry.Record.Codec

/-! # Records, written and read back

The wire form of a record reads back as the record (`Record.decode_encode`).  The text that is
written is taken apart in the order in which it is read: strings, properties, the values of the
fields (`readField_fieldText`), and the members of the record's object one after the other
(`readMembers_next`).  The properties come back because a dictionary is what its entries make when
they are put one by one (`Dict.ofList_entries`).  So a record comes through with each of its parts,
and what was read from any payload is what its own wire form says (`Record.codec_is_lossless`). -/

namespace ServiceRegistry.Record

/-! ### Marks -/

theorem ofText_comma : Bytes.ofText "," = [0x2c] := by decide

theorem ofText_colon : Bytes.ofText ":" = [0x3a] := by decide

theorem ofText_open : Bytes.ofText "\x7b" = [0x7b] := by decide

theorem ofText_close : Bytes.ofText "\x7d" = [0x7d] := by decide

/-! ### Strings -/

/-- The bytes of a JSON string after its opening quote. -/
def tailBytes (s : String) : Bytes :=
  (s.toList.flatMap Json.escapeChar).flatMap String.utf8EncodeChar ++ [0x22]

theorem ofText_quoteText (s : String) : Bytes.ofText (quoteText s) = 0x22 :: tailBytes s := by
  rw [quoteText, Bytes.ofText_ofList, Json.quote, List.flatMap_append, List.flatMap_cons,
    List.flatMap_singleton]
  rfl

theorem readString_tailBytes (s : String) (rest : Bytes) :
    Json.readString (tailBytes s ++ rest) = .ok (s, rest) := by
  rw [tailBytes, List.append_assoc, List.singleton_append, Json.readString_escaped]

theorem readText_quoteText (s : String) (rest : Bytes) :
    readText (Bytes.ofText (quoteText s) ++ rest) = .ok (s, rest) := by
  rw [ofText_quoteText, List.cons_append, readText, Json.skipBlanks_of_not_isBlank (by decide)]
  simp [readString_tailBytes, liftFault]

theorem memberKey_quoteText (s : String) (rest : Bytes) :
    memberKey (Bytes.ofText (quoteText s) ++ rest) = .ok (s, rest) := by
  rw [ofText_quoteText, List.cons_append, memberKey, if_pos rfl, readString_tailBytes]
  rfl

theorem afterColon_colon (rest : Bytes) : afterColon (0x3a :: rest) = .ok rest := by
  rw [afterColon, Json.skipBlanks_of_not_isBlank (by decide)]
  rfl

theorem readKey_first (k : String) (rest : Bytes) :
    readKey true (Bytes.ofText (quoteText k) ++ rest) = .ok (some k, rest) := by
  have h := memberKey_quoteText k rest
  rw [ofText_quoteText, List.cons_append] at h ⊢
  rw [readKey, Json.skipBlanks_of_not_isBlank (by decide)]
  simp [h, Except.map]

theorem readKey_next (k : String) (rest : Bytes) :
    readKey false (0x2c :: (Bytes.ofText (quoteText k) ++ rest)) = .ok (some k, rest) := by
  have h := memberKey_quoteText k rest
  rw [ofText_quoteText, List.cons_append] at h ⊢
  rw [readKey, Json.skipBlanks_of_not_isBlank (by decide)]
  simp [Json.skipBlanks_of_not_isBlank (b := 0x22) (by decide), h, Except.map]

theorem readKey_end (first : Bool) (rest : Bytes) :
    readKey first (0x7d :: rest) = .ok (none, rest) := by
  rw [readKey, Json.skipBlanks_of_not_isBlank (by decide)]
  rfl

/-! ### Properties -/

/-- A member of an object of strings. -/
def memberBytes (e : String × String) : Bytes :=
  Bytes.ofText (quoteText e.1) ++ 0x3a :: Bytes.ofText (quoteText e.2)

theorem ofText_propertiesText (e : String × String) (es : List (String × String)) :
    Bytes.ofText (propertiesText (e :: es)) =
      memberBytes e ++ es.flatMap fun e => 0x2c :: memberBytes e := by
  induction es generalizing e with
  | nil => simp [propertiesText, memberBytes, Bytes.ofText_append, ofText_colon]
  | cons d ds ih =>
      have hnext : Bytes.ofText (propertiesText (e :: d :: ds)) =
          memberBytes e ++ 0x2c :: Bytes.ofText (propertiesText (d :: ds)) := by
        simp only [propertiesText, List.map_cons, String.intercalate_cons_cons,
          Bytes.ofText_append, ofText_comma, ofText_colon, memberBytes, List.append_assoc,
          List.cons_append, List.nil_append]
      rw [hnext, ih, List.flatMap_cons, List.cons_append]

theorem memberText_colon (s : String) (rest : Bytes) :
    memberText (0x3a :: (Bytes.ofText (quoteText s) ++ rest)) = .ok (s, rest) := by
  simp only [memberText, afterColon_colon]
  exact readText_quoteText s rest

theorem readProperties_cons {first : Bool} {bs rest rest' : Bytes} {k v : String}
    (hk : readKey first bs = .ok (some k, rest)) (hv : memberText rest = .ok (v, rest'))
    (known : Dict String) :
    readProperties first known bs = readProperties false (known.insert k v) rest' := by
  rw [readProperties]
  split
  · next h => rw [hk] at h; cases h
  · next h => rw [hk] at h; cases h
  · next h =>
      rw [hk] at h
      cases h
      split
      · next h => rw [hv] at h; cases h
      · next h => rw [hv] at h; cases h; rfl

theorem readProperties_end (first : Bool) (known : Dict String) (rest : Bytes) :
    readProperties first known (0x7d :: rest) = .ok (known, rest) := by
  rw [readProperties]
  split
  · next h => rw [readKey_end] at h; cases h
  · next h => rw [readKey_end] at h; cases h; rfl
  · next h => rw [readKey_end] at h; cases h

theorem readProperties_next (es : List (String × String)) (known : Dict String) (rest : Bytes) :
    readProperties false known ((es.flatMap fun e => 0x2c :: memberBytes e) ++ 0x7d :: rest) =
      .ok (es.foldl (fun d e => d.insert e.1 e.2) known, rest) := by
  induction es generalizing known with
  | nil => exact readProperties_end false known rest
  | cons e es ih =>
      have hk := readKey_next e.1 (0x3a :: (Bytes.ofText (quoteText e.2) ++
        ((es.flatMap fun e => 0x2c :: memberBytes e) ++ 0x7d :: rest)))
      have := readProperties_cons hk (memberText_colon e.2 _) known
      rw [ih] at this
      simpa [memberBytes] using this

theorem readProperties_propertiesText (es : List (String × String)) (rest : Bytes) :
    readProperties true .empty (Bytes.ofText (propertiesText es) ++ 0x7d :: rest) =
      .ok (Dict.ofList es, rest) := by
  cases es with
  | nil => exact readProperties_end true .empty rest
  | cons e es =>
      have hk := readKey_first e.1 (0x3a :: (Bytes.ofText (quoteText e.2) ++
        ((es.flatMap fun e => 0x2c :: memberBytes e) ++ 0x7d :: rest)))
      have := readProperties_cons hk (memberText_colon e.2 _) .empty
      rw [readProperties_next] at this
      rw [ofText_propertiesText]
      simpa [memberBytes, Dict.ofList] using this

/-! ### Fields -/

theorem readOptional_some {α : Type} {read : Bytes → Except DecodeError (α × Bytes)} {b : UInt8}
    {bs rest : Bytes} {a : α} (hb : Json.isBlank b = false) (hn : b ≠ 0x6e)
    (h : read (b :: bs) = .ok (a, rest)) : readOptional read (b :: bs) = .ok (some a, rest) := by
  rw [readOptional, Json.skipBlanks_of_not_isBlank hb]
  simp [hn, h, Except.map]

theorem readOptional_null {α : Type} (read : Bytes → Except DecodeError (α × Bytes))
    (rest : Bytes) : readOptional read (Bytes.ofText "null" ++ rest) = .ok (none, rest) := by
  have hb : Bytes.ofText "null" = 0x6e :: Json.ull := by decide
  rw [hb, List.cons_append, readOptional, Json.skipBlanks_of_not_isBlank (by decide)]
  rfl

theorem readOptional_quoteText {α : Type} {read : Bytes → Except DecodeError (α × Bytes)}
    {s : String} {rest : Bytes} {a : α}
    (h : read (Bytes.ofText (quoteText s) ++ rest) = .ok (a, rest)) :
    readOptional read (Bytes.ofText (quoteText s) ++ rest) = .ok (some a, rest) := by
  rw [ofText_quoteText, List.cons_append] at h ⊢
  exact readOptional_some (by decide) (by decide) h

theorem readId_text (id : InstanceId) (rest : Bytes) :
    readId (Bytes.ofText (quoteText id.text) ++ rest) = .ok (id, rest) := by
  simp [readId, readText_quoteText, InstanceId.parse?_text]

theorem readTruth_text (b : Bool) (rest : Bytes) :
    readTruth (Bytes.ofText (if b then "true" else "false") ++ rest) = .ok (b, rest) := by
  cases b
  · have hb : Bytes.ofText "false" = 0x66 :: Json.alse := by decide
    simp only [Bool.false_eq_true, if_false]
    rw [hb, List.cons_append, readTruth, Json.skipBlanks_of_not_isBlank (by decide)]
    rfl
  · have hb : Bytes.ofText "true" = 0x74 :: Json.rue := by decide
    simp only [if_true]
    rw [hb, List.cons_append, readTruth, Json.skipBlanks_of_not_isBlank (by decide)]
    rfl

/-- The draft after a field of a record was read. -/
def Draft.take (r : Record) (d : Draft) : Field → Draft
  | .name => { d with name := some r.name }
  | .kind => { d with kind := some r.kind }
  | .id => { d with id := some (some r.id) }
  | .properties => { d with properties := some (some r.properties) }
  | .isStatic => { d with isStatic := some (some r.isStatic) }

theorem readObject_properties (d : Dict String) (rest : Bytes) :
    readOptional readObject
      (Bytes.ofText ("\x7b" ++ propertiesText d.entries ++ "\x7d") ++ rest) =
      .ok (some d, rest) := by
  have hb : Bytes.ofText ("\x7b" ++ propertiesText d.entries ++ "\x7d") ++ rest =
      0x7b :: (Bytes.ofText (propertiesText d.entries) ++ 0x7d :: rest) := by
    simp only [Bytes.ofText_append, ofText_open, ofText_close, List.append_assoc,
      List.cons_append, List.nil_append]
  rw [hb]
  apply readOptional_some (by decide) (by decide)
  rw [readObject, Json.skipBlanks_of_not_isBlank (by decide)]
  have := readProperties_propertiesText d.entries rest
  rw [Dict.ofList_entries] at this
  simpa using this

/-- The value of every field reads back. -/
theorem readField_fieldText (r : Record) (d : Draft) (f : Field) (rest : Bytes) :
    d.readField f (Bytes.ofText (r.fieldText f) ++ rest) = .ok (d.take r f, rest) := by
  cases f with
  | name => simp [Draft.readField, fieldText, readText_quoteText, Except.map, Draft.take]
  | kind =>
      cases hk : r.kind with
      | none => simp [Draft.readField, fieldText, hk, readOptional_null, Except.map, Draft.take]
      | some k =>
          have := readOptional_quoteText (readText_quoteText k rest)
          simp [Draft.readField, fieldText, hk, this, Except.map, Draft.take]
  | id =>
      have := readOptional_quoteText (readId_text r.id rest)
      simp [Draft.readField, fieldText, this, Except.map, Draft.take]
  | properties =>
      simp [Draft.readField, fieldText, readObject_properties, Except.map, Draft.take]
  | isStatic =>
      have h : readOptional readTruth
          (Bytes.ofText (if r.isStatic then "true" else "false") ++ rest) =
          .ok (some r.isStatic, rest) := by
        have := readTruth_text r.isStatic rest
        cases hs : r.isStatic <;> rw [hs] at this <;>
          exact readOptional_some (by decide) (by decide) this
      simp [Draft.readField, fieldText, h, Except.map, Draft.take]

/-! ### Members -/

/-- A member of a record's object. -/
def fieldBytes (r : Record) (f : Field) : Bytes :=
  Bytes.ofText (quoteText f.key) ++ 0x3a :: Bytes.ofText (r.fieldText f)

theorem ofKey?_key (f : Field) : Field.ofKey? f.key = some f := by
  cases f <;> decide

theorem readMember_field {r : Record} {d : Draft} {f : Field} (h : d.has f = false)
    (rest : Bytes) :
    readMember d f.key (0x3a :: (Bytes.ofText (r.fieldText f) ++ rest)) =
      .ok (d.take r f, rest) := by
  simp [readMember, ofKey?_key, h, afterColon_colon, readField_fieldText, bind, Except.bind]

theorem has_take {r : Record} {d : Draft} {f g : Field} (h : g ≠ f) :
    (d.take r f).has g = d.has g := by
  cases f <;> cases g <;> first | rfl | exact absurd rfl h

theorem readMembers_next (r : Record) {fs : List Field} {d : Draft} {fuel : ℕ}
    (hfuel : fs.length < fuel) (hfs : fs.Nodup) (hd : ∀ f ∈ fs, d.has f = false) (rest : Bytes) :
    readMembers fuel false d ((fs.flatMap fun f => 0x2c :: r.fieldBytes f) ++ 0x7d :: rest) =
      .ok (fs.foldl (Draft.take r) d, rest) := by
  induction fs generalizing d fuel with
  | nil =>
      obtain ⟨n, rfl⟩ : ∃ n, fuel = n + 1 := ⟨fuel - 1, by simp at hfuel; omega⟩
      simp [readMembers, readKey_end, bind, Except.bind, pure, Except.pure]
  | cons f fs ih =>
      obtain ⟨n, rfl⟩ : ∃ n, fuel = n + 1 := ⟨fuel - 1, by simp at hfuel; omega⟩
      obtain ⟨hf, hfs⟩ := List.nodup_cons.mp hfs
      have hk := readKey_next f.key (0x3a :: (Bytes.ofText (r.fieldText f) ++
        ((fs.flatMap fun f => 0x2c :: r.fieldBytes f) ++ 0x7d :: rest)))
      have hlen : fs.length < n := by simpa using hfuel
      have hrest := ih hlen hfs (d := d.take r f) fun g hg => by
        have hgf : g ≠ f := fun e => hf (e ▸ hg)
        rw [has_take hgf]
        exact hd g (by simp [hg])
      have hbytes : ((f :: fs).flatMap fun f => 0x2c :: r.fieldBytes f) ++ 0x7d :: rest =
          0x2c :: (Bytes.ofText (quoteText f.key) ++ 0x3a :: (Bytes.ofText (r.fieldText f) ++
            ((fs.flatMap fun f => 0x2c :: r.fieldBytes f) ++ 0x7d :: rest))) := by
        simp [fieldBytes]
      rw [hbytes, readMembers, hk]
      simp only [bind, Except.bind]
      rw [readMember_field (hd f (by simp))]
      exact hrest

/-! ### Records -/

/-- The fields after the name. -/
def laterFields : List Field := [.kind, .id, .properties, .isStatic]

theorem encode_eq (r : Record) :
    r.encode = 0x7b :: (r.fieldBytes .name ++
      ((laterFields.flatMap fun f => 0x2c :: r.fieldBytes f) ++ [0x7d])) := by
  simp only [encode, encodeText, Field.all, laterFields, List.map_cons, List.map_nil,
    String.intercalate_cons_cons, String.intercalate_singleton, Bytes.ofText_append,
    ofText_comma, ofText_colon, ofText_open, ofText_close, List.append_assoc,
    List.cons_append, List.nil_append, List.append_nil, fieldBytes, List.flatMap_cons,
    List.flatMap_nil]

theorem finish_take (r : Record) (fresh : InstanceId) :
    (laterFields.foldl (Draft.take r) (Draft.take r {} .name)).finish fresh = .ok r := by
  simp [laterFields, Draft.take, Draft.finish, Record.make, r.name_ne]

theorem readMembers_encode (r : Record) (fuel : ℕ) (hfuel : 5 < fuel) :
    readMembers fuel true {} (r.fieldBytes .name ++
      ((laterFields.flatMap fun f => 0x2c :: r.fieldBytes f) ++ [0x7d])) =
      .ok (laterFields.foldl (Draft.take r) (Draft.take r {} .name), []) := by
  obtain ⟨n, rfl⟩ : ∃ n, fuel = n + 1 := ⟨fuel - 1, by omega⟩
  have hk := readKey_first (Field.key .name) (0x3a :: (Bytes.ofText (r.fieldText .name) ++
    ((laterFields.flatMap fun f => 0x2c :: r.fieldBytes f) ++ [0x7d])))
  have hlen : laterFields.length < n := by simp [laterFields]; omega
  have hfree : ∀ f ∈ laterFields, (Draft.take r {} .name).has f = false := by
    simp [laterFields, Draft.has, Draft.take]
  have hrest := readMembers_next r hlen (by decide) hfree []
  have hname : r.fieldBytes .name = Bytes.ofText (quoteText (Field.key .name)) ++
      0x3a :: Bytes.ofText (r.fieldText .name) := rfl
  rw [hname, List.append_assoc, List.cons_append, readMembers, hk]
  simp only [bind, Except.bind]
  rw [readMember_field rfl]
  exact hrest

theorem length_fieldBytes_pos (r : Record) (f : Field) : 0 < (r.fieldBytes f).length := by
  simp only [fieldBytes, List.length_append, List.length_cons]
  omega

/-- What is written of a record reads back as the record, whatever identity is at hand. -/
theorem decode_encode (fresh : InstanceId) (r : Record) : decode fresh r.encode = .ok r := by
  have hread := readMembers_encode r
    ((r.fieldBytes .name ++
      ((laterFields.flatMap fun f => 0x2c :: r.fieldBytes f) ++ [0x7d])).length + 1) (by
        have := length_fieldBytes_pos r .name
        simp [laterFields]
        omega)
  rw [encode_eq, decode, Json.skipBlanks_of_not_isBlank (by decide)]
  simp only [if_true, bind, Except.bind]
  rw [hread]
  simp only [finish_take]
  rfl

theorem encode_ne_nil (r : Record) : r.encode ≠ [] := by
  rw [encode_eq]
  exact List.cons_ne_nil _ _

/-! ### Nothing is lost -/

/-- A record of any parts is written and read back with each of its parts, and with the name of its
node; and what is read from any accepted payload, however that was written, has a name and is what
its own wire form says. -/
theorem codec_is_lossless :
    (∀ (fresh : InstanceId) (name : String) (kind : Option String) (id : InstanceId)
      (properties : Dict String) (isStatic : Bool), name ≠ "" →
      ∃ r, make name kind id properties isStatic = .ok r ∧
        ∃ r', decode fresh r.encode = .ok r' ∧ r'.name = name ∧ r'.kind = kind ∧ r'.id = id ∧
          r'.properties = properties ∧ r'.isStatic = isStatic ∧ r'.nodeName = r.nodeName) ∧
    ∀ (fresh : InstanceId) (bs : Bytes) (r : Record), decode fresh bs = .ok r →
      r.name ≠ "" ∧ ∀ fresh', decode fresh' r.encode = .ok r := by
  constructor
  · intro fresh name kind id properties isStatic hname
    have hmake : make name kind id properties isStatic =
        .ok ⟨name, kind, id, properties, isStatic, hname⟩ := dif_neg hname
    exact ⟨_, hmake, _, decode_encode fresh _, rfl, rfl, rfl, rfl, rfl, rfl⟩
  · intro fresh bs r _
    exact ⟨r.name_ne, fun fresh' => decode_encode fresh' r⟩

/-- A payload that gives a name and an empty type, in the form of an array. -/
def tersePayload : Bytes := .ofText "[\"queue\", \"\"]"

/-- Properties whose texts have to be escaped. -/
def awkwardProperties : Dict String :=
  (Dict.empty.insert "a\"b" "\\ and \n").insert "\x00\x1f" "\x7fé😀"

theorem codec_is_lossless_of_awkward_texts :
    (∃ r, make "\t\"" (some "") default awkwardProperties true = .ok r ∧
      ∃ r', decode default r.encode = .ok r' ∧ r'.name = "\t\"" ∧ r'.kind = some "" ∧
        r'.id = default ∧ r'.properties = awkwardProperties ∧ r'.isStatic = true ∧
        r'.nodeName = r.nodeName) ∧
    ∃ r, decode default tersePayload = .ok r ∧ r.name ≠ "" ∧ r.encode ≠ tersePayload ∧
      ∀ fresh, decode fresh r.encode = .ok r := by
  let queue : Record := ⟨"queue", some "", default, .empty, false, by decide⟩
  have hterse : decode default tersePayload = .ok queue := by decide +kernel
  have hqueue := codec_is_lossless.2 default tersePayload queue hterse
  exact ⟨codec_is_lossless.1 default _ _ _ _ _ (by decide), queue, hterse, hqueue.1,
    by decide +kernel, hqueue.2⟩

end ServiceRegistry.Record
