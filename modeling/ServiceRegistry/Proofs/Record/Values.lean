import ServiceRegistry.Proofs.Json.Grammar
import ServiceRegistry.Proofs.Record.RoundTrip

/-! # The values of a record's fields

What a field is given depends on the bytes of its value alone, not on blanks before it, on what
follows it, or on what was read before (`Record.Reads`).  Every reader of values takes a JSON value
that shows where it ends (`Record.TakesValues`), which is why a value that is read ends where one
that is passed over ends (`TakesValues.reads`). -/

namespace ServiceRegistry.Record

open Json

/-- A reader of values. -/
abbrev ValueReader (α : Type) := Bytes → Except DecodeError (α × Bytes)

/-- A value is read as `a`, whatever blanks stand before it and whatever follows it. -/
def Reads {α : Type} (read : ValueReader α) (v : Bytes) (a : α) : Prop :=
  ∀ w, AllBlank w → ∀ rest, read (w ++ (v ++ rest)) = .ok (a, rest)

/-- What is read is a JSON value that shows where it ends. -/
structure TakesValues {α : Type} (read : ValueReader α) : Prop where
  exists_value {bs rest : Bytes} {a : α} (h : read bs = .ok (a, rest)) :
    ∃ w v, AllBlank w ∧ IsValue v ∧ ¬ IsNumeral v ∧ bs = w ++ (v ++ rest) ∧ Reads read v a

theorem Reads.unique {α : Type} {read : ValueReader α} {v : Bytes} {a b : α}
    (h : Reads read v a) (h' : Reads read v b) : a = b := by
  have heq := (h [] allBlank_nil []).symm.trans (h' [] allBlank_nil [])
  simp only [Except.ok.injEq, Prod.mk.injEq, and_true] at heq
  exact heq

theorem skipBlanks_append_value {w v : Bytes} (hw : AllBlank w) (hv : IsValue v) :
    skipBlanks (w ++ v) = v := by
  obtain ⟨b, v', rfl, hskip, -⟩ := skipBlanks_value hv hw []
  simpa using hskip

/-- A value is read to its end, and in the same way wherever it stands. -/
theorem TakesValues.reads {α : Type} {read : ValueReader α} (h : TakesValues read)
    {w v rest rest' : Bytes} {a : α} (hv : IsValue v) (hw : AllBlank w) (hrest : Ends rest)
    (hread : read (w ++ (v ++ rest)) = .ok (a, rest')) : rest' = rest ∧ Reads read v a := by
  obtain ⟨w', v', hw', hv', hshows, hbytes, hreads⟩ := h.exists_value hread
  -- Both values are passed over, which leaves what follows them.
  have hskip := skipValue_append hv hw fun _ => hrest
  have hskip' : skipValue [] (w' ++ (v' ++ rest')) = .ok rest' :=
    skipValue_append hv' hw' fun hnum => absurd hnum hshows
  rw [hbytes, hskip'] at hskip
  obtain rfl := Except.ok.inj hskip
  rw [← List.append_assoc, ← List.append_assoc] at hbytes
  have hvalues := congrArg skipBlanks (List.append_cancel_right hbytes)
  rw [skipBlanks_append_value hw hv, skipBlanks_append_value hw' hv'] at hvalues
  exact ⟨rfl, hvalues ▸ hreads⟩

theorem not_isNumeral_cons {b : UInt8} (hdigit : ¬ IsDigit b) (hminus : b ≠ 0x2d) (v : Bytes) :
    ¬ IsNumeral (b :: v) := by
  rintro (hnumber | ⟨v', hv'⟩)
  · obtain ⟨d, v', hv', hd⟩ := hnumber.exists_cons
    exact hdigit ((List.cons.inj hv').1 ▸ hd)
  · exact hminus (List.cons.inj hv').1

theorem liftFault_eq_ok {α : Type} {x : Except Fault α} {a : α} (h : liftFault x = .ok a) :
    x = .ok a := by
  cases x with
  | error e => cases h
  | ok b => exact congrArg Except.ok (Except.ok.inj h)

/-! ### Words and strings -/

theorem word_append {α : Type} (word rest : Bytes) (a : α) :
    (liftFault (expect word (word ++ rest))).map (a, ·) = .ok (a, rest) := by
  rw [expect_append]
  rfl

theorem eq_append_of_word {α : Type} {word bs rest : Bytes} {a b : α}
    (h : (liftFault (expect word bs)).map (a, ·) = .ok (b, rest)) :
    b = a ∧ bs = word ++ rest := by
  obtain ⟨rest', hword, heq⟩ := map_eq_ok h
  obtain ⟨rfl, rfl⟩ := Prod.mk.inj heq
  exact ⟨rfl, eq_append_of_expect (liftFault_eq_ok hword)⟩

theorem takesValues_readText : TakesValues readText := by
  refine ⟨fun {bs rest s} h => ?_⟩
  obtain ⟨w, hw, hbs⟩ := exists_blanks bs
  unfold readText at h
  split at h
  · cases h
  · next b bs' hskip =>
      rw [hskip] at hbs
      split at h
      · next hb =>
          obtain ⟨t, rfl, ht, hspells⟩ := exists_of_readString (liftFault_eq_ok h)
          refine ⟨w, 0x22 :: t, hw, .string ht, not_isNumeral_cons (by decide) (by decide) t,
            by rw [hbs, hb]; rfl, fun w' hw' rest' => ?_⟩
          rw [List.cons_append, readText, skipBlanks_cons hw' (by decide)]
          simp [hspells rest', liftFault]
      · cases h

theorem TakesValues.map {α β : Type} {read : ValueReader α} (h : TakesValues read) (f : α → β) :
    TakesValues fun bs => (read bs).map fun p => (f p.1, p.2) := by
  refine ⟨fun hb => ?_⟩
  obtain ⟨p, hp, heq⟩ := map_eq_ok hb
  cases heq
  obtain ⟨w, v, hw, hv, hshows, hbytes, hreads⟩ := h.exists_value (a := p.1) hp
  refine ⟨w, v, hw, hv, hshows, hbytes, fun w' hw' rest' => ?_⟩
  simp only [hreads w' hw' rest', Except.map]

theorem takesValues_readTruth : TakesValues readTruth := by
  refine ⟨fun {bs rest b} h => ?_⟩
  obtain ⟨w, hw, hbs⟩ := exists_blanks bs
  unfold readTruth at h
  split at h
  · cases h
  · next c bs' hskip =>
      rw [hskip] at hbs
      split_ifs at h with htrue hfalse
      · obtain ⟨rfl, rfl⟩ := eq_append_of_word h
        refine ⟨w, 0x74 :: rue, hw, .wordTrue, not_isNumeral_cons (by decide) (by decide) _,
          by rw [hbs, htrue]; rfl, fun w' hw' rest' => ?_⟩
        rw [List.cons_append, readTruth, skipBlanks_cons hw' (by decide)]
        exact word_append rue rest' true
      · obtain ⟨rfl, rfl⟩ := eq_append_of_word h
        refine ⟨w, 0x66 :: alse, hw, .wordFalse, not_isNumeral_cons (by decide) (by decide) _,
          by rw [hbs, hfalse]; rfl, fun w' hw' rest' => ?_⟩
        rw [List.cons_append, readTruth, skipBlanks_cons hw' (by decide)]
        exact word_append alse rest' false

theorem takesValues_readId : TakesValues readId := by
  refine ⟨fun h => ?_⟩
  unfold readId at h
  split at h
  · cases h
  · next s rest' htext =>
      split at h
      · next id' hparse =>
          cases h
          obtain ⟨w, v, hw, hv, hshows, hbytes, hreads⟩ := takesValues_readText.exists_value htext
          refine ⟨w, v, hw, hv, hshows, hbytes, fun w' hw' rest' => ?_⟩
          simp only [readId, hreads w' hw' rest', hparse]
      · cases h

theorem reads_null {α : Type} (read : ValueReader α) :
    Reads (readOptional read) (0x6e :: ull) none := by
  intro w hw rest
  rw [List.cons_append, readOptional, skipBlanks_cons hw (by decide)]
  exact word_append ull rest none

theorem TakesValues.readOptional {α : Type} {read : ValueReader α} (h : TakesValues read) :
    TakesValues (Record.readOptional read) := by
  refine ⟨fun {bs rest a} ha => ?_⟩
  obtain ⟨w, hw, hbs⟩ := exists_blanks bs
  unfold Record.readOptional at ha
  split at ha
  · cases ha
  · next b bs' hskip =>
      rw [hskip] at hbs
      split at ha
      · next hb =>
          obtain ⟨rfl, rfl⟩ := eq_append_of_word ha
          exact ⟨w, 0x6e :: ull, hw, .wordNull, not_isNumeral_cons (by decide) (by decide) _,
            by rw [hbs, hb]; rfl, reads_null read⟩
      · next hb =>
          obtain ⟨p, hp, heq⟩ := map_eq_ok ha
          cases heq
          obtain ⟨w', v, hw', hv, hshows, hbytes, hreads⟩ := h.exists_value (a := p.1) hp
          -- The value begins with the byte that is no `n`.
          obtain ⟨c, v', rfl, hskip', hbound⟩ := skipBlanks_value hv hw' p.2
          rw [← hbytes, skipBlanks_of_not_isBlank (isBlank_of_skipBlanks hskip)] at hskip'
          obtain ⟨rfl, rfl⟩ := List.cons.inj hskip'
          have hblank := isBlank_of_skipBlanks hskip
          refine ⟨w, b :: v', hw, hv, hshows, by rw [hbs]; rfl, fun w'' hw'' rest' => ?_⟩
          have hread := hreads [] allBlank_nil rest'
          rw [List.cons_append, Record.readOptional, skipBlanks_cons hw'' hblank]
          rw [List.nil_append, List.cons_append] at hread
          simp [hb, hread, Except.map]

/-! ### Keys -/

/-- What stands before a member and the blanks before its key: nothing if it is the `first` one,
and otherwise a comma. -/
inductive IsLead : Bool → Bytes → Prop
  | first : IsLead true []
  | next {w : Bytes} (blank : AllBlank w) : IsLead false (w ++ [0x2c])

theorem readKey_append {first : Bool} {l w t : Bytes} {k : String} (hl : IsLead first l)
    (hw : AllBlank w) (hk : Spells t k) (rest : Bytes) :
    readKey first (l ++ (w ++ 0x22 :: (t ++ rest))) = .ok (some k, rest) := by
  cases hl with
  | first =>
      rw [List.nil_append, readKey, skipBlanks_cons hw (by decide)]
      simp [memberKey, hk rest, liftFault, Except.map]
  | next blank =>
      rw [List.append_assoc, List.singleton_append, readKey, skipBlanks_cons blank (by decide)]
      simp [skipBlanks_cons hw (b := 0x22) (by decide), memberKey, hk rest, liftFault, Except.map]

theorem readKey_close {w : Bytes} (hw : AllBlank w) (first : Bool) (rest : Bytes) :
    readKey first (w ++ 0x7d :: rest) = .ok (none, rest) := by
  rw [readKey, skipBlanks_cons hw (by decide)]
  rfl

theorem exists_of_memberKey {bs rest : Bytes} {k : String} (h : memberKey bs = .ok (k, rest)) :
    ∃ t, IsTail t ∧ Spells t k ∧ bs = 0x22 :: (t ++ rest) := by
  unfold memberKey at h
  split at h
  · cases h
  · split at h
    · next hb =>
        obtain ⟨t, rfl, ht, hk⟩ := exists_of_readString (liftFault_eq_ok h)
        exact ⟨t, ht, hk, by rw [hb]⟩
    · cases h

theorem exists_of_readKey_some {first : Bool} {bs rest : Bytes} {k : String}
    (h : readKey first bs = .ok (some k, rest)) :
    ∃ l w t, IsLead first l ∧ AllBlank w ∧ IsTail t ∧ Spells t k ∧
      bs = l ++ (w ++ 0x22 :: (t ++ rest)) := by
  obtain ⟨w, hw, hbs⟩ := exists_blanks bs
  unfold readKey at h
  split at h
  · cases h
  · next b bs' hskip =>
      rw [hskip] at hbs
      split_ifs at h with hclose hfirst hcomma
      · cases h
      · obtain ⟨p, hp, heq⟩ := map_eq_ok h
        cases heq
        obtain ⟨t, ht, hk, hbytes⟩ := exists_of_memberKey (k := p.1) hp
        subst hfirst
        exact ⟨[], w, t, .first, hw, ht, hk, by rw [hbs, hbytes, List.nil_append]⟩
      · obtain ⟨p, hp, heq⟩ := map_eq_ok h
        cases heq
        obtain ⟨t, ht, hk, hbytes⟩ := exists_of_memberKey (k := p.1) hp
        obtain ⟨w', hw', hbs'⟩ := exists_blanks bs'
        obtain rfl := Bool.eq_false_of_not_eq_true hfirst
        refine ⟨w ++ [0x2c], w', t, .next hw, hw', ht, hk, ?_⟩
        rw [hbs, hbs', hbytes, hcomma, List.append_assoc]
        rfl

theorem exists_of_readKey_none {first : Bool} {bs rest : Bytes}
    (h : readKey first bs = .ok (none, rest)) : ∃ w, AllBlank w ∧ bs = w ++ 0x7d :: rest := by
  obtain ⟨w, hw, hbs⟩ := exists_blanks bs
  unfold readKey at h
  split at h
  · cases h
  · next b bs' hskip =>
      rw [hskip] at hbs
      split_ifs at h with hclose hfirst hcomma
      · cases h
        exact ⟨w, hw, by rw [hbs, hclose]⟩
      · obtain ⟨p, -, heq⟩ := map_eq_ok h
        cases heq
      · obtain ⟨p, -, heq⟩ := map_eq_ok h
        cases heq

theorem afterColon_append {w : Bytes} (hw : AllBlank w) (rest : Bytes) :
    afterColon (w ++ 0x3a :: rest) = .ok rest := by
  rw [afterColon, skipBlanks_cons hw (by decide)]
  rfl

theorem exists_of_afterColon {bs rest : Bytes} (h : afterColon bs = .ok rest) :
    ∃ w, AllBlank w ∧ bs = w ++ 0x3a :: rest := by
  obtain ⟨w, hw, hbs⟩ := exists_blanks bs
  unfold afterColon at h
  split at h
  · cases h
  · next c bs' hskip =>
      rw [hskip] at hbs
      split at h
      · next hc =>
          cases h
          exact ⟨w, hw, by rw [hbs, hc]⟩
      · cases h

/-! ### Objects of strings -/

/-- What an object of strings still has, up to its end. -/
def IsObjectEnd (first : Bool) (r : Bytes) : Prop :=
  if first then IsValue (0x7b :: r) else IsPart .members r

theorem isObjectEnd_close {w : Bytes} (hw : AllBlank w) (first : Bool) :
    IsObjectEnd first (w ++ [0x7d]) := by
  cases first
  · exact IsPart.endOfObject hw
  · exact IsPart.emptyObject hw

theorem IsLead.isObjectEnd {first : Bool} {l k w v r : Bytes} (hl : IsLead first l) (hk : IsKey k)
    (hw : AllBlank w) (hv : IsValue v) (hr : IsObjectEnd false r) :
    IsObjectEnd first (l ++ (k ++ (w ++ (v ++ r)))) := by
  cases hl with
  | first => exact IsPart.object (k := k) hk hw hv hr
  | next blank =>
      rw [List.append_assoc, List.singleton_append]
      exact IsPart.member blank hk hw hv hr

theorem exists_of_memberText {bs rest : Bytes} {s : String} (h : memberText bs = .ok (s, rest)) :
    ∃ w w' v, AllBlank w ∧ AllBlank w' ∧ IsValue v ∧ bs = w ++ 0x3a :: (w' ++ (v ++ rest)) ∧
      ∀ rest', memberText (w ++ 0x3a :: (w' ++ (v ++ rest'))) = .ok (s, rest') := by
  unfold memberText at h
  split at h
  · cases h
  · next bs' hcolon =>
      obtain ⟨w, hw, rfl⟩ := exists_of_afterColon hcolon
      obtain ⟨w', v, hw', hv, -, rfl, hreads⟩ := takesValues_readText.exists_value h
      refine ⟨w, w', v, hw, hw', hv, rfl, fun rest' => ?_⟩
      simp only [memberText, afterColon_append hw]
      exact hreads w' hw' rest'

theorem exists_of_readProperties {first : Bool} {known d : Dict String} {bs rest : Bytes}
    (h : readProperties first known bs = .ok (d, rest)) :
    ∃ r, IsObjectEnd first r ∧ bs = r ++ rest ∧
      ∀ rest', readProperties first known (r ++ rest') = .ok (d, rest') := by
  fun_induction readProperties first known bs with
  | case1 => cases h
  | case2 first known bs rest₁ hkey =>
      cases h
      obtain ⟨w, hw, rfl⟩ := exists_of_readKey_none hkey
      refine ⟨w ++ [0x7d], isObjectEnd_close hw first, by simp, fun rest' => ?_⟩
      have hclose := readKey_close hw first rest'
      rw [List.append_assoc, List.singleton_append, readProperties]
      split
      · next hk => rw [hclose] at hk; cases hk
      · next hk => rw [hclose] at hk; cases hk; rfl
      · next hk => rw [hclose] at hk; cases hk
  | case3 => cases h
  | case4 first known bs k rest₁ hkey s rest₂ htext _ _ ih =>
      obtain ⟨r, hr, rfl, hmore⟩ := ih h
      obtain ⟨w, w', v, hw, hw', hv, rfl, hread⟩ := exists_of_memberText htext
      obtain ⟨l, w₀, t, hl, hw₀, ht, hk, rfl⟩ := exists_of_readKey_some hkey
      refine ⟨_, hl.isObjectEnd (.parts hw₀ ht hw) hw' hv hr, by simp, fun rest' => ?_⟩
      have hkey' := readKey_append hl hw₀ hk (w ++ 0x3a :: (w' ++ (v ++ (r ++ rest'))))
      rw [← hmore rest', ← readProperties_cons hkey' (hread (r ++ rest')) known]
      simp

theorem takesValues_readObject : TakesValues readObject := by
  refine ⟨fun {bs rest d} h => ?_⟩
  obtain ⟨w, hw, hbs⟩ := exists_blanks bs
  unfold readObject at h
  split at h
  · cases h
  · next b bs' hskip =>
      rw [hskip] at hbs
      split at h
      · next hb =>
          obtain ⟨r, hr, rfl, hmore⟩ := exists_of_readProperties h
          refine ⟨w, 0x7b :: r, hw, hr, not_isNumeral_cons (by decide) (by decide) r,
            by rw [hbs, hb]; rfl, fun w' hw' rest' => ?_⟩
          rw [List.cons_append, readObject, skipBlanks_cons hw' (by decide)]
          exact hmore rest'
      · cases h

/-! ### Fields -/

/-- The value of a field, as it is read. -/
inductive FieldValue where
  | name (s : String)
  | kind (k : Option String)
  | id (i : Option InstanceId)
  | properties (p : Option (Dict String))
  | isStatic (b : Option Bool)

namespace FieldValue

/-- The field that has the value. -/
def field : FieldValue → Field
  | name _ => .name
  | kind _ => .kind
  | id _ => .id
  | properties _ => .properties
  | isStatic _ => .isStatic

/-- Read the value of a field. -/
def read : Field → ValueReader FieldValue
  | .name, bs => (readText bs).map fun p => (name p.1, p.2)
  | .kind, bs => (readOptional readText bs).map fun p => (kind p.1, p.2)
  | .id, bs => (readOptional readId bs).map fun p => (id p.1, p.2)
  | .properties, bs => (readOptional readObject bs).map fun p => (properties p.1, p.2)
  | .isStatic, bs => (readOptional readTruth bs).map fun p => (isStatic p.1, p.2)

theorem takesValues_read (f : Field) : TakesValues (read f) := by
  cases f with
  | name => exact takesValues_readText.map name
  | kind => exact takesValues_readText.readOptional.map kind
  | id => exact takesValues_readId.readOptional.map id
  | properties => exact takesValues_readObject.readOptional.map properties
  | isStatic => exact takesValues_readTruth.readOptional.map isStatic

theorem field_of_read {f : Field} {bs rest : Bytes} {p : FieldValue}
    (h : read f bs = .ok (p, rest)) : p.field = f := by
  cases f <;> (obtain ⟨q, -, heq⟩ := map_eq_ok h; cases heq; rfl)

theorem field_of_reads {f : Field} {v : Bytes} {p : FieldValue} (h : Reads (read f) v p) :
    p.field = f := field_of_read (h [] allBlank_nil [])

end FieldValue

namespace Draft

/-- The draft with the value of one more field. -/
def put (d : Draft) : FieldValue → Draft
  | .name s => { d with name := some s }
  | .kind k => { d with kind := some k }
  | .id i => { d with id := some i }
  | .properties p => { d with properties := some p }
  | .isStatic b => { d with isStatic := some b }

theorem readField_eq (d : Draft) (f : Field) (bs : Bytes) :
    d.readField f bs = (FieldValue.read f bs).map fun p => (d.put p.1, p.2) := by
  have hmap {α : Type} (x : Except DecodeError (α × Bytes)) (g : α → FieldValue) :
      (x.map fun p => (g p.1, p.2)).map (fun p => (d.put p.1, p.2)) =
        x.map fun p => (d.put (g p.1), p.2) := by
    cases x <;> rfl
  cases f with
  | name => exact (hmap (readText bs) .name).symm
  | kind => exact (hmap (readOptional readText bs) .kind).symm
  | id => exact (hmap (readOptional readId bs) .id).symm
  | properties => exact (hmap (readOptional readObject bs) .properties).symm
  | isStatic => exact (hmap (readOptional readTruth bs) .isStatic).symm

theorem has_empty (f : Field) : ({} : Draft).has f = false := by cases f <;> rfl

@[simp] theorem has_put_self (d : Draft) (p : FieldValue) : (d.put p).has p.field = true := by
  cases p <;> rfl

theorem has_put {f : Field} {p : FieldValue} (h : p.field ≠ f) (d : Draft) :
    (d.put p).has f = d.has f := by
  cases p <;> cases f <;> first | rfl | exact absurd rfl h

theorem put_comm {p q : FieldValue} (h : p.field ≠ q.field) (d : Draft) :
    (d.put p).put q = (d.put q).put p := by
  cases p <;> cases q <;> first | rfl | exact absurd rfl h

end Draft

/-- A field other than the name may be `null`, which is as if it was not given. -/
theorem exists_reads_null {f : Field} (hf : f ≠ .name) :
    ∃ p, p.field = f ∧ Reads (FieldValue.read f) (0x6e :: ull) p ∧
      ∀ (d : Draft) (fresh : InstanceId), d.has f = false →
        (d.put p).finish fresh = d.finish fresh := by
  have hreads {α : Type} (read : ValueReader α) (g : Option α → FieldValue) :
      Reads (fun bs => (readOptional read bs).map fun p => (g p.1, p.2)) (0x6e :: ull)
        (g none) := fun w hw rest => by
    simp only [reads_null read w hw rest, Except.map]
  cases f with
  | name => exact absurd rfl hf
  | kind =>
      refine ⟨.kind none, rfl, hreads readText .kind, fun d fresh hd => ?_⟩
      have hnone : d.kind = none := by simpa [Draft.has] using hd
      simp [Draft.finish, Draft.put, hnone]
  | id =>
      refine ⟨.id none, rfl, hreads readId .id, fun d fresh hd => ?_⟩
      have hnone : d.id = none := by simpa [Draft.has] using hd
      simp [Draft.finish, Draft.put, hnone]
  | properties =>
      refine ⟨.properties none, rfl, hreads readObject .properties, fun d fresh hd => ?_⟩
      have hnone : d.properties = none := by simpa [Draft.has] using hd
      simp [Draft.finish, Draft.put, hnone]
  | isStatic =>
      refine ⟨.isStatic none, rfl, hreads readTruth .isStatic, fun d fresh hd => ?_⟩
      have hnone : d.isStatic = none := by simpa [Draft.has] using hd
      simp [Draft.finish, Draft.put, hnone]

end ServiceRegistry.Record
