import ServiceRegistry.Proofs.Record.Values

/-! # Payloads of records

A payload that is read as a record is an array of elements or an object of members, with blanks
anywhere between them (`Record.Element`, `Record.Member`).  Reading a member is one step on the
fields read so far (`Record.Adds`): it puts the value of a field that was not given yet, or it
changes nothing.  A record is read from an object exactly if all its members can be added one after
the other (`decode_objectBytes_iff`), and from an array exactly if this holds of members with the
same values (`decode_arrayBytes_iff`).  Every object that a record is read from is of this form
(`exists_objectBytes`). -/

namespace ServiceRegistry.Record

open Json

/-! ### Payloads -/

/-- Any number of blanks. -/
abbrev Blanks := {w : Bytes // AllBlank w}

/-- A value with the blanks around it. -/
structure Element where
  before : Blanks
  value : Bytes
  isValue : IsValue value
  after : Blanks

/-- A member of an object with the blanks around it. -/
structure Member extends Element where
  /-- The blanks before the key. -/
  lead : Blanks
  /-- The key as it is spelled after its opening quote. -/
  spelling : Bytes
  key : String
  spells : Spells spelling key
  /-- The blanks between the key and the colon. -/
  gap : Blanks

/-- The bytes of an element. -/
def Element.bytes (e : Element) : Bytes := e.before.val ++ (e.value ++ e.after.val)

namespace Member

/-- The bytes of a member. -/
def bytes (m : Member) : Bytes :=
  m.lead.val ++ 0x22 :: (m.spelling ++ (m.gap.val ++ 0x3a :: m.toElement.bytes))

/-- The field that a member gives, if its key is known. -/
def field? (m : Member) : Option Field := Field.ofKey? m.key

/-- The value of the member is `null`. -/
def IsNull (m : Member) : Prop := m.value = 0x6e :: ull

end Member

/-- The bytes of an array. -/
def arrayBytes (es : List Element) : Bytes :=
  0x5b :: ([0x2c].intercalate (es.map Element.bytes) ++ [0x5d])

/-- The bytes of an object. -/
def objectBytes (ms : List Member) : Bytes :=
  0x7b :: ([0x2c].intercalate (ms.map Member.bytes) ++ [0x7d])

/-- A value that stands alone, with the blanks around it. -/
def payload (w : Blanks) (v : Bytes) (w' : Blanks) : Bytes := w.val ++ (v ++ w'.val)

/-- What is left of the members of an object, or of the elements of an array. -/
def leftBytes : Bool → List Bytes → Bytes
  | _, [] => []
  | true, b :: bs => b ++ leftBytes false bs
  | false, b :: bs => 0x2c :: (b ++ leftBytes false bs)

theorem leftBytes_true : ∀ bs : List Bytes, leftBytes true bs = [0x2c].intercalate bs
  | [] => rfl
  | [b] => by simp [leftBytes]
  | b :: c :: bs => by
      rw [List.intercalate_cons_cons, ← leftBytes_true (c :: bs)]
      simp [leftBytes]

/-- Before another member, as before the end, a value has ended. -/
theorem ends_leftBytes {b : UInt8} (hb : IsBound b) (bs : List Bytes) (rest : Bytes) :
    Ends (leftBytes false bs ++ b :: rest) := by
  cases bs with
  | nil => exact ends_cons hb rest
  | cons c bs => exact ends_cons (by simp [IsBound]) _

theorem length_le_leftBytes (first : Bool) (bs : List Bytes) (hbs : ∀ b ∈ bs, b ≠ []) :
    bs.length ≤ (leftBytes first bs).length := by
  induction bs generalizing first with
  | nil => simp
  | cons b bs ih =>
      have hmore := ih false fun c hc => hbs c (by simp [hc])
      have hb := List.length_pos_iff.mpr (hbs b (by simp))
      cases first <;> simp only [leftBytes, List.length_cons, List.length_append] <;> omega

theorem Member.bytes_ne_nil (m : Member) : m.bytes ≠ [] := by simp [Member.bytes]

/-! ### Reading one member -/

/-- What a member does to the fields read so far. -/
inductive Adds (m : Member) (d : Draft) : Draft → Prop
  | known {p : FieldValue} (key : m.field? = some p.field) (absent : d.has p.field = false)
      (reads : Reads (FieldValue.read p.field) m.value p) : Adds m d (d.put p)
  | unknown (key : m.field? = none) : Adds m d d

theorem adds_iff_of_field {m : Member} {d d' : Draft} {f : Field} (hf : m.field? = some f)
    (hd : d.has f = false) :
    Adds m d d' ↔ ∃ p, Reads (FieldValue.read f) m.value p ∧ d' = d.put p := by
  constructor
  · intro h
    cases h with
    | unknown key => rw [hf] at key; cases key
    | @known p key absent reads =>
        obtain rfl := Option.some.inj (hf.symm.trans key)
        exact ⟨p, reads, rfl⟩
  · rintro ⟨p, hreads, rfl⟩
    obtain rfl := FieldValue.field_of_reads hreads
    exact .known hf hd hreads

theorem adds_iff_of_unknown {m : Member} {d d' : Draft} (hm : m.field? = none) :
    Adds m d d' ↔ d' = d := by
  constructor
  · intro h
    cases h with
    | unknown => rfl
    | known key => rw [hm] at key; cases key
  · rintro rfl
    exact .unknown hm

theorem readField_eq_ok_iff {v w rest rest' : Bytes} (hv : IsValue v) (hw : AllBlank w)
    (hrest : Ends rest) {d d' : Draft} {f : Field} :
    d.readField f (w ++ (v ++ rest)) = .ok (d', rest') ↔
      (∃ p, Reads (FieldValue.read f) v p ∧ d' = d.put p) ∧ rest' = rest := by
  rw [Draft.readField_eq]
  constructor
  · intro h
    obtain ⟨⟨p, rest₁⟩, hp, heq⟩ := map_eq_ok h
    obtain ⟨rfl, rfl⟩ := Prod.mk.inj heq
    obtain ⟨hend, hreads⟩ := (FieldValue.takesValues_read f).reads hv hw hrest hp
    exact ⟨⟨p, hreads, rfl⟩, hend⟩
  · rintro ⟨⟨p, hreads, rfl⟩, rfl⟩
    rw [hreads w hw rest']
    rfl

theorem readMember_of_known {d : Draft} {k : String} {f : Field} (hk : Field.ofKey? k = some f)
    (hd : d.has f = false) {w : Bytes} (hw : AllBlank w) (rest : Bytes) :
    readMember d k (w ++ 0x3a :: rest) = d.readField f rest := by
  simp [readMember, hk, hd, afterColon_append hw, bind, Except.bind]

theorem readMember_of_unknown {k : String} (hk : Field.ofKey? k = none) (d : Draft) {w : Bytes}
    (hw : AllBlank w) (rest : Bytes) :
    readMember d k (w ++ 0x3a :: rest) = (liftFault (skipValue [] rest)).map (d, ·) := by
  simp [readMember, hk, afterColon_append hw, bind, Except.bind]

/-- Reading a member adds it, and ends where its value ends. -/
theorem readMember_eq_ok_iff (m : Member) {d d' : Draft} {rest rest' : Bytes} (hrest : Ends rest) :
    readMember d m.key (m.gap.val ++ 0x3a :: (m.before.val ++ (m.value ++ rest))) =
      .ok (d', rest') ↔ Adds m d d' ∧ rest' = rest := by
  cases hk : Field.ofKey? m.key with
  | none =>
      rw [readMember_of_unknown hk d m.gap.2,
        skipValue_append m.isValue m.before.2 fun _ => hrest, adds_iff_of_unknown hk]
      simp only [liftFault, Except.map, Except.ok.injEq, Prod.mk.injEq]
      exact and_congr eq_comm eq_comm
  | some f =>
      cases hd : d.has f with
      | true =>
          constructor
          · intro h
            simp [readMember, hk, hd] at h
          · rintro ⟨hadds, -⟩
            cases hadds with
            | unknown key => rw [Member.field?, hk] at key; cases key
            | known key absent =>
                obtain rfl := Option.some.inj (hk.symm.trans key)
                rw [hd] at absent
                cases absent
      | false =>
          rw [readMember_of_known hk hd m.gap.2, adds_iff_of_field hk hd,
            readField_eq_ok_iff m.isValue m.before.2 hrest]

/-! ### Reading all members -/

/-- What members do to the fields read so far, one after the other. -/
inductive AddsAll : List Member → Draft → Draft → Prop
  | nil {d : Draft} : AddsAll [] d d
  | cons {m : Member} {ms : List Member} {d d' d'' : Draft} (first : Adds m d d')
      (more : AddsAll ms d' d'') : AddsAll (m :: ms) d d''

theorem addsAll_nil_iff {d d' : Draft} : AddsAll [] d d' ↔ d' = d :=
  ⟨fun h => by cases h; rfl, fun h => h ▸ .nil⟩

theorem addsAll_cons_iff {m : Member} {ms : List Member} {d d'' : Draft} :
    AddsAll (m :: ms) d d'' ↔ ∃ d', Adds m d d' ∧ AddsAll ms d' d'' :=
  ⟨fun h => by cases h with | cons first more => exact ⟨_, first, more⟩,
    fun ⟨_, first, more⟩ => .cons first more⟩

/-- The next bytes, with what stands before them and what follows them. -/
theorem exists_lead_append (first : Bool) {w u : Bytes} (hw : AllBlank w) (hu : AllBlank u)
    (t : Bytes) (bs : List Bytes) (rest : Bytes) :
    ∃ l w', IsLead first l ∧ AllBlank w' ∧ w ++ (leftBytes first ((u ++ t) :: bs) ++ rest) =
      l ++ (w' ++ (t ++ (leftBytes false bs ++ rest))) := by
  cases first
  · exact ⟨_, _, .next hw, hu, by simp [leftBytes]⟩
  · exact ⟨_, _, .first, hw.append hu, by simp [leftBytes]⟩

/-- Reading an object adds its members, and ends where the object ends. -/
theorem readMembers_eq_ok_iff (ms : List Member) {fuel : Nat} (hfuel : ms.length < fuel)
    (first : Bool) {d d' : Draft} {w rest rest' : Bytes} (hw : AllBlank w) :
    readMembers fuel first d (w ++ (leftBytes first (ms.map Member.bytes) ++ 0x7d :: rest)) =
      .ok (d', rest') ↔ AddsAll ms d d' ∧ rest' = rest := by
  induction ms generalizing fuel first d w with
  | nil =>
      obtain ⟨n, rfl⟩ := Nat.exists_eq_add_one.mpr hfuel
      have hbytes : leftBytes first (List.map Member.bytes []) = [] := rfl
      rw [hbytes, List.nil_append, readMembers, readKey_close hw, addsAll_nil_iff]
      simp only [bind, Except.bind, pure, Except.pure, Except.ok.injEq, Prod.mk.injEq]
      exact and_congr eq_comm eq_comm
  | cons m ms ih =>
      obtain ⟨n, rfl⟩ := Nat.exists_eq_add_one.mpr (Nat.zero_lt_of_lt hfuel)
      have hn : ms.length < n := by simpa using hfuel
      obtain ⟨l, w', hl, hw', hbytes⟩ :=
        exists_lead_append first hw m.lead.2 (0x22 :: (m.spelling ++ (m.gap.val ++
          0x3a :: m.toElement.bytes))) (ms.map Member.bytes) (0x7d :: rest)
      simp only [Element.bytes, List.cons_append, List.append_assoc] at hbytes
      have hends := ends_append m.after.2
        (ends_leftBytes (b := 0x7d) (by simp [IsBound]) (ms.map Member.bytes) rest)
      rw [List.map_cons, Member.bytes, Element.bytes, hbytes, readMembers,
        readKey_append hl hw' m.spells, addsAll_cons_iff]
      simp only [bind, Except.bind]
      constructor
      · intro h
        split at h
        · cases h
        · next p hmember =>
            obtain ⟨d₁, rest₁⟩ := p
            obtain ⟨hadds, rfl⟩ := (readMember_eq_ok_iff m hends).mp hmember
            rw [ih hn false m.after.2] at h
            exact ⟨⟨d₁, hadds, h.1⟩, h.2⟩
      · rintro ⟨⟨d₁, hadds, hmore⟩, hrest⟩
        rw [(readMember_eq_ok_iff m hends).mpr ⟨hadds, rfl⟩]
        exact (ih hn false m.after.2).mpr ⟨hmore, hrest⟩

/-! ### Reading payloads -/

/-- The fields of an array or an object. -/
def readDraft : Bytes → Except DecodeError (Draft × Bytes)
  | [] => .error (.text .ended)
  | b :: rest =>
    if b = 0x7b then readMembers (rest.length + 1) true {} rest
    else if b = 0x5b then readElements true {} Field.all rest
    else .error (wrongValue (b :: rest))

/-- The record of fields that are followed by blanks only. -/
def conclude (fresh : InstanceId) (p : Draft × Bytes) : Except DecodeError Record :=
  (p.1.finish fresh).bind fun r =>
    match skipBlanks p.2 with
    | [] => .ok r
    | _ :: _ => .error (.text .malformed)

theorem decode_eq (fresh : InstanceId) (bs : Bytes) :
    decode fresh bs = (readDraft (skipBlanks bs)).bind (conclude fresh) := by
  unfold decode
  cases skipBlanks bs with
  | nil => rfl
  | cons b rest =>
      dsimp only [readDraft]
      split_ifs <;> rfl

theorem conclude_eq_ok_iff {fresh : InstanceId} {d : Draft} {rest : Bytes} {r : Record} :
    conclude fresh (d, rest) = .ok r ↔ d.finish fresh = .ok r ∧ AllBlank rest := by
  rw [← skipBlanks_eq_nil_iff]
  constructor
  · intro h
    obtain ⟨r', hr', hend⟩ := bind_eq_ok h
    split at hend
    · next hskip => exact ⟨Except.ok.inj hend ▸ hr', hskip⟩
    · cases hend
  · rintro ⟨hfinish, hskip⟩
    simp only [conclude, hfinish, Except.bind, hskip]

theorem decode_eq_ok_iff {fresh : InstanceId} {bs : Bytes} {r : Record} :
    decode fresh bs = .ok r ↔ ∃ d rest, readDraft (skipBlanks bs) = .ok (d, rest) ∧
      d.finish fresh = .ok r ∧ AllBlank rest := by
  rw [decode_eq]
  constructor
  · intro h
    obtain ⟨⟨d, rest⟩, hread, hmore⟩ := bind_eq_ok h
    exact ⟨d, rest, hread, conclude_eq_ok_iff.mp hmore⟩
  · rintro ⟨d, rest, hread, hmore⟩
    rw [hread]
    exact conclude_eq_ok_iff.mpr hmore

theorem skipBlanks_payload (w w' : Blanks) {b : UInt8} (hb : isBlank b = false) (v : Bytes) :
    skipBlanks (payload w (b :: v) w') = b :: (v ++ w'.val) := skipBlanks_cons w.2 hb _

/-- A record is read from an object exactly if its members can be added one after the other. -/
theorem decode_objectBytes_iff (fresh : InstanceId) (w w' : Blanks) (ms : List Member)
    (r : Record) : decode fresh (payload w (objectBytes ms) w') = .ok r ↔
      ∃ d, AddsAll ms {} d ∧ d.finish fresh = .ok r := by
  have hfuel : ms.length <
      (leftBytes true (ms.map Member.bytes) ++ 0x7d :: w'.val).length + 1 := by
    have hlen := length_le_leftBytes true (ms.map Member.bytes) (by simp [Member.bytes_ne_nil])
    simp only [List.length_append, List.length_map] at hlen ⊢
    omega
  rw [decode_eq_ok_iff, objectBytes, skipBlanks_payload w w' (by decide), ← leftBytes_true,
    List.append_assoc, List.singleton_append, readDraft, if_pos rfl]
  constructor
  · rintro ⟨d, rest, hread, hfinish, -⟩
    exact ⟨d, ((readMembers_eq_ok_iff ms hfuel true allBlank_nil).mp hread).1, hfinish⟩
  · rintro ⟨d, hadds, hfinish⟩
    exact ⟨d, w'.val, (readMembers_eq_ok_iff ms hfuel true allBlank_nil).mpr ⟨hadds, rfl⟩,
      hfinish, w'.2⟩

/-! ### Reading arrays -/

theorem readElements_append {first : Bool} {l w v : Bytes} (hl : IsLead first l)
    (hw : AllBlank w) (hv : IsValue v) (d : Draft) (f : Field) (fs : List Field) (rest : Bytes) :
    readElements first d (f :: fs) (l ++ (w ++ (v ++ rest))) =
      (d.readField f (v ++ rest)).bind fun p => readElements false p.1 fs p.2 := by
  obtain ⟨b, v', rfl, hskip, hbound⟩ := skipBlanks_value hv hw rest
  have hclose : b ≠ 0x5d := fun hb => hbound (by simp [IsBound, hb])
  cases hl with
  | first =>
      rw [List.nil_append]
      conv_lhs => unfold readElements
      rw [hskip]
      simp only [if_neg hclose, if_true]
      rfl
  | next blank =>
      rw [List.append_assoc, List.singleton_append]
      conv_lhs => unfold readElements
      rw [skipBlanks_cons blank (by decide)]
      simp only [hskip, if_neg hclose]
      rfl

theorem readElements_close {w : Bytes} (hw : AllBlank w) {fs : List Field} (hfs : .name ∉ fs)
    (first : Bool) (d : Draft) (rest : Bytes) :
    readElements first d fs (w ++ 0x5d :: rest) = .ok (d, rest) := by
  have hskip := skipBlanks_cons hw (b := 0x5d) (by decide) rest
  unfold readElements
  rw [hskip]
  cases fs with
  | nil => rfl
  | cons f fs =>
      have hname : f ≠ .name := fun hf => hfs (by simp [hf])
      simp only [if_true, if_neg hname]

/-- Reading an array adds the members that have its values, as long as they are those of the next
fields in order. -/
theorem readElements_eq_ok_iff (ms : List Member) (first : Bool) {d d' : Draft} {fs : List Field}
    {w rest rest' : Bytes} (hw : AllBlank w)
    (hkeys : ms.map Member.field? = (fs.take ms.length).map some) (hfs : fs.Nodup)
    (hd : ∀ f ∈ fs, d.has f = false) (hname : .name ∉ fs.drop ms.length) :
    readElements first d fs
        (w ++ (leftBytes first (ms.map fun m => m.toElement.bytes) ++ 0x5d :: rest)) =
      .ok (d', rest') ↔ AddsAll ms d d' ∧ rest' = rest := by
  induction ms generalizing first d fs w with
  | nil =>
      have hbytes : leftBytes first (List.map (fun m : Member => m.toElement.bytes) []) = [] := rfl
      have hname' : .name ∉ fs := hname
      rw [hbytes, List.nil_append, readElements_close hw hname', addsAll_nil_iff]
      simp only [Except.ok.injEq, Prod.mk.injEq]
      exact and_congr eq_comm eq_comm
  | cons m ms ih =>
      cases fs with
      | nil => cases hkeys
      | cons f fs =>
          obtain ⟨hf, hkeys⟩ := List.cons.inj hkeys
          obtain ⟨hfresh, hfs⟩ := List.nodup_cons.mp hfs
          obtain ⟨l, w', hl, hw', hbytes⟩ := exists_lead_append first hw m.before.2
            (m.value ++ m.after.val) (ms.map fun m => m.toElement.bytes) (0x5d :: rest)
          simp only [List.append_assoc] at hbytes
          have hends := ends_append m.after.2 (ends_leftBytes (b := 0x5d) (by simp [IsBound])
            (ms.map fun m => m.toElement.bytes) rest)
          have habsent := hd f (by simp)
          have hmore {d₁ : Draft} (hadds : Adds m d d₁) : ∀ g ∈ fs, d₁.has g = false := by
            obtain ⟨p, hreads, rfl⟩ := (adds_iff_of_field hf habsent).mp hadds
            intro g hg
            have hne : p.field ≠ g := fun h =>
              hfresh (FieldValue.field_of_reads hreads ▸ h ▸ hg)
            rw [Draft.has_put hne]
            exact hd g (by simp [hg])
          rw [List.map_cons, Element.bytes, hbytes, readElements_append hl hw' m.isValue,
            addsAll_cons_iff]
          constructor
          · intro h
            obtain ⟨⟨d₁, rest₁⟩, hfield, hnext⟩ := bind_eq_ok h
            obtain ⟨hreads, rfl⟩ :=
              (readField_eq_ok_iff m.isValue allBlank_nil hends).mp hfield
            have hadds := (adds_iff_of_field hf habsent).mpr hreads
            have hrest := (ih false m.after.2 hkeys hfs (hmore hadds) hname).mp hnext
            exact ⟨⟨d₁, hadds, hrest.1⟩, hrest.2⟩
          · rintro ⟨⟨d₁, hadds, hnext⟩, hrest⟩
            have hreads := (adds_iff_of_field hf habsent).mp hadds
            have hfield := (readField_eq_ok_iff m.isValue allBlank_nil hends).mpr ⟨hreads, rfl⟩
            rw [List.nil_append] at hfield
            rw [hfield]
            exact (ih false m.after.2 hkeys hfs (hmore hadds) hname).mpr ⟨hnext, hrest⟩

/-- The members give the first fields in order. -/
def InOrder (ms : List Member) : Prop :=
  ms.map Member.field? = (Field.all.take ms.length).map some

instance (ms : List Member) : Decidable (InOrder ms) := inferInstanceAs (Decidable (_ = _))

theorem readElements_empty (d : Draft) (rest : Bytes) :
    readElements true d Field.all (0x5d :: rest) = .error .wrongShape := by
  unfold readElements
  rw [skipBlanks_of_not_isBlank (by decide)]
  rfl

/-- A record is read from an array exactly if the members that have its values can be added one
after the other. -/
theorem decode_arrayBytes_iff (fresh : InstanceId) (w w' : Blanks) {ms : List Member}
    (hms : InOrder ms) (r : Record) :
    decode fresh (payload w (arrayBytes (ms.map Member.toElement)) w') = .ok r ↔
      ∃ d, AddsAll ms {} d ∧ d.finish fresh = .ok r := by
  rw [decode_eq_ok_iff, arrayBytes, skipBlanks_payload w w' (by decide), ← leftBytes_true,
    List.append_assoc, List.singleton_append, List.map_map, readDraft, if_neg (by decide),
    if_pos rfl]
  cases ms with
  | nil =>
      -- Neither an empty array nor an empty object has a name.
      constructor
      · rintro ⟨d, rest, hread, -⟩
        exact absurd ((readElements_empty {} w'.val).symm.trans hread) (by simp)
      · rintro ⟨d, hadds, hfinish⟩
        rw [addsAll_nil_iff.mp hadds] at hfinish
        cases hfinish
  | cons m ms =>
      have habsent : ∀ f ∈ Field.all, ({} : Draft).has f = false := fun f _ => Draft.has_empty f
      have hname : .name ∉ Field.all.drop (m :: ms).length := fun h =>
        absurd (List.mem_of_mem_drop (show Field.name ∈ Field.all.tail.drop ms.length from h))
          (by decide)
      constructor
      · rintro ⟨d, rest, hread, hfinish, -⟩
        exact ⟨d, ((readElements_eq_ok_iff (m :: ms) true allBlank_nil hms (by decide) habsent
          hname).mp hread).1, hfinish⟩
      · rintro ⟨d, hadds, hfinish⟩
        exact ⟨d, w'.val, (readElements_eq_ok_iff (m :: ms) true allBlank_nil hms (by decide)
          habsent hname).mpr ⟨hadds, rfl⟩, hfinish, w'.2⟩

/-! ### Every object has members -/

/-- What is read after a key is a colon and a value. -/
theorem exists_of_readMember {d d' : Draft} {k : String} {bs rest : Bytes}
    (h : readMember d k bs = .ok (d', rest)) :
    ∃ w w' v, AllBlank w ∧ AllBlank w' ∧ IsValue v ∧ bs = w ++ 0x3a :: (w' ++ (v ++ rest)) := by
  unfold readMember at h
  split at h
  · split at h
    · cases h
    · obtain ⟨bs', hcolon, hfield⟩ := bind_eq_ok h
      obtain ⟨w, hw, rfl⟩ := exists_of_afterColon hcolon
      rw [Draft.readField_eq] at hfield
      obtain ⟨⟨p, rest'⟩, hread, heq⟩ := map_eq_ok hfield
      obtain ⟨-, rfl⟩ := Prod.mk.inj heq
      obtain ⟨w', v, hw', hv, -, rfl, -⟩ := (FieldValue.takesValues_read _).exists_value hread
      exact ⟨w, w', v, hw, hw', hv, rfl⟩
  · obtain ⟨bs', hcolon, hskip⟩ := bind_eq_ok h
    obtain ⟨w, hw, rfl⟩ := exists_of_afterColon hcolon
    obtain ⟨rest', hvalue, heq⟩ := map_eq_ok hskip
    obtain ⟨-, rfl⟩ := Prod.mk.inj heq
    obtain ⟨w', v, hw', hv, rfl⟩ := exists_of_skipValue (liftFault_eq_ok hvalue)
    exact ⟨w, w', v, hw, hw', hv, rfl⟩

/-- What is read up to the end of an object are members. -/
theorem exists_of_readMembers {fuel : Nat} {first : Bool} {d d' : Draft} {bs rest : Bytes}
    (h : readMembers fuel first d bs = .ok (d', rest)) :
    ∃ (w : Bytes) (ms : List Member), AllBlank w ∧
      bs = w ++ (leftBytes first (ms.map Member.bytes) ++ 0x7d :: rest) := by
  induction fuel generalizing first d bs with
  | zero => cases h
  | succ n ih =>
      rw [readMembers] at h
      obtain ⟨⟨k, rest₁⟩, hkey, h⟩ := bind_eq_ok h
      cases k with
      | none =>
          cases h
          obtain ⟨w, hw, rfl⟩ := exists_of_readKey_none hkey
          exact ⟨w, [], hw, rfl⟩
      | some k =>
          obtain ⟨⟨d₁, rest₂⟩, hmember, h⟩ := bind_eq_ok h
          obtain ⟨after, ms, hafter, rfl⟩ := ih h
          obtain ⟨gap, before, v, hgap, hbefore, hv, rfl⟩ := exists_of_readMember hmember
          obtain ⟨l, lead, t, hl, hlead, -, hk, rfl⟩ := exists_of_readKey_some hkey
          let m : Member :=
            { before := ⟨before, hbefore⟩, value := v, isValue := hv, after := ⟨after, hafter⟩,
              lead := ⟨lead, hlead⟩, spelling := t, key := k, spells := hk, gap := ⟨gap, hgap⟩ }
          cases hl with
          | first =>
              exact ⟨[], m :: ms, allBlank_nil,
                by simp [m, leftBytes, Member.bytes, Element.bytes]⟩
          | @next w blank =>
              exact ⟨w, m :: ms, blank, by simp [m, leftBytes, Member.bytes, Element.bytes]⟩

/-- The member with more blanks before it. -/
def Member.indent (w : Blanks) (m : Member) : Member :=
  { m with lead := ⟨w.val ++ m.lead.val, w.2.append m.lead.2⟩ }

theorem Member.bytes_indent (w : Blanks) (m : Member) : (m.indent w).bytes = w.val ++ m.bytes := by
  simp [Member.bytes, Member.indent]

/-- An object that a record is read from has members. -/
theorem exists_objectBytes {fresh : InstanceId} {bs : Bytes} {r : Record}
    (h : decode fresh bs = .ok r) (hobject : (skipBlanks bs).head? = some 0x7b) :
    ∃ (w w' : Blanks) (ms : List Member), bs = payload w (objectBytes ms) w' := by
  obtain ⟨w, hw, hbs⟩ := exists_blanks bs
  obtain ⟨d, rest, hread, hfinish, hrest⟩ := decode_eq_ok_iff.mp h
  cases hskip : skipBlanks bs with
  | nil => simp [hskip] at hobject
  | cons b bs' =>
      obtain rfl : b = 0x7b := by simpa [hskip] using hobject
      rw [hskip, readDraft, if_pos rfl] at hread
      obtain ⟨w', ms, hw', rfl⟩ := exists_of_readMembers hread
      cases ms with
      | nil =>
          -- Without members there is no name.
          have hfuel : ([] : List Member).length <
              (w' ++ (leftBytes true [] ++ 0x7d :: rest)).length + 1 := Nat.succ_pos _
          have hnone := ((readMembers_eq_ok_iff [] hfuel true hw').mp hread).1
          rw [addsAll_nil_iff.mp hnone] at hfinish
          cases hfinish
      | cons m ms =>
          refine ⟨⟨w, hw⟩, ⟨rest, hrest⟩, m.indent ⟨w', hw'⟩ :: ms, ?_⟩
          rw [hbs, hskip, payload, objectBytes, ← leftBytes_true]
          simp [leftBytes, Member.bytes_indent]

end ServiceRegistry.Record
