import Mathlib.Logic.Relation
import ServiceRegistry.Proofs.Record.Payloads

/-! # Records depend on their known fields only

Two members of an object may be added in either order (`Adds.swap`), so the order of the members
does not matter (`AddsAll.perm`) and any one of them may be added after all others
(`addsAll_middle_iff`).  A member that is not known adds nothing, and a field that is `null`
finishes as one that is not given.  So changes to the members of an object leave the record that is
read from it as it was (`decode_depends_on_known_fields`). -/

namespace ServiceRegistry.Record

open Json

/-! ### Changes that do not matter -/

theorem addsAll_append_iff {ms ms' : List Member} {d d'' : Draft} :
    AddsAll (ms ++ ms') d d'' ↔ ∃ d', AddsAll ms d d' ∧ AddsAll ms' d' d'' := by
  induction ms generalizing d with
  | nil => simp [addsAll_nil_iff]
  | cons m ms ih =>
      simp only [List.cons_append, addsAll_cons_iff, ih]
      constructor
      · rintro ⟨d₁, first, d', more, last⟩
        exact ⟨d', ⟨d₁, first, more⟩, last⟩
      · rintro ⟨d', ⟨d₁, first, more⟩, last⟩
        exact ⟨d₁, first, d', more, last⟩

/-- Two members may come in either order. -/
theorem Adds.swap {m m' : Member} {d d₁ d₂ : Draft} (h : Adds m d d₁) (h' : Adds m' d₁ d₂) :
    ∃ d₁', Adds m' d d₁' ∧ Adds m d₁' d₂ := by
  cases h with
  | unknown key =>
      exact ⟨d₂, h', .unknown key⟩
  | @known p key absent reads =>
      cases h' with
      | unknown key' => exact ⟨d, .unknown key', .known key absent reads⟩
      | @known q key' absent' reads' =>
          have hne : p.field ≠ q.field := fun heq => by
            rw [← heq, Draft.has_put_self] at absent'
            cases absent'
          rw [Draft.has_put hne] at absent'
          have habsent : (d.put q).has p.field = false := by rwa [Draft.has_put hne.symm]
          exact ⟨d.put q, .known key' absent' reads',
            Draft.put_comm hne d ▸ .known key habsent reads⟩

theorem AddsAll.perm {ms ms' : List Member} (hperm : ms.Perm ms') {d d' : Draft}
    (h : AddsAll ms d d') : AddsAll ms' d d' := by
  induction hperm generalizing d with
  | nil => exact h
  | cons m _ ih =>
      obtain ⟨d₁, first, more⟩ := addsAll_cons_iff.mp h
      exact .cons first (ih more)
  | swap m m' ms =>
      obtain ⟨d₁, first, h⟩ := addsAll_cons_iff.mp h
      obtain ⟨d₂, second, more⟩ := addsAll_cons_iff.mp h
      obtain ⟨d₁', first', second'⟩ := first.swap second
      exact .cons first' (.cons second' more)
  | trans _ _ ih ih' => exact ih' (ih h)

theorem Adds.has_eq_false {m : Member} {d d' : Draft} (h : Adds m d d') {f : Field}
    (hf : d.has f = false) (hm : m.field? ≠ some f) : d'.has f = false := by
  cases h with
  | unknown => exact hf
  | known key =>
      rw [Draft.has_put fun hp => hm (hp ▸ key :)]
      exact hf

theorem AddsAll.has_eq_false {ms : List Member} {d d' : Draft} (h : AddsAll ms d d') {f : Field}
    (hf : d.has f = false) (hms : ∀ m ∈ ms, m.field? ≠ some f) : d'.has f = false := by
  induction h with
  | nil => exact hf
  | cons first _ ih =>
      have hfirst := first.has_eq_false hf (hms _ (by simp))
      exact ih hfirst fun m hm => hms m (by simp [hm])

/-- A member can be added after all others. -/
theorem addsAll_middle_iff {m : Member} {ms ms' : List Member} {d d'' : Draft} :
    AddsAll (ms ++ m :: ms') d d'' ↔ ∃ d', AddsAll (ms ++ ms') d d' ∧ Adds m d' d'' := by
  have hperm : (ms ++ m :: ms').Perm ((ms ++ ms') ++ [m]) :=
    List.perm_middle.trans (List.perm_append_singleton m (ms ++ ms')).symm
  constructor
  · intro h
    obtain ⟨d', hothers, hlast⟩ := addsAll_append_iff.mp (h.perm hperm)
    obtain ⟨d₁, hm, hnil⟩ := addsAll_cons_iff.mp hlast
    exact ⟨d', hothers, addsAll_nil_iff.mp hnil ▸ hm⟩
  · rintro ⟨d', hothers, hm⟩
    exact (addsAll_append_iff.mpr ⟨d', hothers, .cons hm .nil⟩).perm hperm.symm

/-- A change to the members of an object. -/
inductive Alters : List Member → List Member → Prop
  | reorder {ms ms' : List Member} (perm : ms.Perm ms') : Alters ms ms'
  | addUnknown {m : Member} (unknown : m.field? = none) (ms ms' : List Member) :
      Alters (ms ++ ms') (ms ++ m :: ms')
  | dropUnknown {m : Member} (unknown : m.field? = none) (ms ms' : List Member) :
      Alters (ms ++ m :: ms') (ms ++ ms')
  | addNull {m : Member} {f : Field} (key : m.field? = some f) (optional : f ≠ .name)
      (null : m.IsNull) {ms ms' : List Member}
      (absent : ∀ m' ∈ ms ++ ms', m'.field? ≠ some f) : Alters (ms ++ ms') (ms ++ m :: ms')
  | dropNull {m : Member} {f : Field} (key : m.field? = some f) (optional : f ≠ .name)
      (null : m.IsNull) (ms ms' : List Member) : Alters (ms ++ m :: ms') (ms ++ ms')

/-- A field that was not given can be added as `null`. -/
theorem exists_adds_null {m : Member} {f : Field} (key : m.field? = some f) (hf : f ≠ .name)
    (null : m.IsNull) {d : Draft} (hd : d.has f = false) :
    ∃ d', Adds m d d' ∧ ∀ fresh, d'.finish fresh = d.finish fresh := by
  obtain ⟨p, rfl, hreads, hfinish⟩ := exists_reads_null hf
  exact ⟨d.put p, .known key hd (null ▸ hreads), fun fresh => hfinish d fresh hd⟩

/-- A field that is `null` finishes as one that is not given. -/
theorem Adds.finish_of_null {m : Member} {f : Field} (key : m.field? = some f) (hf : f ≠ .name)
    (null : m.IsNull) {d d' : Draft} (h : Adds m d d') (fresh : InstanceId) :
    d'.finish fresh = d.finish fresh := by
  obtain ⟨p, rfl, hreads, hfinish⟩ := exists_reads_null hf
  cases h with
  | unknown => rfl
  | @known q key' absent reads =>
      rw [← Option.some.inj (key.symm.trans key'), null] at reads
      obtain rfl := hreads.unique reads
      exact hfinish d fresh absent

/-- After a change to the members the fields finish as before. -/
theorem Alters.exists_addsAll {ms ms' : List Member} (h : Alters ms ms') {d : Draft}
    (hadds : AddsAll ms {} d) :
    ∃ d', AddsAll ms' {} d' ∧ ∀ fresh, d'.finish fresh = d.finish fresh := by
  cases h with
  | reorder perm => exact ⟨d, hadds.perm perm, fun _ => rfl⟩
  | addUnknown unknown =>
      exact ⟨d, addsAll_middle_iff.mpr ⟨d, hadds, .unknown unknown⟩, fun _ => rfl⟩
  | dropUnknown unknown =>
      obtain ⟨d', hothers, hm⟩ := addsAll_middle_iff.mp hadds
      rw [adds_iff_of_unknown unknown] at hm
      exact ⟨d', hothers, fun _ => by rw [hm]⟩
  | addNull key optional null absent =>
      obtain ⟨d', hm, hfinish⟩ :=
        exists_adds_null key optional null (hadds.has_eq_false (Draft.has_empty _) absent)
      exact ⟨d', addsAll_middle_iff.mpr ⟨d, hadds, hm⟩, hfinish⟩
  | dropNull key optional null =>
      obtain ⟨d', hothers, hm⟩ := addsAll_middle_iff.mp hadds
      exact ⟨d', hothers, fun fresh => (hm.finish_of_null key optional null fresh).symm⟩

theorem exists_addsAll_of_alters {ms ms' : List Member}
    (h : Relation.ReflTransGen Alters ms ms') {d : Draft} (hadds : AddsAll ms {} d) :
    ∃ d', AddsAll ms' {} d' ∧ ∀ fresh, d'.finish fresh = d.finish fresh := by
  induction h with
  | refl => exact ⟨d, hadds, fun _ => rfl⟩
  | tail _ hlast ih =>
      obtain ⟨d₁, hadds₁, hfinish₁⟩ := ih
      obtain ⟨d₂, hadds₂, hfinish₂⟩ := hlast.exists_addsAll hadds₁
      exact ⟨d₂, hadds₂, fun fresh => (hfinish₂ fresh).trans (hfinish₁ fresh)⟩

/-- The identity at hand only matters if none was given. -/
theorem finish_fresh {d : Draft} {fresh : InstanceId} {r : Record}
    (h : d.finish fresh = .ok r) (fresh' : InstanceId) :
    d.finish fresh' = .ok r ∨ r.id = fresh ∧ d.finish fresh' = .ok { r with id := fresh' } := by
  unfold Draft.finish make at h ⊢
  cases hid : d.id.join with
  | some id => exact .inl (by simpa [hid] using h)
  | none =>
      cases hname : d.name with
      | none => simp [hname] at h
      | some name =>
          by_cases hne : name = ""
          · simp [hname, hne] at h
          · simp only [hname, hne, hid, dite_false, Option.getD_none, Except.ok.injEq] at h ⊢
            subst h
            exact .inr ⟨rfl, rfl⟩

/-! ### Members that are written without blanks -/

theorem isTail_tailBytes (s : String) : IsTail (tailBytes s) := by
  obtain ⟨t, ht, htail, -⟩ := exists_of_readString (readString_tailBytes s [])
  exact List.append_cancel_right ht ▸ htail

/-- A member whose value is a text, without blanks. -/
def Member.ofTexts (k s : String) : Member where
  before := ⟨[], allBlank_nil⟩
  value := 0x22 :: tailBytes s
  isValue := .string (isTail_tailBytes s)
  after := ⟨[], allBlank_nil⟩
  lead := ⟨[], allBlank_nil⟩
  spelling := tailBytes k
  key := k
  spells := readString_tailBytes k
  gap := ⟨[], allBlank_nil⟩

/-- A member that is `null`. -/
def Member.ofNull (k : String) : Member :=
  { Member.ofTexts k "" with value := 0x6e :: ull, isValue := .wordNull }

/-- A member that no record has: an array with an array in it. -/
def nestedMember : Member :=
  { Member.ofTexts "x" "" with
    value := 0x5b :: ([] ++ (0x5b :: ([] ++ [0x5d]) ++ ([] ++ [0x5d])))
    isValue := .array allBlank_nil (.emptyArray allBlank_nil) (.endOfArray allBlank_nil) }

/-! ### Only the known fields matter -/

/-- Reading a record from an object depends on the values of its known fields only.  An object that
a record is read from is made of members, and these can be put in any other order, members with
unknown keys can be added or dropped, and so can fields that are `null`, as often as one likes: the
record that is read stays the same, up to the identity that it gets if it has none.  The first
fields in order are read in the same way from an array of their values as from an object. -/
theorem decode_depends_on_known_fields :
    (∀ (fresh : InstanceId) (bs : Bytes) (r : Record), decode fresh bs = .ok r →
      (skipBlanks bs).head? = some 0x7b →
      ∃ (w w' : Blanks) (ms : List Member), bs = payload w (objectBytes ms) w') ∧
    (∀ (w w' : Blanks) (ms : List Member) (fresh : InstanceId) (r : Record),
      decode fresh (payload w (objectBytes ms) w') = .ok r →
      ∀ ms' : List Member, Relation.ReflTransGen Alters ms ms' →
      ∀ (v v' : Blanks) (fresh' : InstanceId),
        decode fresh' (payload v (objectBytes ms') v') = .ok r ∨
        r.id = fresh ∧
          decode fresh' (payload v (objectBytes ms') v') = .ok { r with id := fresh' }) ∧
    ∀ ms : List Member, InOrder ms →
      ∀ (w w' v v' : Blanks) (fresh : InstanceId) (r : Record),
        decode fresh (payload w (arrayBytes (ms.map Member.toElement)) w') = .ok r ↔
          decode fresh (payload v (objectBytes ms) v') = .ok r := by
  refine ⟨fun fresh bs r h hobject => exists_objectBytes h hobject, ?_, ?_⟩
  · intro w w' ms fresh r h ms' halters v v' fresh'
    obtain ⟨d, hadds, hfinish⟩ := (decode_objectBytes_iff fresh w w' ms r).mp h
    obtain ⟨d', hadds', hfinish'⟩ := exists_addsAll_of_alters halters hadds
    rw [← hfinish'] at hfinish
    simp only [decode_objectBytes_iff]
    exact (finish_fresh hfinish fresh').imp (fun h => ⟨d', hadds', h⟩)
      (And.imp_right fun h => ⟨d', hadds', h⟩)
  · intro ms hms w w' v v' fresh r
    rw [decode_arrayBytes_iff fresh w w' hms, decode_objectBytes_iff fresh v v' ms]

theorem decode_depends_on_known_fields_of_queue :
    let name := Member.ofTexts "serviceName" "queue"
    let kind := Member.ofNull "serviceType"
    let none : Blanks := ⟨[], allBlank_nil⟩
    ∃ r : Record, r.name = "queue" ∧ decode default (objectBytes [name, kind]) = .ok r ∧
      (∃ w w' ms, objectBytes [name, kind] = payload w (objectBytes ms) w') ∧
      decode default (payload none (objectBytes [nestedMember, name]) none) = .ok r ∧
      decode default (payload none (arrayBytes [name.toElement, kind.toElement]) none) = .ok r := by
  intro name kind none
  let queue : Record := ⟨"queue", .none, default, .empty, false, by decide⟩
  have hqueue : decode default (payload none (objectBytes [name, kind]) none) = .ok queue := by
    decide +kernel
  have hkind : kind.field? = some .kind := by decide
  have halters : Relation.ReflTransGen Alters [name, kind] [nestedMember, name] :=
    .tail (.single (.dropNull hkind (by decide) rfl [name] []))
      (.addUnknown (by decide) [] [name])
  have hbytes : payload none (objectBytes [name, kind]) none = objectBytes [name, kind] := by
    simp [payload, none]
  refine ⟨queue, rfl, hbytes ▸ hqueue, ?_, ?_, ?_⟩
  · exact decode_depends_on_known_fields.1 default _ queue (hbytes ▸ hqueue) (by decide +kernel)
  · exact (decode_depends_on_known_fields.2.1 none none _ default queue hqueue _ halters none none
      default).elim (fun h => h) And.right
  · exact (decode_depends_on_known_fields.2.2 [name, kind] (by decide) none none none none default
      queue).mpr hqueue

end ServiceRegistry.Record
