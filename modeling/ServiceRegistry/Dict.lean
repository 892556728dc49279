/-! # Dictionaries keyed by text

A `Dict` holds each key once and its keys in ascending order, so two dictionaries with the same
entries are equal. Main facts: `find?_insert` and `find?_erase` say what each operation does to the
view `find?`, and `Dict.ext_find?` says that this view determines the dictionary. -/

namespace ServiceRegistry

/-! ### Sorted entry lists -/

namespace Entries

variable {α : Type}

/-- The keys of the entries ascend. -/
abbrev Ascending (es : List (String × α)) : Prop := es.Pairwise fun a b => a.1 < b.1

/-- Put an entry at its place, in the stead of an entry with the same key. -/
def insert (k : String) (v : α) : List (String × α) → List (String × α)
  | [] => [(k, v)]
  | e :: es =>
    if k < e.1 then (k, v) :: e :: es
    else if k = e.1 then (k, v) :: es
    else e :: insert k v es

/-- The value under a key. -/
def find? (k : String) : List (String × α) → Option α
  | [] => none
  | e :: es => if e.1 = k then some e.2 else find? k es

theorem mem_insert {k : String} {v : α} {es : List (String × α)} {e : String × α}
    (h : e ∈ insert k v es) : e = (k, v) ∨ e ∈ es := by
  induction es with
  | nil => simpa [insert] using h
  | cons d ds ih =>
    simp only [insert] at h
    split at h
    · simpa using h
    · split at h
      · rcases List.mem_cons.mp h with h | h <;> simp [h]
      · rcases List.mem_cons.mp h with h | h
        · simp [h]
        · rcases ih h with h | h <;> simp [h]

/-- Of two different keys one is below the other. -/
theorem lt_of_not_lt_of_ne {a b : String} (h : ¬a < b) (hne : a ≠ b) : b < a := by
  apply Classical.byContradiction
  intro h'
  exact hne (String.le_antisymm (String.not_lt.mp h') (String.not_lt.mp h))

theorem ascending_insert {k : String} {v : α} {es : List (String × α)} (h : Ascending es) :
    Ascending (insert k v es) := by
  induction es with
  | nil => simp [insert]
  | cons d ds ih =>
    obtain ⟨hd, hds⟩ := List.pairwise_cons.mp h
    simp only [insert]
    split
    · next hlt =>
      refine List.pairwise_cons.mpr ⟨fun e he => ?_, h⟩
      rcases List.mem_cons.mp he with rfl | he
      · exact hlt
      · exact String.lt_trans hlt (hd e he)
    · next hlt =>
      split
      · next heq =>
        subst heq
        exact List.pairwise_cons.mpr ⟨hd, hds⟩
      · next hne =>
        refine List.pairwise_cons.mpr ⟨fun e he => ?_, ih hds⟩
        rcases mem_insert he with rfl | he
        · exact lt_of_not_lt_of_ne hlt hne
        · exact hd e he

theorem find?_insert (k k' : String) (v : α) (es : List (String × α)) :
    find? k' (insert k v es) = if k = k' then some v else find? k' es := by
  induction es with
  | nil => simp [insert, find?]
  | cons d ds ih =>
    simp only [insert]
    split
    · simp [find?]
    · split
      · next heq =>
        subst heq
        by_cases h : d.1 = k' <;> simp [find?, h]
      · next hne =>
        by_cases h : d.1 = k'
        · subst h
          simp [find?, hne]
        · simp [find?, h, ih]

theorem find?_filter_ne (k k' : String) (es : List (String × α)) :
    find? k' (es.filter (·.1 ≠ k)) = if k = k' then none else find? k' es := by
  induction es with
  | nil => simp [find?]
  | cons d ds ih =>
    by_cases h : d.1 = k
    · subst h
      by_cases h' : d.1 = k' <;> simp_all [find?]
    · by_cases h' : d.1 = k'
      · subst h'
        simp [find?, h, Ne.symm h]
      · simp_all [find?]

theorem find?_eq_none_of_lt {k : String} {es : List (String × α)} (h : ∀ e ∈ es, k < e.1) :
    find? k es = none := by
  induction es with
  | nil => rfl
  | cons d ds ih =>
    have hd := h d (by simp)
    have : d.1 ≠ k := fun e => String.lt_irrefl k (e ▸ hd)
    simp [find?, this, ih fun e he => h e (by simp [he])]

theorem mem_of_find? {k : String} {v : α} {es : List (String × α)} (h : find? k es = some v) :
    (k, v) ∈ es := by
  induction es with
  | nil => simp [find?] at h
  | cons e es ih =>
    simp only [find?] at h
    split at h
    · next he =>
      cases h
      rw [← he]
      exact List.mem_cons_self
    · exact List.mem_cons_of_mem _ (ih h)

theorem find?_of_mem {k : String} {v : α} {es : List (String × α)} (hes : Ascending es)
    (h : (k, v) ∈ es) : find? k es = some v := by
  induction es with
  | nil => simp at h
  | cons e es ih =>
    obtain ⟨he, hes⟩ := List.pairwise_cons.mp hes
    rcases List.mem_cons.mp h with rfl | h
    · simp [find?]
    · have hne : e.1 ≠ k := fun hk => String.lt_irrefl k (hk ▸ he (k, v) h)
      simp [find?, hne, ih hes h]

theorem find?_filter (p : String → α → Bool) (k : String) {es : List (String × α)}
    (h : Ascending es) : find? k (es.filter fun e => p e.1 e.2) = (find? k es).filter (p k) := by
  induction es with
  | nil => rfl
  | cons d ds ih =>
    obtain ⟨hd, hds⟩ := List.pairwise_cons.mp h
    by_cases hk : d.1 = k
    · subst hk
      have hrest : find? d.1 ds = none := find?_eq_none_of_lt hd
      cases hp : p d.1 d.2 with
      | true => simp [find?, Option.filter, hp]
      | false => simp [find?, Option.filter, hp, ih hds, hrest]
    · cases hp : p d.1 d.2 with
      | true => simp [find?, hp, hk, ih hds]
      | false => simp [find?, hp, hk, ih hds]

/-- Ascending entry lists with the same view are equal. -/
theorem eq_of_find? {es ds : List (String × α)} (he : Ascending es) (hd : Ascending ds)
    (h : ∀ k, find? k es = find? k ds) : es = ds := by
  induction es generalizing ds with
  | nil =>
    cases ds with
    | nil => rfl
    | cons d ds => simpa [find?] using h d.1
  | cons e es ih =>
    cases ds with
    | nil => simpa [find?] using h e.1
    | cons d ds =>
      obtain ⟨he₁, he₂⟩ := List.pairwise_cons.mp he
      obtain ⟨hd₁, hd₂⟩ := List.pairwise_cons.mp hd
      have hkey : e.1 = d.1 := by
        apply Classical.byContradiction
        intro hne
        by_cases hlt : e.1 < d.1
        · have := h e.1
          have hnone : find? e.1 (d :: ds) = none := find?_eq_none_of_lt fun x hx => by
            rcases List.mem_cons.mp hx with rfl | hx
            · exact hlt
            · exact String.lt_trans hlt (hd₁ x hx)
          rw [hnone] at this
          simp [find?] at this
        · have hgt := lt_of_not_lt_of_ne hlt hne
          have := h d.1
          have hnone : find? d.1 (e :: es) = none := find?_eq_none_of_lt fun x hx => by
            rcases List.mem_cons.mp hx with rfl | hx
            · exact hgt
            · exact String.lt_trans hgt (he₁ x hx)
          rw [hnone] at this
          simp [find?] at this
      have hval : e.2 = d.2 := by simpa [find?, hkey] using h e.1
      have hrest : es = ds := by
        refine ih he₂ hd₂ fun k => ?_
        by_cases hk : e.1 = k
        · subst hk
          rw [find?_eq_none_of_lt he₁, find?_eq_none_of_lt (by simpa [hkey] using hd₁)]
        · have := h k
          simpa [find?, hk, hkey ▸ hk] using this
      rw [hrest, Prod.ext hkey hval]

end Entries

/-! ### Dictionaries -/

/-- Entries under text keys, each key once, the keys ascending. -/
structure Dict (α : Type) where
  /-- The entries in key order. -/
  entries : List (String × α)
  ascending : Entries.Ascending entries
deriving DecidableEq

namespace Dict

variable {α β : Type}

/-- The dictionary without entries. -/
def empty : Dict α := ⟨[], List.Pairwise.nil⟩

instance : Inhabited (Dict α) := ⟨empty⟩
instance : EmptyCollection (Dict α) := ⟨empty⟩

/-- The value under a key. -/
def find? (d : Dict α) (k : String) : Option α := Entries.find? k d.entries

/-- Does the key have a value? -/
def contains (d : Dict α) (k : String) : Bool := (d.find? k).isSome

/-- Set the value under a key. -/
def insert (d : Dict α) (k : String) (v : α) : Dict α :=
  ⟨Entries.insert k v d.entries, Entries.ascending_insert d.ascending⟩

/-- Drop a key. -/
def erase (d : Dict α) (k : String) : Dict α :=
  ⟨d.entries.filter (·.1 ≠ k), d.ascending.filter _⟩

/-- Keep the entries that pass a test. -/
def filter (d : Dict α) (p : String → α → Bool) : Dict α :=
  ⟨d.entries.filter fun e => p e.1 e.2, d.ascending.filter _⟩

/-- Change every value. -/
def map (f : α → β) (d : Dict α) : Dict β :=
  ⟨d.entries.map fun e => (e.1, f e.2), by
    simpa [Entries.Ascending, List.pairwise_map] using d.ascending⟩

/-- The keys, ascending. -/
def keys (d : Dict α) : List String := d.entries.map (·.1)

/-- The number of keys. -/
def size (d : Dict α) : Nat := d.entries.length

/-- Entries in any order; of two with one key the later counts. -/
def ofList (es : List (String × α)) : Dict α := es.foldl (fun d e => d.insert e.1 e.2) empty

@[simp] theorem find?_empty (k : String) : (empty : Dict α).find? k = none := rfl

@[simp] theorem find?_insert (d : Dict α) (k k' : String) (v : α) :
    (d.insert k v).find? k' = if k = k' then some v else d.find? k' :=
  Entries.find?_insert k k' v d.entries

@[simp] theorem find?_erase (d : Dict α) (k k' : String) :
    (d.erase k).find? k' = if k = k' then none else d.find? k' :=
  Entries.find?_filter_ne k k' d.entries

@[simp] theorem find?_map (f : α → β) (d : Dict α) (k : String) :
    (d.map f).find? k = (d.find? k).map f := by
  obtain ⟨es, h⟩ := d
  simp only [find?, map]
  clear h
  induction es with
  | nil => rfl
  | cons e es ih =>
    by_cases hk : e.1 = k
    · simp [Entries.find?, hk]
    · simp [Entries.find?, hk, ih]

/-- An entry that fails the test is dropped; every key has one entry, so nothing takes its place. -/
theorem find?_filter (d : Dict α) (p : String → α → Bool) (k : String) :
    (d.filter p).find? k = (d.find? k).filter (p k) :=
  Entries.find?_filter p k d.ascending

theorem find?_foldl_insert {es : List (String × α)} (h : Entries.Ascending es) (d : Dict α)
    (k : String) :
    (es.foldl (fun d e => d.insert e.1 e.2) d).find? k = (Entries.find? k es).or (d.find? k) := by
  induction es generalizing d with
  | nil => rfl
  | cons e es ih =>
    obtain ⟨he, hes⟩ := List.pairwise_cons.mp h
    rw [List.foldl_cons, ih hes, find?_insert]
    by_cases hk : e.1 = k
    · subst hk
      simp [Entries.find?, Entries.find?_eq_none_of_lt he]
    · simp [Entries.find?, hk]

theorem mem_entries_iff (d : Dict α) {k : String} {v : α} :
    (k, v) ∈ d.entries ↔ d.find? k = some v :=
  ⟨Entries.find?_of_mem d.ascending, Entries.mem_of_find?⟩

theorem mem_keys_iff (d : Dict α) {k : String} : k ∈ d.keys ↔ d.contains k = true := by
  rw [keys, contains, Option.isSome_iff_exists, List.mem_map]
  constructor
  · rintro ⟨⟨k, v⟩, h, rfl⟩
    exact ⟨v, (d.mem_entries_iff).mp h⟩
  · rintro ⟨v, h⟩
    exact ⟨(k, v), (d.mem_entries_iff).mpr h, rfl⟩

/-- Dictionaries with the same view are equal. -/
theorem ext_find? {d e : Dict α} (h : ∀ k, d.find? k = e.find? k) : d = e := by
  obtain ⟨ds, hd⟩ := d
  obtain ⟨es, he⟩ := e
  have : ds = es := Entries.eq_of_find? hd he h
  subst this
  rfl

/-- Putting the entries of a dictionary one by one makes it again. -/
theorem ofList_entries (d : Dict α) : ofList d.entries = d := by
  apply ext_find?
  intro k
  rw [ofList, find?_foldl_insert d.ascending, find?_empty, Option.or_none]
  rfl

end Dict

end ServiceRegistry
