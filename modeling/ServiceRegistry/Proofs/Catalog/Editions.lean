import Mathlib.Tactic.Common
import ServiceRegistry.Catalog

/-! # What an edition shows

An edition shows exactly the records that were published, service by service, whatever the editions
before it were (`Catalog.shows_publish`). A pool that is carried over holds the same records as the
one that would be built (`Catalog.mem_records_nextEntry`).

Records of one name can always be pooled (`Pool.build_of_same_name`), and neither a pool nor a ring
loses or invents one (`Pool.mem_records_build`, `Ring.mem_records_build`). -/

namespace ServiceRegistry

theorem Ring.mem_records_build (layout : Layout) (rs : List Record) (r : Record) :
    r ∈ (build layout rs).records ↔ r ∈ rs := by
  simp [build, inOrder]

theorem Ring.records_build_eq_nil_iff (layout : Layout) (rs : List Record) :
    (build layout rs).records = [] ↔ rs = [] := by
  simp only [List.eq_nil_iff_forall_not_mem, mem_records_build]

/-! ### Pools -/

namespace Pool

variable {layout : Ring.Layout} {rs : List Record} {pool : Pool}

theorem build_of_same_name (h : ∀ r ∈ rs, ∀ r' ∈ rs, r.name = r'.name) :
    ∃ pool, build layout rs = .ok pool := by
  have hnone : rs.find? (fun r => some r.name ≠ rs.head?.map (·.name)) = none := by
    refine List.find?_eq_none.mpr fun r hr => ?_
    cases rs with
    | nil => simp at hr
    | cons first rest => simpa using h r hr first (by simp)
  unfold build
  dsimp only
  rw [hnone]
  exact ⟨_, rfl⟩

/-- A ring for each type that occurs. -/
theorem find?_foldl_rings (f : String → Ring) (ks : List String) (d : Dict Ring) (kind : String) :
    (ks.foldl (fun d k => if d.contains k then d else d.insert k (f k)) d).find? kind =
      (d.find? kind).or (if kind ∈ ks then some (f kind) else none) := by
  induction ks generalizing d with
  | nil => simp
  | cons k ks ih =>
      rw [List.foldl_cons, ih]
      by_cases hk : k = kind
      · subst hk
        cases hd : d.find? k with
        | none => simp [Dict.contains, hd]
        | some ring => simp [Dict.contains, hd]
      · have hkeep : (if d.contains k then d else d.insert k (f k)).find? kind = d.find? kind := by
          split
          · rfl
          · simp [hk]
        rw [hkeep]
        simp [Ne.symm hk]

theorem mem_ofKind {kind : Option String} {r : Record} :
    r ∈ ofKind kind rs ↔ r ∈ rs ∧ r.kind = kind := by
  simp [ofKind]

/-- A pool holds the records of which it was built. -/
theorem mem_records_build (h : build layout rs = .ok pool) (r : Record) :
    r ∈ pool.records ↔ r ∈ rs := by
  unfold build at h
  dsimp only at h
  split at h
  · cases h
  · cases h
    have htyped : ∀ kind ring, (kind, ring) ∈ ((kinds rs).foldl (fun d kind =>
        if d.contains kind then d else d.insert kind (Ring.build layout (ofKind (some kind) rs)))
        Dict.empty).entries ↔
        kind ∈ kinds rs ∧ Ring.build layout (ofKind (some kind) rs) = ring := by
      intro kind ring
      rw [Dict.mem_entries_iff,
        find?_foldl_rings fun kind => Ring.build layout (ofKind (some kind) rs)]
      simp
    have huntyped : r ∈ ((if (ofKind none rs).isEmpty then none
        else some (Ring.build layout (ofKind none rs))).toList.flatMap (·.records)) ↔
        r ∈ rs ∧ r.kind = none := by
      split
      · next hempty =>
        have hnil : ofKind none rs = [] := List.isEmpty_iff.mp hempty
        rw [← mem_ofKind, hnil]
        simp
      · simp [Ring.mem_records_build, mem_ofKind]
    simp only [records, rings, List.flatMap_append, List.mem_append, huntyped]
    simp only [List.mem_flatMap, List.mem_map, Prod.exists, exists_eq_right, htyped]
    constructor
    · rintro (⟨hr, -⟩ | ⟨ring, ⟨kind, -, rfl⟩, hr⟩)
      · exact hr
      · rw [Ring.mem_records_build, mem_ofKind] at hr
        exact hr.1
    · intro hr
      cases hkind : r.kind with
      | none => exact .inl ⟨hr, rfl⟩
      | some kind =>
          refine .inr ⟨_, ⟨kind, List.mem_filterMap.mpr ⟨r, hr, hkind⟩, rfl⟩, ?_⟩
          exact (Ring.mem_records_build _ _ _).mpr (mem_ofKind.mpr ⟨hr, hkind⟩)

theorem holds_iff : pool.holds rs = true ↔ ∀ r, r ∈ pool.records ↔ r ∈ rs := by
  simp only [holds, Bool.and_eq_true, List.all_eq_true, decide_eq_true_eq]
  constructor
  · rintro ⟨h, h'⟩ r
    exact ⟨h r, h' r⟩
  · intro h
    exact ⟨fun r => (h r).mp, fun r => (h r).mpr⟩

end Pool

/-! ### Editions -/

namespace Catalog

variable (layout : Ring.Layout) (c : Catalog) (rs : List Record) (service : String)

theorem find?_byService :
    (byService rs).find? service =
      if rs.filter (·.name = service) = [] then none
      else some (rs.filter (·.name = service)) := by
  have hfold : ∀ d : Dict (List Record),
      (rs.foldl (fun d r => d.insert r.name ((d.find? r.name).getD [] ++ [r])) d).find? service =
        if rs.filter (·.name = service) = [] then d.find? service
        else some ((d.find? service).getD [] ++ rs.filter (·.name = service)) := by
    induction rs with
    | nil => exact fun d => rfl
    | cons r rs ih =>
        intro d
        rw [List.foldl_cons, ih]
        by_cases hr : r.name = service
        · subst hr
          by_cases hrest : rs.filter (·.name = r.name) = [] <;> simp [hrest]
        · simp [hr]
  exact (hfold .empty).trans (by simp only [Dict.find?_empty, Option.getD_none, List.nil_append])

/-- The entry of a service holds the records of the service. -/
theorem mem_records_nextEntry (h : ∀ r ∈ rs, ∀ r' ∈ rs, r.name = r'.name) :
    ∃ entry, c.nextEntry layout service rs = some entry ∧
      ∀ r, r ∈ entry.pool.records ↔ r ∈ rs := by
  unfold nextEntry
  split
  · next entry hentry =>
    have hholds := (Option.filter_eq_some_iff.mp hentry).2
    exact ⟨entry, rfl, Pool.holds_iff.mp hholds⟩
  · obtain ⟨pool, hpool⟩ : ∃ pool, Pool.build layout rs = .ok pool := Pool.build_of_same_name h
    rw [hpool]
    exact ⟨_, rfl, Pool.mem_records_build hpool⟩

theorem find?_foldl_entries (f : String → List Record → Option Entry)
    {es : List (String × List Record)} (h : Entries.Ascending es) (d : Dict Entry) (k : String) :
    (es.foldl (fun d (key, rs) => match f key rs with | some e => d.insert key e | none => d)
      d).find? k =
      ((Entries.find? k es).bind (f k)).or (d.find? k) := by
  induction es generalizing d with
  | nil => rfl
  | cons e es ih =>
      obtain ⟨he, hes⟩ := List.pairwise_cons.mp h
      rw [List.foldl_cons, ih hes]
      by_cases hk : e.1 = k
      · subst hk
        rw [Entries.find?_eq_none_of_lt he]
        cases hf : f e.1 e.2 <;> simp [Entries.find?, hf]
      · cases hf : f e.1 e.2 <;> simp [Entries.find?, hk, hf]

theorem find?_publish :
    (c.publish layout rs).entries.find? service =
      ((byService rs).find? service).bind (c.nextEntry layout service) := by
  have h := find?_foldl_entries (c.nextEntry layout) (byService rs).ascending .empty service
  rw [Dict.find?_empty, Option.or_none] at h
  exact h

/-- The catalogue has exactly these records, each under its service. -/
structure Shows (rs : List Record) (c : Catalog) : Prop where
  knows_iff : ∀ service, (c.pool? service).isSome = true ↔ ∃ r ∈ rs, r.name = service
  mem_iff : ∀ service pool, c.pool? service = some pool →
    ∀ r, r ∈ pool.records ↔ r ∈ rs ∧ r.name = service

theorem shows_publish : Shows rs (c.publish layout rs) := by
  have hentry : ∀ service, (∀ r ∈ rs, r.name ≠ service) ∧
      (c.publish layout rs).pool? service = none ∨
      (∃ r ∈ rs, r.name = service) ∧ ∃ pool, (c.publish layout rs).pool? service = some pool ∧
        ∀ r, r ∈ pool.records ↔ r ∈ rs ∧ r.name = service := by
    intro service
    rw [pool?, find?_publish, find?_byService]
    by_cases hnone : rs.filter (·.name = service) = []
    · refine .inl ⟨fun r hr hname => ?_, by simp [hnone]⟩
      have := List.filter_eq_nil_iff.mp hnone r hr
      simp [hname] at this
    · obtain ⟨r, hr⟩ := List.exists_mem_of_ne_nil _ hnone
      have hr' := List.mem_filter.mp hr
      refine .inr ⟨⟨r, hr'.1, by simpa using hr'.2⟩, ?_⟩
      have hsame : ∀ r ∈ rs.filter (·.name = service), ∀ r' ∈ rs.filter (·.name = service),
          r.name = r'.name := by
        intro r hr r' hr'
        simp only [List.mem_filter, decide_eq_true_eq] at hr hr'
        exact hr.2.trans hr'.2.symm
      obtain ⟨entry, hnext, hmem⟩ := c.mem_records_nextEntry layout _ service hsame
      refine ⟨entry.pool, by simp [hnone, hnext], fun r => ?_⟩
      rw [hmem r]
      simp
  constructor
  · intro service
    rcases hentry service with ⟨hnone, hpool⟩ | ⟨hsome, pool, hpool, -⟩
    · rw [hpool]
      constructor
      · exact fun h => by cases h
      · rintro ⟨r, hr, hname⟩
        exact absurd hname (hnone r hr)
    · rw [hpool]
      exact ⟨fun _ => hsome, fun _ => rfl⟩
  · intro service pool hpool
    rcases hentry service with ⟨-, hnone⟩ | ⟨-, pool', hpool', hmem⟩
    · cases hnone.symm.trans hpool
    · cases hpool.symm.trans hpool'
      exact hmem

end Catalog

end ServiceRegistry
