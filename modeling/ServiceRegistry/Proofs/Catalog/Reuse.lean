import Mathlib.Data.List.Nodup
import ServiceRegistry.Proofs.Catalog.Drawing
import ServiceRegistry.Proofs.Ring.Points

/-! # Pools that are carried over

A pool is carried over to the next edition when it holds the records that were read, as a set. Then
it stands in for the pool that would be built (`Catalog.standsInFor_publish`): it offers rings of
the same types over the same records, and they answer each key alike as long as no two records of a
type share an identity. Sizes agree as long as no record is repeated. If both hold the two pools are
equal, so the edition does not depend on the one before (`Catalog.pool?_publish`). -/

namespace ServiceRegistry

/-! ### Corresponding values -/

section Correspondence

variable {α β : Type} {R : α → β → Prop}

theorem rel_or {x x' : Option α} {y y' : Option β} (h : Option.Rel R x y)
    (h' : Option.Rel R x' y') : Option.Rel R (x.or x') (y.or y') := by
  cases h with
  | some hab => exact .some hab
  | none => exact h'

theorem rel_imp {S : α → β → Prop} {x : Option α} {y : Option β} (h : Option.Rel R x y)
    (himp : ∀ a b, x = some a → y = some b → R a b → S a b) : Option.Rel S x y := by
  cases h with
  | some hab => exact .some (himp _ _ rfl rfl hab)
  | none => exact .none

theorem eq_none_of_rel {x : Option α} {y : Option β} (h : Option.Rel R x y) (hx : x = none) :
    y = none := by
  cases h with
  | some _ => cases hx
  | none => rfl

theorem forall₂_toList {x : Option α} {y : Option β} (h : Option.Rel R x y) :
    List.Forall₂ R x.toList y.toList := by
  cases h with
  | some hab => exact .cons hab .nil
  | none => exact .nil

/-- Dictionaries whose values correspond key by key have corresponding lists of values. -/
theorem Dict.forall₂_values {d : Dict α} {e : Dict β}
    (h : ∀ k, Option.Rel R (d.find? k) (e.find? k)) :
    List.Forall₂ R (d.entries.map (·.2)) (e.entries.map (·.2)) := by
  have hunit : ∀ {x : Option α} {y : Option β}, Option.Rel R x y →
      x.map (fun _ => ()) = y.map fun _ => () := by
    rintro _ _ (_ | _) <;> rfl
  have hshape : d.map (fun _ => ()) = e.map (fun _ => ()) :=
    Dict.ext_find? fun k => by rw [find?_map, find?_map, hunit (h k)]
  have hkeys : d.entries.map (·.1) = e.entries.map (·.1) := by
    have hkeys := congrArg (fun d : Dict Unit => d.entries.map (·.1)) hshape
    simp only [Dict.map, List.map_map] at hkeys
    exact hkeys
  rw [← List.forall₂_eq_eq_eq, List.forall₂_map_left_iff, List.forall₂_map_right_iff,
    List.forall₂_iff_zip] at hkeys
  rw [List.forall₂_map_left_iff, List.forall₂_map_right_iff, List.forall₂_iff_zip]
  refine ⟨hkeys.1, fun {a b} hab => ?_⟩
  obtain ⟨ha, hb⟩ := List.of_mem_zip hab
  have hrel := h a.1
  rw [d.mem_entries_iff.mp ha, hkeys.2 hab, e.mem_entries_iff.mp hb] at hrel
  exact Option.rel_some_some.mp hrel

end Correspondence

namespace Pool

variable {layout : Ring.Layout} {rs rs' : List Record} {pool pool' : Pool} {ring : Ring}

/-- How many of the draws lead to a ring, where the typed rings stand in an order. -/
def draws (pool : Pool) (order : List Ring) (ring : Ring) : Nat :=
  (List.range pool.size).countP fun draw => pick draw order = some ring

/-! ### What a pool was built of -/

/-- The ring of just a type. -/
def ofType? (pool : Pool) : Option String → Option Ring
  | none => pool.untyped
  | some kind => pool.typed.find? kind

/-- The pool is the one of the records: for every type that occurs a ring of the records of it. -/
structure IsOf (layout : Ring.Layout) (rs : List Record) (pool : Pool) : Prop where
  name_eq : ∀ r ∈ rs, some r.name = pool.service
  service_eq : pool.service = rs.head?.map (·.name)
  size_eq : pool.size = rs.length
  ofType?_eq : ∀ kind, pool.ofType? kind =
    if ofKind kind rs = [] then none else some (.build layout (ofKind kind rs))

theorem isOf_build (h : build layout rs = .ok pool) : IsOf layout rs pool := by
  unfold build at h
  dsimp only at h
  split at h
  · cases h
  · next hnone =>
    cases h
    refine ⟨fun r hr => ?_, rfl, rfl, fun kind => ?_⟩
    · simpa using List.find?_eq_none.mp hnone r hr
    · cases kind with
      | none => simp only [ofType?, List.isEmpty_iff]
      | some kind =>
          have hkind : kind ∈ kinds rs ↔ ofKind (some kind) rs ≠ [] := by
            simp [kinds, ofKind, List.filter_eq_nil_iff]
          simp only [ofType?]
          rw [find?_foldl_rings fun kind => Ring.build layout (ofKind (some kind) rs)]
          simp [hkind]

/-- Records part by part are the records. -/
theorem perm_flatMap_ofKind {kinds : List (Option String)} (hkinds : kinds.Nodup)
    (h : ∀ r ∈ rs, r.kind ∈ kinds) : (kinds.flatMap fun kind => ofKind kind rs).Perm rs := by
  induction kinds generalizing rs with
  | nil =>
      have hnil : rs = [] := List.eq_nil_iff_forall_not_mem.mpr fun r hr => by cases h r hr
      rw [hnil]
      exact .nil
  | cons kind kinds ih =>
      obtain ⟨hkind, hkinds⟩ := List.nodup_cons.mp hkinds
      have hrest : kinds.flatMap (fun kind => ofKind kind rs) =
          kinds.flatMap fun kind' => ofKind kind' (rs.filter fun r => !decide (r.kind = kind)) := by
        refine List.flatMap_congr fun kind' hmem => ?_
        have hne : kind' ≠ kind := fun heq => hkind (heq ▸ hmem)
        rw [ofKind, ofKind, List.filter_filter]
        refine List.filter_congr fun r _ => ?_
        by_cases hr : r.kind = kind' <;> simp [hr, hne]
      have hothers := @ih (rs.filter fun r => !decide (r.kind = kind)) hkinds fun r hr => by
        obtain ⟨hmem, hne⟩ := List.mem_filter.mp hr
        rcases List.mem_cons.mp (h r hmem) with heq | hmem
        · simp [heq] at hne
        · exact hmem
      rw [List.flatMap_cons, hrest]
      exact (hothers.append_left _).trans
        (List.filter_append_perm (fun r : Record => decide (r.kind = kind)) rs)

namespace IsOf

/-- A pool neither loses nor repeats a record. -/
theorem records_perm (h : IsOf layout rs pool) : pool.records.Perm rs := by
  let kinds := none :: pool.typed.keys.map some
  have hnodup : kinds.Nodup := by
    have hkeys : pool.typed.keys.Nodup := by
      refine List.Pairwise.imp (fun hlt heq => ?_) (List.pairwise_map.mpr pool.typed.ascending)
      exact String.lt_irrefl _ (heq ▸ hlt)
    refine List.nodup_cons.mpr ⟨by simp, hkeys.map fun _ _ => Option.some_inj.mp⟩
  have hcover : ∀ r ∈ rs, r.kind ∈ kinds := by
    intro r hr
    cases hkind : r.kind with
    | none => exact List.mem_cons_self
    | some kind =>
        have hne : ofKind (some kind) rs ≠ [] :=
          List.ne_nil_of_mem (mem_ofKind.mpr ⟨hr, hkind⟩)
        have hfind := h.ofType?_eq (some kind)
        rw [if_neg hne] at hfind
        refine List.mem_cons_of_mem _ (List.mem_map.mpr ⟨kind, ?_, rfl⟩)
        exact pool.typed.mem_keys_iff.mpr (Option.isSome_iff_exists.mpr ⟨_, hfind⟩)
  have hrecords : pool.records = kinds.flatMap fun kind => Ring.inOrder (ofKind kind rs) := by
    have huntyped : pool.untyped.toList.flatMap (·.records) = Ring.inOrder (ofKind none rs) := by
      have hnone : pool.untyped = _ := h.ofType?_eq none
      rw [hnone]
      split
      · next hnil => simp [hnil, Ring.inOrder]
      · simp [Ring.build]
    have htyped : pool.typed.entries.flatMap (fun e => e.2.records) =
        pool.typed.entries.flatMap fun e => Ring.inOrder (ofKind (some e.1) rs) := by
      refine List.flatMap_congr fun e he => ?_
      have hsome : pool.typed.find? e.1 = _ := h.ofType?_eq (some e.1)
      rw [pool.typed.mem_entries_iff.mp he] at hsome
      split at hsome
      · cases hsome
      · rw [Option.some_inj.mp hsome, Ring.build]
    simp only [kinds, records, rings, List.flatMap_append, List.flatMap_cons, List.flatMap_map,
      Dict.keys, huntyped, htyped]
  rw [hrecords]
  exact (List.Perm.flatMap_left kinds fun kind _ => Ring.perm_inOrder _).trans
    (perm_flatMap_ofKind hnodup hcover)

theorem length_records (h : IsOf layout rs pool) : pool.records.length = pool.size :=
  h.records_perm.length_eq.trans h.size_eq.symm

section Rings

variable (h : IsOf layout rs pool)
include h

theorem mem_typed_iff : ring ∈ pool.typed.entries.map (·.2) ↔
    ∃ t, ofKind (some t) rs ≠ [] ∧ .build layout (ofKind (some t) rs) = ring := by
  have hentry : ∀ t, (t, ring) ∈ pool.typed.entries ↔
      ofKind (some t) rs ≠ [] ∧ .build layout (ofKind (some t) rs) = ring := by
    intro t
    have hfind : pool.typed.find? t = _ := h.ofType?_eq (some t)
    rw [pool.typed.mem_entries_iff, hfind]
    split <;> simp [*]
  simp only [List.mem_map, Prod.exists, exists_eq_right, hentry]

/-- Without records that have no type, the typed rings have all records. -/
theorem sum_typed (hnil : ofKind none rs = []) :
    ((pool.typed.entries.map (·.2)).map Ring.size).sum = rs.length := by
  have hnone : pool.untyped = _ := h.ofType?_eq none
  rw [if_pos hnil] at hnone
  rw [← h.records_perm.length_eq, records, rings, hnone, Option.toList_none, List.nil_append,
    List.length_flatMap]
  rfl

theorem mem_rings_iff : ring ∈ pool.rings ↔
    ∃ kind, ofKind kind rs ≠ [] ∧ .build layout (ofKind kind rs) = ring := by
  have huntyped : ring ∈ pool.untyped.toList ↔
      ofKind none rs ≠ [] ∧ .build layout (ofKind none rs) = ring := by
    have hnone : pool.untyped = _ := h.ofType?_eq none
    rw [hnone]
    split
    · next hnil => simp [hnil]
    · next hne =>
      simp only [Option.mem_toList, Option.some_inj]
      exact ⟨fun heq => ⟨hne, heq⟩, And.right⟩
  rw [rings, List.mem_append, huntyped, h.mem_typed_iff]
  constructor
  · rintro (hring | ⟨t, hring⟩)
    · exact ⟨none, hring⟩
    · exact ⟨some t, hring⟩
  · rintro ⟨_ | t, hring⟩
    · exact .inl hring
    · exact .inr ⟨t, hring⟩

theorem records_ne_nil (hring : ring ∈ pool.rings) : ring.records ≠ [] := by
  obtain ⟨kind, hne, rfl⟩ := h.mem_rings_iff.mp hring
  exact fun hnil => hne ((Ring.records_build_eq_nil_iff _ _).mp hnil)

theorem size_eq_sum : pool.size = (pool.rings.map Ring.size).sum := by
  rw [← h.length_records, records, List.length_flatMap]
  rfl

/-- No ring stands for two types. -/
theorem nodup_typed : (pool.typed.entries.map (·.2)).Nodup := by
  refine List.pairwise_map.mpr (pool.typed.ascending.imp_of_mem fun {e e'} he he' hlt heq => ?_)
  have hkind : ∀ e ∈ pool.typed.entries, ∀ r ∈ e.2.records, r.kind = some e.1 := by
    rintro ⟨t, ring⟩ hentry r hr
    have hfind : pool.typed.find? t = _ := h.ofType?_eq (some t)
    rw [pool.typed.mem_entries_iff.mp hentry] at hfind
    split at hfind
    · cases hfind
    · rw [Option.some_inj.mp hfind, Ring.mem_records_build, mem_ofKind] at hr
      exact hr.2
  have hmem : e.2 ∈ pool.rings := List.mem_append_right _ (List.mem_map_of_mem he)
  obtain ⟨r, hr⟩ := List.exists_mem_of_ne_nil _ (h.records_ne_nil hmem)
  have htypes : some e.1 = some e'.1 := (hkind e he r hr).symm.trans (hkind e' he' r (heq ▸ hr))
  exact String.lt_irrefl _ (Option.some_inj.mp htypes ▸ hlt)

/-- A typed ring gets as many draws as it has records, in whatever order the typed rings stand. -/
theorem draws_eq (hnone : pool.untyped = none) {order : List Ring}
    (horder : order.Perm (pool.typed.entries.map (·.2))) (hring : ring ∈ order) :
    pool.draws order ring = ring.size := by
  have hsize : pool.size = (order.map Ring.size).sum := by
    rw [h.size_eq_sum, rings, hnone, Option.toList_none, List.nil_append,
      (horder.map Ring.size).sum_nat]
  have hnodup : order.Nodup := horder.nodup_iff.mpr h.nodup_typed
  rw [draws, hsize, countP_pick, List.count_eq_one_of_mem hnodup hring, Nat.one_mul]

end Rings

end IsOf

/-! ### Pools over the same records -/

/-- What a pool shares with another over the same set of records. -/
structure StandsInFor (layout : Ring.Layout) (pool pool' : Pool) : Prop where
  service_eq : pool.service = pool'.service
  mem_iff : ∀ r, r ∈ pool.records ↔ r ∈ pool'.records
  /-- For a type they offer rings that correspond. -/
  offered : ∀ kind, List.Forall₂ (Ring.StandsInFor layout) (pool.offered kind) (pool'.offered kind)
  /-- If no record is repeated they count the same records, and every draw leads to rings that
  correspond, where the typed rings stand in the order of their types. -/
  of_nodup : pool.records.Nodup → pool'.records.Nodup →
    pool.size = pool'.size ∧ pool.records.Perm pool'.records ∧
      ∀ kind draw, Option.Rel
        (fun ring ring' => Ring.StandsInFor layout ring ring' ∧ ring.records.Perm ring'.records)
        (pool.ring? kind draw) (pool'.ring? kind draw)
  /-- Where the typed rings stand in any orders, those of one type correspond too, and they get the
  same number of draws if a ring is drawn. -/
  of_orders : pool.records.Nodup → pool'.records.Nodup →
    ∀ order order', order.Perm (pool.typed.entries.map (·.2)) →
      order'.Perm (pool'.typed.entries.map (·.2)) → ∀ t, Option.Rel
        (fun ring ring' => Ring.StandsInFor layout ring ring' ∧
          ring.records.Perm ring'.records ∧
          (pool.untyped = none → pool.draws order ring = pool'.draws order' ring'))
        (pool.typed.find? t) (pool'.typed.find? t)
  eq : pool.records.Nodup → pool'.records.Nodup →
    (∀ kind, Ring.NoTwins (ofKind kind pool'.records)) → pool = pool'

section Rings

variable {R : Ring → Ring → Prop}
  (h : ∀ kind, Option.Rel R (pool.ofType? kind) (pool'.ofType? kind))
include h

theorem forall₂_typed :
    List.Forall₂ R (pool.typed.entries.map (·.2)) (pool'.typed.entries.map (·.2)) :=
  Dict.forall₂_values fun kind => h (some kind)

theorem rel_ring? (hsize : ∀ a b, R a b → a.size = b.size) (kind : Option String) (draw : Nat) :
    Option.Rel R (pool.ring? kind draw) (pool'.ring? kind draw) := by
  cases kind with
  | none => exact rel_or (h none) (rel_pick hsize (forall₂_typed h) draw)
  | some kind => exact rel_or (h (some kind)) (h none)

theorem forall₂_offered (kind : Option String) :
    List.Forall₂ R (pool.offered kind) (pool'.offered kind) := by
  cases kind with
  | some kind =>
      have hring : Option.Rel R (pool.ring? (some kind) 0) (pool'.ring? (some kind) 0) :=
        rel_or (h (some kind)) (h none)
      exact forall₂_toList hring
  | none =>
      have huntyped : Option.Rel R pool.untyped pool'.untyped := h none
      unfold offered ring?
      cases hring : pool.untyped with
      | none =>
          cases hring' : pool'.untyped with
          | none => exact forall₂_typed h
          | some ring' =>
              rw [hring, hring'] at huntyped
              cases huntyped
      | some ring =>
          cases hring' : pool'.untyped with
          | none =>
              rw [hring, hring'] at huntyped
              cases huntyped
          | some ring' =>
              rw [hring, hring', Option.rel_some_some] at huntyped
              exact .cons huntyped .nil

end Rings

namespace IsOf

variable (h : IsOf layout rs pool) (h' : IsOf layout rs' pool') (hsame : ∀ r, r ∈ rs ↔ r ∈ rs')
include h h' hsame

omit h h' in
theorem ofKind_eq_nil_iff (kind : Option String) : ofKind kind rs = [] ↔ ofKind kind rs' = [] := by
  simp only [List.eq_nil_iff_forall_not_mem, mem_ofKind, hsame]

omit h h' in
theorem ring_standsInFor (layout : Ring.Layout) (kind : Option String) : Ring.StandsInFor layout
    (.build layout (ofKind kind rs)) (.build layout (ofKind kind rs')) :=
  Ring.standsInFor_build layout fun r => by rw [mem_ofKind, mem_ofKind, hsame]

/-- Rings of the same types occur, so what relates the rings type by type relates those that are
there. -/
theorem rel_ofType {R : Ring → Ring → Prop} (hR : ∀ kind, R
      (.build layout (ofKind kind rs)) (.build layout (ofKind kind rs'))) (kind : Option String) :
    Option.Rel R (pool.ofType? kind) (pool'.ofType? kind) := by
  rw [h.ofType?_eq, h'.ofType?_eq]
  by_cases hnil : ofKind kind rs' = []
  · rw [if_pos ((ofKind_eq_nil_iff hsame kind).mpr hnil), if_pos hnil]
    exact .none
  · rw [if_neg fun hrs => hnil ((ofKind_eq_nil_iff hsame kind).mp hrs), if_neg hnil]
    exact .some (hR kind)

theorem service_eq_of_same : pool.service = pool'.service := by
  cases hrs : rs with
  | nil =>
      have hrs' : rs' = [] := List.eq_nil_iff_forall_not_mem.mpr fun r hr => by
        have := (hsame r).mpr hr
        rw [hrs] at this
        cases this
      rw [h.service_eq, h'.service_eq, hrs, hrs']
  | cons r rest =>
      have hr : r ∈ rs := hrs ▸ List.mem_cons_self
      rw [← h.name_eq r hr, h'.name_eq r ((hsame r).mp hr)]

section Nodup

variable (hrs : rs.Nodup) (hrs' : rs'.Nodup)
include hrs hrs'

/-- Without repeated records the rings hold the same records. -/
theorem rel_ofType_of_nodup (kind : Option String) :
    Option.Rel (fun ring ring' => Ring.StandsInFor layout ring ring' ∧
      ring.records.Perm ring'.records) (pool.ofType? kind) (pool'.ofType? kind) := by
  refine h.rel_ofType h' hsame (fun kind => ?_) kind
  have hring := ring_standsInFor hsame layout kind
  exact ⟨hring, hring.perm ((Ring.perm_inOrder _).nodup_iff.mpr (hrs.filter _))
    ((Ring.perm_inOrder _).nodup_iff.mpr (hrs'.filter _))⟩

/-- Without repeated records and twins, pools over the same records are equal. -/
theorem eq_of_same (htwins : ∀ kind, Ring.NoTwins (ofKind kind rs')) : pool = pool' := by
  have hring : ∀ kind, pool.ofType? kind = pool'.ofType? kind := by
    intro kind
    have hrel : Option.Rel Eq (pool.ofType? kind) (pool'.ofType? kind) :=
      h.rel_ofType h' hsame (fun kind => (ring_standsInFor hsame layout kind).eq
        ((Ring.perm_inOrder _).nodup_iff.mpr (hrs.filter _))
        ((Ring.perm_inOrder _).nodup_iff.mpr (hrs'.filter _))
        (Ring.noTwins_records.mpr (htwins kind))) kind
    revert hrel
    generalize pool.ofType? kind = x
    generalize pool'.ofType? kind = y
    rintro (rfl | _) <;> rfl
  have huntyped : pool.untyped = pool'.untyped := hring none
  have htyped : pool.typed = pool'.typed := Dict.ext_find? fun kind => hring (some kind)
  have hsize : pool.size = pool'.size := by
    rw [h.size_eq, h'.size_eq, ((List.perm_ext_iff_of_nodup hrs hrs').mpr hsame).length_eq]
  have hservice := h.service_eq_of_same h' hsame
  obtain ⟨service, untyped, typed, size⟩ := pool
  simp only at hservice huntyped htyped hsize
  rw [hservice, huntyped, htyped, hsize]

end Nodup

theorem standsInFor : StandsInFor layout pool pool' where
  service_eq := h.service_eq_of_same h' hsame
  mem_iff r := by rw [h.records_perm.mem_iff, h'.records_perm.mem_iff, hsame]
  offered := forall₂_offered (h.rel_ofType h' hsame (ring_standsInFor hsame layout))
  of_nodup hnodup hnodup' := by
    have hperm : pool.records.Perm pool'.records :=
      (List.perm_ext_iff_of_nodup hnodup hnodup').mpr fun r => by
        rw [h.records_perm.mem_iff, h'.records_perm.mem_iff, hsame]
    refine ⟨?_, hperm, ?_⟩
    · rw [← h.length_records, ← h'.length_records, hperm.length_eq]
    · exact rel_ring? (h.rel_ofType_of_nodup h' hsame (h.records_perm.nodup_iff.mp hnodup)
        (h'.records_perm.nodup_iff.mp hnodup')) fun _ _ hring => hring.2.length_eq
  of_orders hnodup hnodup' order order' horder horder' t := by
    have hrel := h.rel_ofType_of_nodup h' hsame (h.records_perm.nodup_iff.mp hnodup)
      (h'.records_perm.nodup_iff.mp hnodup')
    have hmem : ∀ {pool : Pool} {order : List Ring} {ring : Ring},
        order.Perm (pool.typed.entries.map (·.2)) → pool.typed.find? t = some ring →
          ring ∈ order := fun {pool} _ _ horder hfind =>
      horder.mem_iff.mpr (List.mem_map_of_mem (pool.typed.mem_entries_iff.mpr hfind))
    refine rel_imp (hrel (some t)) fun ring ring' hfind hfind' hring =>
      ⟨hring.1, hring.2, fun hnone => ?_⟩
    have hnone' : pool'.untyped = none := eq_none_of_rel (hrel none) hnone
    rw [h.draws_eq hnone horder (hmem horder hfind),
      h'.draws_eq hnone' horder' (hmem horder' hfind')]
    exact hring.2.length_eq
  eq hnodup hnodup' htwins := by
    refine h.eq_of_same h' hsame (h.records_perm.nodup_iff.mp hnodup)
      (h'.records_perm.nodup_iff.mp hnodup') fun kind a ha b hb => ?_
    have hmem : ∀ {r}, r ∈ ofKind kind rs' → r ∈ ofKind kind pool'.records := fun hr => by
      rw [mem_ofKind] at hr ⊢
      exact ⟨h'.records_perm.mem_iff.mpr hr.1, hr.2⟩
    exact htwins kind a (hmem ha) b (hmem hb)

end IsOf

end Pool

/-! ### Editions -/

namespace Catalog

variable {layout : Ring.Layout} {c : Catalog} {rs : List Record} {service : String}

/-- Every pool of the catalogue was built of some records. -/
def IsBuilt (layout : Ring.Layout) (c : Catalog) : Prop :=
  ∀ service pool, c.pool? service = some pool → ∃ rs, Pool.build layout rs = .ok pool

/-- The pool that is built of the records of a service, if it has any. -/
def rebuilt? (layout : Ring.Layout) (rs : List Record) (service : String) : Option Pool :=
  let own := rs.filter (·.name = service)
  if own = [] then none else (Pool.build layout own).toOption

theorem build_of_rebuilt? {pool : Pool} (h : rebuilt? layout rs service = some pool) :
    Pool.build layout (rs.filter (·.name = service)) = .ok pool := by
  rw [rebuilt?] at h
  split at h
  · cases h
  · cases hbuild : Pool.build layout (rs.filter (·.name = service)) with
    | ok pool' =>
        rw [hbuild] at h
        exact congrArg Except.ok (Option.some_inj.mp h)
    | error e =>
        rw [hbuild] at h
        cases h

/-- Records without a type make up a pool of one ring. -/
theorem rebuilt?_untyped (layout : Ring.Layout) (hne : rs ≠ [])
    (h : ∀ r ∈ rs, r.name = service ∧ r.kind = none) :
    rebuilt? layout rs service =
      some ⟨some service, some (.build layout rs), .empty, rs.length⟩ := by
  have hown : rs.filter (·.name = service) = rs :=
    List.filter_eq_self.mpr fun r hr => by simp [(h r hr).1]
  have hplain : Pool.ofKind none rs = rs :=
    List.filter_eq_self.mpr fun r hr => by simp [(h r hr).2]
  have hkinds : Pool.kinds rs = [] := List.filterMap_eq_nil_iff.mpr fun r hr => (h r hr).2
  have hhead : rs.head?.map (·.name) = some service := by
    obtain ⟨r, rest, rfl⟩ := List.exists_cons_of_ne_nil hne
    exact congrArg some (h r List.mem_cons_self).1
  have hnone : rs.find? (fun r => some r.name ≠ rs.head?.map (·.name)) = none :=
    List.find?_eq_none.mpr fun r hr => by simp [hhead, (h r hr).1]
  rw [rebuilt?, hown, if_neg hne, Pool.build]
  dsimp only
  rw [hnone, hplain, hkinds, hhead, if_neg (by simpa using hne)]
  rfl

/-- The pool of a service is the one that would be built, or it is carried over. -/
theorem pool?_publish_cases (layout : Ring.Layout) (c : Catalog) (rs : List Record)
    (service : String) :
    (c.publish layout rs).pool? service = rebuilt? layout rs service ∨
      ∃ pool pool', c.pool? service = some pool ∧
        (c.publish layout rs).pool? service = some pool ∧
        rebuilt? layout rs service = some pool' ∧
        ∀ r, r ∈ pool.records ↔ r ∈ rs.filter (·.name = service) := by
  rw [pool?, find?_publish, find?_byService]
  unfold rebuilt?
  dsimp only
  split
  · exact .inl rfl
  · obtain ⟨pool', hpool'⟩ : ∃ pool', Pool.build layout (rs.filter (·.name = service)) =
        .ok pool' := Pool.build_of_same_name fun r hr r' hr' => by
      simp only [List.mem_filter, decide_eq_true_eq] at hr hr'
      exact hr.2.trans hr'.2.symm
    rw [Option.bind_some, nextEntry, hpool']
    split
    · next entry hentry =>
      obtain ⟨hfind, hholds⟩ := Option.filter_eq_some_iff.mp hentry
      refine .inr ⟨entry.pool, pool', ?_, rfl, rfl, Pool.holds_iff.mp hholds⟩
      rw [pool?, hfind]
      rfl
    · exact .inl rfl

/-- A pool that holds the records of its service is carried over. -/
theorem pool?_publish_of_same {pool : Pool} (hpool : c.pool? service = some pool)
    (hne : rs.filter (·.name = service) ≠ [])
    (hsame : ∀ r, r ∈ pool.records ↔ r ∈ rs.filter (·.name = service)) :
    (c.publish layout rs).pool? service = some pool := by
  obtain ⟨entry, hentry, rfl⟩ := Option.map_eq_some_iff.mp hpool
  have hholds := Pool.holds_iff.mpr hsame
  rw [pool?, find?_publish, find?_byService, if_neg hne, Option.bind_some, nextEntry, hentry,
    Option.filter_some, if_pos hholds]
  rfl

theorem pool?_publish_empty (layout : Ring.Layout) (rs : List Record) (service : String) :
    (({} : Catalog).publish layout rs).pool? service = rebuilt? layout rs service := by
  rcases pool?_publish_cases layout {} rs service with heq | ⟨_, _, hold, -⟩
  · exact heq
  · cases hold

theorem isBuilt_empty (layout : Ring.Layout) : ({} : Catalog).IsBuilt layout :=
  fun _ _ hpool => by cases hpool

theorem isBuilt_publish (hc : c.IsBuilt layout) (rs : List Record) :
    (c.publish layout rs).IsBuilt layout := by
  intro service pool hpool
  rcases pool?_publish_cases layout c rs service with heq | ⟨pool', _, hold, hnew, -⟩
  · exact ⟨_, build_of_rebuilt? (heq.symm.trans hpool)⟩
  · cases hnew.symm.trans hpool
    exact hc service _ hold

/-- An edition shows what would have been built, whatever was there before. -/
theorem standsInFor_publish (hc : c.IsBuilt layout) (rs : List Record) (service : String) :
    Option.Rel (Pool.StandsInFor layout) ((c.publish layout rs).pool? service)
      (rebuilt? layout rs service) := by
  rcases pool?_publish_cases layout c rs service with
    heq | ⟨pool, pool', hold, hnew, hrebuilt, hsame⟩
  · rw [heq]
    cases hrebuilt : rebuilt? layout rs service with
    | none => exact .none
    | some pool =>
        have hpool := Pool.isOf_build (build_of_rebuilt? hrebuilt)
        exact .some (hpool.standsInFor hpool fun _ => Iff.rfl)
  · rw [hnew, hrebuilt]
    obtain ⟨rs₀, hbuild⟩ := hc service pool hold
    have hpool := Pool.isOf_build hbuild
    have hpool' := Pool.isOf_build (build_of_rebuilt? hrebuilt)
    exact .some (hpool.standsInFor hpool' fun r => hpool.records_perm.mem_iff.symm.trans (hsame r))

/-- Where no record is repeated and none has a twin, the edition does not depend on the one
before. -/
theorem pool?_publish (hc : c.IsBuilt layout) {rs : List Record} {service : String}
    (hold : ∀ pool, c.pool? service = some pool → pool.records.Nodup)
    (hnew : (rs.filter (·.name = service)).Nodup)
    (htwins : ∀ kind, Ring.NoTwins (Pool.ofKind kind (rs.filter (·.name = service)))) :
    (c.publish layout rs).pool? service = rebuilt? layout rs service := by
  rcases pool?_publish_cases layout c rs service with
    heq | ⟨pool, pool', hpool, heq, hrebuilt, hsame⟩
  · exact heq
  · rw [heq, hrebuilt]
    obtain ⟨rs₀, hbuild⟩ := hc service pool hpool
    have hof := Pool.isOf_build hbuild
    have hof' := Pool.isOf_build (build_of_rebuilt? hrebuilt)
    refine congrArg some (hof.eq_of_same hof' (fun r => ?_)
      (hof.records_perm.nodup_iff.mp (hold pool hpool)) hnew htwins)
    exact hof.records_perm.mem_iff.symm.trans (hsame r)

end Catalog

end ServiceRegistry
