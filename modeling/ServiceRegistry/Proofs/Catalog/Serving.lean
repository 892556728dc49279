import ServiceRegistry.Proofs.Catalog.Reuse

/-! # Which ring serves a request

A request for a type is served by the records of that type, else by those without one. A request
for no type is served by the records without one, else by those of any type (`Pool.Serves`). A draw
below the number of records always leads to the ring of records that serve the request, unless
there are none (`Pool.IsOf.ring?_cases`), and to each such ring some draw leads
(`Pool.IsOf.exists_draw`). Only a request for no type can leave a choice, if the records have
different types and none is without (`Pool.LeavesChoice`, `Pool.Serves.unique`). -/

namespace ServiceRegistry.Pool

variable {layout : Ring.Layout} {rs rs' : List Record} {pool : Pool} {kind k k' : Option String}
  {rings : List Ring} {ring : Ring} {draw : Nat}

/-! ### Who serves a request -/

/-- The records of type `k` serve a request for a type: they are those of the type, or there are
none of it, and then they are without a type, or of any if the request was for none. -/
structure Serves (rs : List Record) (kind k : Option String) : Prop where
  there : ofKind k rs ≠ []
  rule : k = kind ∨ ofKind kind rs = [] ∧ (kind = none ∨ k = none)

/-- A request leaves open which records serve it: it is for no type, and there are records of
different types but none without. -/
def LeavesChoice (rs : List Record) (kind : Option String) : Prop :=
  kind = none ∧ (∀ r ∈ rs, r.kind ≠ none) ∧ ∃ a ∈ rs, ∃ b ∈ rs, a.kind ≠ b.kind

theorem ofKind_ne_nil_iff : ofKind k rs ≠ [] ↔ ∃ r ∈ rs, r.kind = k := by
  constructor
  · intro hne
    obtain ⟨r, hr⟩ := List.exists_mem_of_ne_nil _ hne
    exact ⟨r, mem_ofKind.mp hr⟩
  · rintro ⟨r, hr, hkind⟩
    exact List.ne_nil_of_mem (mem_ofKind.mpr ⟨hr, hkind⟩)

theorem ofKind_none_eq_nil_iff : ofKind none rs = [] ↔ ∀ r ∈ rs, r.kind ≠ none := by
  simp [ofKind, List.filter_eq_nil_iff]

namespace Serves

theorem congr (h : ∀ r, r ∈ rs ↔ r ∈ rs') (hs : Serves rs kind k) : Serves rs' kind k where
  there hnil := hs.there ((IsOf.ofKind_eq_nil_iff h k).mpr hnil)
  rule := hs.rule.imp_right fun hrule => ⟨(IsOf.ofKind_eq_nil_iff h kind).mp hrule.1, hrule.2⟩

/-- Unless there is a choice the request decides who serves it. -/
theorem unique (hs : Serves rs kind k) (hs' : Serves rs kind k') (h : ¬LeavesChoice rs kind) :
    k = k' := by
  rcases hs.rule with rfl | ⟨hnil, hrule⟩
  · rcases hs'.rule with rfl | ⟨hnil, -⟩
    · rfl
    · exact absurd hnil hs.there
  · rcases hs'.rule with rfl | ⟨-, hrule'⟩
    · exact absurd hnil hs'.there
    · by_contra hne
      -- Either both stand for the records without a type, or the request was for none.
      have hkind : kind = none := by
        rcases hrule with hkind | hk
        · exact hkind
        · exact hrule'.resolve_right fun hk' => hne (hk.trans hk'.symm)
      subst hkind
      obtain ⟨a, ha, hak⟩ := ofKind_ne_nil_iff.mp hs.there
      obtain ⟨b, hb, hbk⟩ := ofKind_ne_nil_iff.mp hs'.there
      refine h ⟨rfl, ofKind_none_eq_nil_iff.mp hnil, a, ha, b, hb, ?_⟩
      rw [hak, hbk]
      exact hne

end Serves

theorem serves_of_leavesChoice (h : LeavesChoice rs kind) {r : Record} (hr : r ∈ rs) :
    Serves rs kind r.kind where
  there := ofKind_ne_nil_iff.mpr ⟨r, hr, rfl⟩
  rule := .inr ⟨h.1 ▸ ofKind_none_eq_nil_iff.mpr h.2.1, .inl h.1⟩

/-- Who serves a key among the records of a type depends on the set of records alone, if none has a
twin. -/
theorem get_ofKind_eq (layout : Ring.Layout) (h : ∀ r, r ∈ rs ↔ r ∈ rs') (htwins : Ring.NoTwins rs')
    (k : Option String) (key : String) :
    (Ring.build layout (ofKind k rs)).get layout key =
      (Ring.build layout (ofKind k rs')).get layout key := by
  refine (IsOf.ring_standsInFor h layout k).get_eq (Ring.noTwins_records.mpr ?_) key
  intro a ha b hb hid
  exact htwins a (mem_ofKind.mp ha).1 b (mem_ofKind.mp hb).1 hid

/-! ### The rings of a pool -/

namespace IsOf

variable (h : IsOf layout rs pool)
include h

theorem ring?_of_there (hne : ofKind kind rs ≠ []) (draw : Nat) :
    pool.ring? kind draw = some (.build layout (ofKind kind rs)) := by
  have hring := h.ofType?_eq kind
  rw [if_neg hne] at hring
  cases kind with
  | none =>
      have hnone : pool.untyped = _ := hring
      rw [ring?, hnone]
      rfl
  | some t =>
      have hsome : pool.typed.find? t = _ := hring
      rw [ring?, hsome]
      rfl

theorem ring?_of_other {t : String} (hnil : ofKind (some t) rs = []) (draw : Nat) :
    pool.ring? (some t) draw =
      if ofKind none rs = [] then none else some (.build layout (ofKind none rs)) := by
  have hsome : pool.typed.find? t = _ := h.ofType?_eq (some t)
  have hnone : pool.untyped = _ := h.ofType?_eq none
  rw [ring?, hsome, if_pos hnil, Option.none_or, hnone]

theorem ring?_none (hnil : ofKind none rs = []) (draw : Nat) :
    pool.ring? none draw = pick draw (pool.typed.entries.map (·.2)) := by
  have hnone : pool.untyped = _ := h.ofType?_eq none
  rw [ring?, hnone, if_pos hnil, Option.none_or]

/-- A request is answered by a ring of records that serve it, if there are such records. -/
theorem ring?_cases (hdraw : draw < max 1 rs.length) (kind : Option String) :
    (∃ k, Serves rs kind k ∧ pool.ring? kind draw = some (.build layout (ofKind k rs))) ∨
      (pool.ring? kind draw = none ∧ ∀ k, ¬Serves rs kind k) := by
  by_cases hkind : ofKind kind rs = []
  · cases kind with
    | some t =>
        rw [h.ring?_of_other hkind]
        split
        · next hnone =>
          refine .inr ⟨rfl, fun k hs => ?_⟩
          rcases hs.rule with rfl | ⟨-, hrule | rfl⟩
          · exact hs.there hkind
          · cases hrule
          · exact hs.there hnone
        · next hnone => exact .inl ⟨none, ⟨hnone, .inr ⟨hkind, .inr rfl⟩⟩, rfl⟩
    | none =>
        rw [h.ring?_none hkind]
        by_cases hrs : rs = []
        · refine .inr ⟨?_, fun k hs => hs.there (by rw [hrs]; rfl)⟩
          rw [Option.eq_none_iff_forall_not_mem]
          intro ring hring
          obtain ⟨t, hne, -⟩ := h.mem_typed_iff.mp (mem_of_pick hring)
          exact hne (by rw [hrs]; rfl)
        · have hlen : 0 < rs.length := List.length_pos_iff.mpr hrs
          have hlt : draw < ((pool.typed.entries.map (·.2)).map Ring.size).sum := by
            rw [h.sum_typed hkind]
            omega
          obtain ⟨ring, hring⟩ := exists_pick hlt
          obtain ⟨t, hne, heq⟩ := h.mem_typed_iff.mp (mem_of_pick hring)
          exact .inl ⟨some t, ⟨hne, .inr ⟨hkind, .inl rfl⟩⟩, by rw [hring, heq]⟩
  · exact .inl ⟨kind, ⟨hkind, .inl rfl⟩, h.ring?_of_there hkind draw⟩

/-- To every ring of records that serve a request some draw leads. -/
theorem exists_draw (hs : Serves rs kind k) :
    ∃ draw < max 1 rs.length, pool.ring? kind draw = some (.build layout (ofKind k rs)) := by
  rcases hs.rule with rfl | ⟨hnil, hrule⟩
  · exact ⟨0, by omega, h.ring?_of_there hs.there 0⟩
  · cases kind with
    | some t =>
        obtain rfl : k = none := hrule.resolve_left fun h => by cases h
        exact ⟨0, by omega, by rw [h.ring?_of_other hnil, if_neg hs.there]⟩
    | none =>
        cases k with
        | none => exact absurd hnil hs.there
        | some t =>
            have hmem := h.mem_typed_iff.mpr ⟨t, hs.there, rfl⟩
            have hne : (Ring.build layout (ofKind (some t) rs)).records ≠ [] :=
              fun hnil => hs.there ((Ring.records_build_eq_nil_iff _ _).mp hnil)
            obtain ⟨draw, hlt, hpick⟩ := exists_draw_of_mem hmem hne
            rw [h.sum_typed hnil] at hlt
            exact ⟨draw, by omega, by rw [h.ring?_none hnil, hpick]⟩

end IsOf

end ServiceRegistry.Pool
