import ServiceRegistry.Proofs.Catalog.Serving

/-! # How a pool divides its records

Records can be pooled unless two of them have different names (`Pool.exists_build_eq_error_iff`).
The rings of a pool divide its records by type, none is empty, and no two are the same
(`Pool.IsOf.mem_rings_iff`, `Pool.IsOf.nodup_typed`). When a ring is drawn, the rings stand one
after the other in some order, and of the draws below the number of records each ring gets as many
as it has records, whatever the order is (`Pool.IsOf.draws_eq`). `Pool.Divides` says all of this of
a pool and its records, and `Pool.pools_divide_fairly` that it holds of every pool that is built. -/

namespace ServiceRegistry

namespace Pool

variable {layout : Ring.Layout} {rs : List Record} {pool : Pool} {kind : Option String}
  {ring : Ring} {rings order : List Ring} {draw : Nat}

/-! ### Building -/

theorem exists_build_eq_error_iff :
    (∃ e, build layout rs = .error e) ↔ ∃ a ∈ rs, ∃ b ∈ rs, a.name ≠ b.name := by
  constructor
  · rintro ⟨e, herror⟩
    by_contra hsame
    push Not at hsame
    obtain ⟨pool, hok⟩ : ∃ pool, build layout rs = .ok pool := build_of_same_name hsame
    cases herror.symm.trans hok
  · rintro ⟨a, ha, b, hb, hne⟩
    cases hbuild : build layout rs with
    | error e => exact ⟨e, rfl⟩
    | ok pool =>
        have hpool := isOf_build hbuild
        exact absurd (Option.some_inj.mp ((hpool.name_eq a ha).trans (hpool.name_eq b hb).symm)) hne

/-! ### All together -/

/-- The pool divides the records by type. A request for a type is offered its records, else those
without a type; a request for none is offered those without a type, else a ring is drawn, and each
ring gets as many draws as it has records, in whatever order the rings stand. -/
structure Divides (rs : List Record) (pool : Pool) : Prop where
  records_perm : pool.records.Perm rs
  records_ne_nil : ∀ ring ∈ pool.rings, ring.records ≠ []
  size_eq : pool.size = (pool.rings.map Ring.size).sum
  of_kind : ∀ t draw, ofKind (some t) rs ≠ [] → ∃ ring, pool.ring? (some t) draw = some ring ∧
    ring.records.Perm (ofKind (some t) rs)
  of_other_kind : ∀ t draw, ofKind (some t) rs = [] → ofKind none rs ≠ [] →
    ∃ ring, pool.ring? (some t) draw = some ring ∧ ring.records.Perm (ofKind none rs)
  of_neither : ∀ t draw, ofKind (some t) rs = [] → ofKind none rs = [] →
    pool.ring? (some t) draw = none
  untyped : ofKind none rs ≠ [] → ∃ ring, pool.untyped = some ring ∧
    ring.records.Perm (ofKind none rs) ∧ ∀ draw, pool.ring? none draw = some ring
  drawn : ofKind none rs = [] → pool.untyped = none ∧
    ∀ draw, pool.ring? none draw = pick draw (pool.typed.entries.map (·.2))
  fair : ofKind none rs = [] → ∀ order, order.Perm (pool.typed.entries.map (·.2)) →
    (∀ draw < pool.size, ∃ ring ∈ order, pick draw order = some ring) ∧
    ∀ ring ∈ order,
      (List.range pool.size).countP (fun draw => pick draw order = some ring) = ring.size

namespace IsOf

variable (h : IsOf layout rs pool)
include h

theorem divides : Divides rs pool where
  records_perm := h.records_perm
  records_ne_nil _ hring := h.records_ne_nil hring
  size_eq := h.size_eq_sum
  of_kind t draw hne := ⟨_, h.ring?_of_there hne draw, Ring.perm_inOrder _⟩
  of_other_kind t draw hnil hne :=
    ⟨_, (h.ring?_of_other hnil draw).trans (if_neg hne), Ring.perm_inOrder _⟩
  of_neither t draw hnil hnone := (h.ring?_of_other hnil draw).trans (if_pos hnone)
  untyped hne := ⟨_, (h.ofType?_eq none).trans (if_neg hne), Ring.perm_inOrder _,
    h.ring?_of_there hne⟩
  drawn hnil := ⟨(h.ofType?_eq none).trans (if_pos hnil), h.ring?_none hnil⟩
  fair hnil order horder := by
    have hsize : pool.size = (order.map Ring.size).sum := by
      rw [(horder.map Ring.size).sum_nat, h.sum_typed hnil, h.size_eq]
    refine ⟨fun draw hdraw => ?_, fun ring hring => ?_⟩
    · obtain ⟨ring, hpick⟩ := exists_pick (hsize ▸ hdraw)
      exact ⟨ring, mem_of_pick hpick, hpick⟩
    · exact h.draws_eq ((h.ofType?_eq none).trans (if_pos hnil)) horder hring

end IsOf

/-- Records are pooled unless two have different names, and a pool divides them by type, with fair
draws where a request leaves the type open. -/
theorem pools_divide_fairly (layout : Ring.Layout) (rs : List Record) :
    ((∃ e, build layout rs = .error e) ↔ ∃ a ∈ rs, ∃ b ∈ rs, a.name ≠ b.name) ∧
      ∀ pool, build layout rs = .ok pool → Divides rs pool :=
  ⟨exists_build_eq_error_iff, fun _ hbuild => (isOf_build hbuild).divides⟩

/-- A printer that takes paper of a size. -/
def printerFor (size : String) (floor : Fin 16) : Record :=
  { Ring.printerOn floor with kind := some size }

/-- Of four draws three lead to the ring of the three printers, in whatever order the rings stand.
-/
theorem pools_divide_fairly_of_three_to_one :
    let rs := [printerFor "a4" 1, printerFor "a4" 2, printerFor "a3" 3, printerFor "a4" 4]
    ∃ pool ring, build .standard rs = .ok pool ∧ pool.ring? (some "a4") 0 = some ring ∧
      ∀ order, order.Perm (pool.typed.entries.map (·.2)) →
        (List.range 4).countP (fun draw => pick draw order = some ring) = 3 := by
  intro rs
  obtain ⟨pool, hbuild⟩ : ∃ pool, build .standard rs = .ok pool :=
    build_of_same_name (by decide)
  have hdivides := (pools_divide_fairly .standard rs).2 pool hbuild
  have hpool := isOf_build hbuild
  have hne : ofKind (some "a4") rs ≠ [] := by decide
  have hsize : (Ring.build .standard (ofKind (some "a4") rs)).size = 3 :=
    (Ring.perm_inOrder _).length_eq
  refine ⟨pool, _, hbuild, hpool.ring?_of_there hne 0, fun order horder => ?_⟩
  have hmem := horder.mem_iff.mpr (hpool.mem_typed_iff.mpr ⟨"a4", hne, rfl⟩)
  have hshare := (hdivides.fair (by decide) order horder).2 _ hmem
  rw [hpool.size_eq, hsize] at hshare
  exact hshare

end Pool

end ServiceRegistry
