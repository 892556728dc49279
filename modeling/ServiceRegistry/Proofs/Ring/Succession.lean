import Mathlib.Data.List.Induction
import ServiceRegistry.Proofs.Ring.Removal

/-! # Which record serves a key

Records stand at points by their positions in the order of a ring (`Ring.StandsAt`), and where
several stand at one point, the last of them has it (`Ring.holder?_build_eq_some_iff`). A key is
served at the first point at or above its hash where a record stands, or at the first point of all
when no record stands there or above (`Ring.IsServedAt`). The points of a ring, which are kept in
order and looked up by search, come to the same (`Ring.keys_follow_the_circle`). -/

namespace ServiceRegistry.Ring

variable {layout : Layout} {rs ordered : List Record} {r : Record} {hash point : UInt32} {i j : Nat}

/-! ### Who stands where -/

/-- A point is one of those of the record at a position. -/
def StandsAt (layout : Layout) (ordered : List Record) (point : UInt32) (i : Nat) : Prop :=
  ∃ r, ordered[i]? = some r ∧ point ∈ pointsOf layout r

/-- Of the records that stand at a point, the one at this position is the last. -/
def IsLastAt (layout : Layout) (ordered : List Record) (point : UInt32) (i : Nat) : Prop :=
  StandsAt layout ordered point i ∧ ∀ j, StandsAt layout ordered point j → j ≤ i

theorem StandsAt.lt (h : StandsAt layout ordered point i) : i < ordered.length := by
  obtain ⟨r, hr, -⟩ := h
  exact (List.getElem?_eq_some_iff.mp hr).1

theorem standsAt_concat : StandsAt layout (ordered ++ [r]) point i ↔
    StandsAt layout ordered point i ∨ i = ordered.length ∧ point ∈ pointsOf layout r := by
  constructor
  · rintro ⟨r', hr', hpoint⟩
    rcases Nat.lt_trichotomy i ordered.length with hlt | rfl | hgt
    · rw [List.getElem?_append_left hlt] at hr'
      exact .inl ⟨r', hr', hpoint⟩
    · rw [List.getElem?_concat_length] at hr'
      cases hr'
      exact .inr ⟨rfl, hpoint⟩
    · rw [List.getElem?_eq_none (by simp; omega)] at hr'
      cases hr'
  · rintro (⟨r', hr', hpoint⟩ | ⟨rfl, hpoint⟩)
    · have hlt : i < ordered.length := (List.getElem?_eq_some_iff.mp hr').1
      exact ⟨r', by rw [List.getElem?_append_left hlt, hr'], hpoint⟩
    · exact ⟨r, List.getElem?_concat_length, hpoint⟩

theorem exists_standsAt_iff : (∃ i, StandsAt layout ordered point i) ↔
    ∃ r ∈ ordered, point ∈ pointsOf layout r := by
  constructor
  · rintro ⟨i, r, hr, hpoint⟩
    exact ⟨r, List.mem_of_getElem? hr, hpoint⟩
  · rintro ⟨r, hr, hpoint⟩
    obtain ⟨i, hi⟩ := List.mem_iff_getElem?.mp hr
    exact ⟨i, r, hi, hpoint⟩

theorem holder?_points_eq_some_iff {r' : Record} :
    holder? point ((pointsOf layout r).map (·, r)).reverse = some r' ↔
      point ∈ pointsOf layout r ∧ r = r' := by
  constructor
  · intro h
    obtain ⟨_, hpoint, heq⟩ := List.mem_map.mp (List.mem_reverse.mp (mem_of_holder? h))
    cases heq
    exact ⟨hpoint, rfl⟩
  · rintro ⟨hpoint, rfl⟩
    refine (holder?_points layout r point).resolve_left fun hnone => ?_
    have hmem : (point, r) ∈ ((pointsOf layout r).map (·, r)).reverse :=
      List.mem_reverse.mpr (List.mem_map.mpr ⟨point, hpoint, rfl⟩)
    exact holder?_eq_none_iff.mp hnone (point, r) hmem rfl

/-- A point that is given to record after record stays with the last that stands there. -/
theorem holder?_flatMap_eq_some_iff :
    holder? point (ordered.flatMap fun r => (pointsOf layout r).map (·, r)).reverse = some r ↔
      ∃ i, IsLastAt layout ordered point i ∧ ordered[i]? = some r := by
  induction ordered using List.reverseRecOn generalizing r with
  | nil => simp [holder?, IsLastAt, StandsAt]
  | append_singleton ordered x ih =>
      rw [List.flatMap_append, List.reverse_append, holder?_append, List.flatMap_singleton]
      by_cases hpoint : point ∈ pointsOf layout x
      · -- The last record of all stands there.
        rw [holder?_points_eq_some_iff.mpr ⟨hpoint, rfl⟩, Option.some_or, Option.some_inj]
        have hlast : StandsAt layout (ordered ++ [x]) point ordered.length :=
          standsAt_concat.mpr (.inr ⟨rfl, hpoint⟩)
        constructor
        · rintro rfl
          refine ⟨ordered.length, ⟨hlast, fun j hj => ?_⟩, List.getElem?_concat_length⟩
          have hlt := hj.lt
          rw [List.length_append, List.length_singleton] at hlt
          omega
        · rintro ⟨i, ⟨hi, hhighest⟩, hr⟩
          have hlt := hi.lt
          rw [List.length_append, List.length_singleton] at hlt
          have hle := hhighest _ hlast
          rw [show i = ordered.length by omega, List.getElem?_concat_length] at hr
          exact Option.some_inj.mp hr
      · -- The last record does not matter.
        have hnone : holder? point ((pointsOf layout x).map (·, x)).reverse = none :=
          (holder?_points layout x point).resolve_right fun h =>
            hpoint (holder?_points_eq_some_iff.mp h).1
        have hstands : ∀ j, StandsAt layout (ordered ++ [x]) point j ↔
            StandsAt layout ordered point j := fun j => by
          simp [standsAt_concat, hpoint]
        rw [hnone, Option.none_or, ih]
        simp only [IsLastAt, hstands]
        refine exists_congr fun i => and_congr_right fun hi => ?_
        rw [List.getElem?_append_left hi.1.lt]

theorem holder?_build_eq_some_iff : holder? point (build layout rs).points = some r ↔
    ∃ i, IsLastAt layout (inOrder rs) point i ∧ (inOrder rs)[i]? = some r := by
  rw [holder?_build, placements, holder?_flatMap_eq_some_iff]

theorem exists_mem_points_build_iff : (∃ r, (point, r) ∈ (build layout rs).points) ↔
    ∃ i, StandsAt layout (inOrder rs) point i := by
  constructor
  · rintro ⟨r, hr⟩
    obtain ⟨i, hi, -⟩ := holder?_build_eq_some_iff.mp (holder?_of_mem (ascending_build _ _) hr)
    exact ⟨i, hi.1⟩
  · intro h
    obtain ⟨r, hr, hpoint⟩ := exists_standsAt_iff.mp h
    cases hholder : holder? point (build layout rs).points with
    | none => exact absurd hpoint (holder?_build_eq_none_iff.mp hholder r (mem_inOrder.mp hr))
    | some r' => exact ⟨r', mem_of_holder? hholder⟩

/-! ### The first point from a hash on -/

/-- A hash is served at a point by the record at a position: the point is the lowest at or above the
hash where a record stands, or the lowest of all if none stands there or above, and the record is
the last that stands there. -/
structure IsServedAt (layout : Layout) (ordered : List Record) (hash point : UInt32) (i : Nat) :
    Prop where
  nearest :
    (hash ≤ point ∧ ∀ point' j, StandsAt layout ordered point' j → hash ≤ point' → point ≤ point') ∨
    ((∀ point' j, StandsAt layout ordered point' j → point' < hash) ∧
      ∀ point' j, StandsAt layout ordered point' j → point ≤ point')
  last : IsLastAt layout ordered point i

theorem isNext_iff : IsNext hash (build layout rs).points (point, r) ↔
    ∃ i, IsServedAt layout (inOrder rs) hash point i ∧ (inOrder rs)[i]? = some r := by
  have hmem : (point, r) ∈ (build layout rs).points ↔
      ∃ i, IsLastAt layout (inOrder rs) point i ∧ (inOrder rs)[i]? = some r :=
    Iff.trans ⟨holder?_of_mem (ascending_build layout rs), mem_of_holder?⟩ holder?_build_eq_some_iff
  have hall : ∀ P : UInt32 → Prop, (∀ p ∈ (build layout rs).points, P p.1) ↔
      ∀ point j, StandsAt layout (inOrder rs) point j → P point := by
    intro P
    constructor
    · intro h point j hj
      obtain ⟨r, hr⟩ := exists_mem_points_build_iff.mpr ⟨j, hj⟩
      exact h _ hr
    · rintro h ⟨point, r⟩ hr
      obtain ⟨j, hj⟩ := exists_mem_points_build_iff.mp ⟨r, hr⟩
      exact h point j hj
  rw [IsNext, hmem, hall fun point' => hash ≤ point' → point ≤ point',
    hall fun point' => point' < hash, hall fun point' => point ≤ point']
  constructor
  · rintro ⟨⟨i, hi, hr⟩, hnearest⟩
    exact ⟨i, ⟨hnearest, hi⟩, hr⟩
  · rintro ⟨i, ⟨hnearest, hi⟩, hr⟩
    exact ⟨⟨i, hi, hr⟩, hnearest⟩

/-- A ring without records serves no key. Else a key is served by the last record that stands at the
first point at or above its hash, or at the first point of all, where the records stand in the order
of their identities and those of one identity as they came. -/
theorem keys_follow_the_circle (hoffsets : layout.offsets ≠ []) (h : Orders rs ordered)
    (key : String) :
    ((build layout rs).get layout key = .error .empty ↔ rs = []) ∧
    ∀ r, (build layout rs).get layout key = .ok r ↔
      ∃ point i, IsServedAt layout ordered (layout.point key) point i ∧ ordered[i]? = some r := by
  obtain rfl : ordered = inOrder rs := h.unique (orders_inOrder rs)
  constructor
  · constructor
    · intro herror
      by_contra hne
      obtain ⟨r, -, hok⟩ := exists_get_build hoffsets hne key
      cases herror.symm.trans hok
    · rintro rfl
      simp [get, atPoint?, build, inOrder]
  · intro r
    rw [get_eq_ok_iff, atPoint?_eq_some_iff (ascending_build layout rs)]
    exact exists_congr fun point => isNext_iff

/-- All points of two printers meet below the hash of a key, so the key is served at the first point
by the printer on the higher floor, which came first. -/
theorem keys_follow_the_circle_past_the_last_point :
    let layout : Layout := ⟨fun s => s.length.toUInt32, [0, 10]⟩
    let key := "the lowest of all points serves this key"
    layout.offsets ≠ [] ∧ Orders [printerOn 2, printerOn 1] [printerOn 1, printerOn 2] ∧
      (build layout [printerOn 2, printerOn 1]).get layout key = .ok (printerOn 2) := by
  intro layout key
  have horders : Orders [printerOn 2, printerOn 1] [printerOn 1, printerOn 2] :=
    ⟨by decide, by decide, filter_eq_of_perm (by decide) (by decide)⟩
  have hpoints : ∀ floor ∈ [1, 2], pointsOf layout (printerOn floor) = [37, 38] := by decide
  have hkey : layout.point key = 40 := by decide
  have hstands : ∀ point i, StandsAt layout [printerOn 1, printerOn 2] point i →
      (point = 37 ∨ point = 38) ∧ i ≤ 1 := by
    rintro point i ⟨r, hr, hpoint⟩
    have hi := (List.getElem?_eq_some_iff.mp hr).1
    have hmem : r = printerOn 1 ∨ r = printerOn 2 := by simpa using List.mem_of_getElem? hr
    refine ⟨?_, by simpa using Nat.lt_succ_iff.mp hi⟩
    rcases hmem with rfl | rfl
    · simpa [hpoints] using hpoint
    · simpa [hpoints] using hpoint
  have hserved : IsServedAt layout [printerOn 1, printerOn 2] (layout.point key) 37 1 := by
    refine ⟨.inr ⟨fun point i hi => ?_, fun point i hi => ?_⟩, ⟨_, rfl, ?_⟩, fun j hj => ?_⟩
    · rw [hkey]
      rcases (hstands point i hi).1 with rfl | rfl <;> decide
    · rcases (hstands point i hi).1 with rfl | rfl <;> decide
    · simp [hpoints]
    · exact (hstands 37 j hj).2
  have hoffsets : layout.offsets ≠ [] := by decide
  exact ⟨hoffsets, horders,
    ((keys_follow_the_circle hoffsets horders key).2 (printerOn 2)).mpr ⟨37, 1, hserved, rfl⟩⟩

end ServiceRegistry.Ring
