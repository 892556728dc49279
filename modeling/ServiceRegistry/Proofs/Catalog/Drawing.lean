import Mathlib.Algebra.GroupWithZero.Nat
import Mathlib.Data.List.Forall2
import ServiceRegistry.Proofs.Catalog.Editions

/-! # Drawing a ring

Rings stand one after the other, and a draw leads to the ring that holds the record with that
number. In whatever order the rings stand, each gets as many draws as it has records
(`Pool.countP_pick`). -/

namespace ServiceRegistry

deriving instance DecidableEq for Ring

namespace Pool

variable {rings : List Ring} {ring : Ring} {draw : Nat}

theorem exists_pick (h : draw < (rings.map Ring.size).sum) :
    ∃ ring, pick draw rings = some ring := by
  induction rings generalizing draw with
  | nil => cases h
  | cons ring rings ih =>
      simp only [pick]
      split
      · exact ⟨ring, rfl⟩
      · next hge =>
        rw [List.map_cons, List.sum_cons] at h
        exact ih (by omega)

theorem mem_of_pick (h : pick draw rings = some ring) : ring ∈ rings := by
  induction rings generalizing draw with
  | nil => cases h
  | cons first rings ih =>
      simp only [pick] at h
      split at h
      · cases h
        exact List.mem_cons_self
      · exact List.mem_cons_of_mem _ (ih h)

/-- A ring that has records is drawn. -/
theorem exists_draw_of_mem (h : ring ∈ rings) (hne : ring.records ≠ []) :
    ∃ draw < (rings.map Ring.size).sum, pick draw rings = some ring := by
  have hpos : 0 < ring.size := List.length_pos_iff.mpr hne
  induction rings with
  | nil => cases h
  | cons first rings ih =>
      simp only [List.map_cons, List.sum_cons, pick]
      rcases List.mem_cons.mp h with rfl | h
      · exact ⟨0, by omega, if_pos hpos⟩
      · obtain ⟨draw, hlt, hpick⟩ := ih h
        refine ⟨draw + first.size, by omega, ?_⟩
        rw [if_neg (by omega), Nat.add_sub_cancel]
        exact hpick

/-- Every ring gets as many draws as it has records, as often as it stands there. -/
theorem countP_pick (rings : List Ring) (ring : Ring) :
    (List.range (rings.map Ring.size).sum).countP (fun draw => pick draw rings = some ring) =
      rings.count ring * ring.size := by
  induction rings with
  | nil => simp
  | cons first rings ih =>
      rw [List.map_cons, List.sum_cons, List.range_add, List.countP_append, List.countP_map]
      have hfirst : ∀ draw ∈ List.range first.size,
          pick draw (first :: rings) = some first := fun draw hdraw => by
        rw [pick, if_pos (List.mem_range.mp hdraw)]
      have hlater : ∀ draw, pick (first.size + draw) (first :: rings) = pick draw rings :=
        fun draw => by rw [pick, if_neg (by omega), Nat.add_sub_cancel_left]
      have hrest : (List.range (rings.map Ring.size).sum).countP
          ((fun draw => pick draw (first :: rings) = some ring) ∘ (first.size + ·)) =
          rings.count ring * ring.size := by
        simp only [Function.comp_def, hlater]
        exact ih
      rw [hrest, List.count_cons]
      by_cases hring : first = ring
      · subst hring
        have hown : (List.range first.size).countP
            (fun draw => pick draw (first :: rings) = some first) = first.size := by
          rw [List.countP_eq_length.mpr fun draw hdraw => by simp [hfirst draw hdraw],
            List.length_range]
        rw [hown]
        simp [Nat.add_mul, Nat.add_comm]
      · have hnone : (List.range first.size).countP
            (fun draw => pick draw (first :: rings) = some ring) = 0 :=
          List.countP_eq_zero.mpr fun draw hdraw => by simp [hfirst draw hdraw, hring]
        rw [hnone]
        simp [hring]

theorem rel_pick {R : Ring → Ring → Prop} (hsize : ∀ a b, R a b → a.size = b.size)
    {as bs : List Ring} (h : List.Forall₂ R as bs) (draw : Nat) :
    Option.Rel R (pick draw as) (pick draw bs) := by
  induction h generalizing draw with
  | nil => exact .none
  | cons hab _ ih =>
      simp only [pick, hsize _ _ hab]
      split
      · exact .some hab
      · exact ih _

end Pool

end ServiceRegistry
