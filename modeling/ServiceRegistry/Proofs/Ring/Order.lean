import Mathlib.Data.List.Perm.Basic
import Mathlib.Tactic.Common
import ServiceRegistry.Ring

/-! # The order of the records of a ring

A ring lists its records by identity, and those that share one in the order in which they came
(`Ring.Orders`, `Ring.orders_inOrder`). There is only one such order (`Ring.Orders.unique`), so two
lists of records make the same ring exactly if the records of each identity come in the same order
in both (`Ring.build_eq_iff`). Records that are told apart by their identities therefore make the
same ring in whatever order they come, even where their points meet
(`Ring.input_order_does_not_matter`). -/

namespace ServiceRegistry.Ring

variable {layout : Layout} {rs rs' ordered ordered' : List Record} {r : Record}

theorem mem_inOrder : r ∈ inOrder rs ↔ r ∈ rs := by simp [inOrder]

theorem perm_inOrder (rs : List Record) : (inOrder rs).Perm rs := List.mergeSort_perm rs _

theorem pairwise_inOrder (rs : List Record) :
    (inOrder rs).Pairwise fun a b => a.id.le b.id = true :=
  @List.pairwise_mergeSort _ (fun a b => a.id.le b.id)
    (fun _ _ _ h h' => InstanceId.le_trans h h') (fun a b => InstanceId.le_total a.id b.id) rs

/-! ### One order -/

/-- The records by identity, and those of one identity as they came. -/
structure Orders (rs ordered : List Record) : Prop where
  perm : ordered.Perm rs
  ascending : ordered.Pairwise fun a b => a.id.le b.id = true
  stable : ∀ id, ordered.filter (·.id = id) = rs.filter (·.id = id)

theorem filter_inOrder (rs : List Record) (id : InstanceId) :
    (inOrder rs).filter (·.id = id) = rs.filter (·.id = id) := by
  have hsame : (rs.filter (·.id = id)).Pairwise fun a b => a.id.le b.id = true := by
    refine List.pairwise_iff_forall_sublist.mpr fun {a b} hab => ?_
    have hid : ∀ r ∈ [a, b], r.id = id := fun r hr => by
      simpa using (List.mem_filter.mp (hab.subset hr)).2
    rw [hid a (by simp), hid b (by simp)]
    exact InstanceId.le_refl id
  -- Sorting keeps records in place that stand in order already, and it adds none.
  have hkept : (rs.filter (·.id = id)).Sublist (inOrder rs) :=
    @List.sublist_mergeSort _ (fun a b => a.id.le b.id) rs
      (fun _ _ _ h h' => InstanceId.le_trans h h') (fun a b => InstanceId.le_total a.id b.id)
      _ hsame List.filter_sublist
  have hsub : (rs.filter (·.id = id)).Sublist ((inOrder rs).filter (·.id = id)) := by
    simpa using hkept.filter (·.id = id)
  exact (hsub.eq_of_length ((perm_inOrder rs).filter _).length_eq.symm).symm

theorem orders_inOrder (rs : List Record) : Orders rs (inOrder rs) :=
  ⟨perm_inOrder rs, pairwise_inOrder rs, filter_inOrder rs⟩

/-- Lists with the same records of each identity have the same records. -/
theorem mem_iff_of_filter_eq (h : ∀ id, rs.filter (·.id = id) = rs'.filter (·.id = id))
    (r : Record) : r ∈ rs ↔ r ∈ rs' := by
  have hown : ∀ rs : List Record, r ∈ rs ↔ r ∈ rs.filter (·.id = r.id) := fun rs => by simp
  rw [hown rs, hown rs', h]

/-- Lists by identity are the same if they are so identity by identity. -/
theorem eq_of_filter_eq {xs ys : List Record} (hxs : xs.Pairwise fun a b => a.id.le b.id = true)
    (hys : ys.Pairwise fun a b => a.id.le b.id = true)
    (h : ∀ id, xs.filter (·.id = id) = ys.filter (·.id = id)) : xs = ys := by
  induction xs generalizing ys with
  | nil =>
      refine (List.eq_nil_iff_forall_not_mem.mpr fun r hr => ?_).symm
      cases (mem_iff_of_filter_eq h r).mpr hr
  | cons x xs ih =>
      have hmem := mem_iff_of_filter_eq h
      obtain ⟨y, ys, rfl⟩ := List.exists_cons_of_ne_nil
        (List.ne_nil_of_mem ((hmem x).mp List.mem_cons_self))
      obtain ⟨hx, hxs'⟩ := List.pairwise_cons.mp hxs
      obtain ⟨hy, hys'⟩ := List.pairwise_cons.mp hys
      -- Either list begins with the first of the records whose identity is the lowest of all.
      have hid : x.id = y.id := by
        refine InstanceId.le_antisymm ?_ ?_
        · rcases List.mem_cons.mp ((hmem y).mpr List.mem_cons_self) with rfl | hy
          · exact InstanceId.le_refl _
          · exact hx y hy
        · rcases List.mem_cons.mp ((hmem x).mp List.mem_cons_self) with rfl | hx
          · exact InstanceId.le_refl _
          · exact hy x hx
      have hfirst : x = y := by
        have hown := h x.id
        rw [List.filter_cons_of_pos (by simp), List.filter_cons_of_pos (by simp [hid])] at hown
        exact (List.cons.inj hown).1
      subst hfirst
      have hrest : xs = ys := ih hxs' hys' fun id => by
        have hown := h id
        by_cases hx : x.id = id
        · rw [List.filter_cons_of_pos (by simp [hx]),
            List.filter_cons_of_pos (by simp [hx])] at hown
          exact (List.cons.inj hown).2
        · rwa [List.filter_cons_of_neg (by simp [hx]),
            List.filter_cons_of_neg (by simp [hx])] at hown
      rw [hrest]

theorem Orders.unique (h : Orders rs ordered) (h' : Orders rs ordered') : ordered = ordered' :=
  eq_of_filter_eq h.ascending h'.ascending fun id => (h.stable id).trans (h'.stable id).symm

/-! ### Lists that make the same ring -/

theorem inOrder_eq_iff : inOrder rs = inOrder rs' ↔
    ∀ id, rs.filter (·.id = id) = rs'.filter (·.id = id) := by
  constructor
  · intro h id
    rw [← filter_inOrder rs, ← filter_inOrder rs', h]
  · intro h
    refine eq_of_filter_eq (pairwise_inOrder rs) (pairwise_inOrder rs') fun id => ?_
    rw [filter_inOrder, filter_inOrder, h]

/-- Two lists make the same ring exactly if the records of each identity come in the same order. -/
theorem build_eq_iff : build layout rs = build layout rs' ↔
    ∀ id, rs.filter (·.id = id) = rs'.filter (·.id = id) := by
  rw [← inOrder_eq_iff]
  constructor
  · exact fun h => congrArg records h
  · intro h
    rw [build, build, h]

/-- No two records share an identity. -/
def NoTwins (rs : List Record) : Prop := ∀ a ∈ rs, ∀ b ∈ rs, a.id = b.id → a = b

instance (rs : List Record) : Decidable (NoTwins rs) :=
  inferInstanceAs (Decidable (∀ a ∈ rs, ∀ b ∈ rs, a.id = b.id → a = b))

/-- Without twins the records of an identity are one record, maybe repeated. -/
theorem filter_eq_of_perm (h : rs.Perm rs') (htwins : NoTwins rs') (id : InstanceId) :
    rs.filter (·.id = id) = rs'.filter (·.id = id) := by
  refine List.Perm.eq_of_pairwise (fun a b ha hb _ _ => ?_)
    (List.pairwise_of_forall fun _ _ => trivial) (List.pairwise_of_forall fun _ _ => trivial)
    (h.filter _)
  simp only [List.mem_filter, decide_eq_true_eq] at ha hb
  exact htwins a (h.mem_iff.mp ha.1) b hb.1 (ha.2.trans hb.2.symm)

theorem inOrder_eq (h : rs.Perm rs') (htwins : NoTwins rs') : inOrder rs = inOrder rs' :=
  inOrder_eq_iff.mpr (filter_eq_of_perm h htwins)

/-- Records that are told apart by their identities are listed in the same order and serve the same
keys, in whatever order they came. -/
theorem input_order_does_not_matter (layout : Layout) (h : rs.Perm rs') (htwins : NoTwins rs) :
    (build layout rs).records = (build layout rs').records ∧
      (build layout rs).records.Pairwise (fun a b => a.id.le b.id = true) ∧
      (build layout rs).records.Perm rs ∧
      ∀ key, (build layout rs).get layout key = (build layout rs').get layout key := by
  have hsame : build layout rs = build layout rs' :=
    (build_eq_iff.mpr (filter_eq_of_perm h.symm htwins)).symm
  refine ⟨congrArg records hsame, pairwise_inOrder rs, perm_inOrder rs, fun key => ?_⟩
  rw [hsame]

/-- The printer on a floor, known by the number of the floor. -/
def printerOn (floor : Fin 16) : Record where
  name := "printer"
  kind := none
  id := .ofDigits [floor]
  properties := .empty
  isStatic := false
  name_ne := by decide

/-- All points of two records meet, and one record is repeated. -/
theorem input_order_does_not_matter_where_all_meet :
    let layout : Layout := ⟨fun _ => 0, [1, 2]⟩
    let rs := [printerOn 1, printerOn 2, printerOn 1]
    let rs' := [printerOn 2, printerOn 1, printerOn 1]
    rs.Perm rs' ∧ NoTwins rs ∧ (build layout rs).records = (build layout rs').records ∧
      ∀ key, (build layout rs).get layout key = (build layout rs').get layout key := by
  intro layout rs rs'
  have hperm : rs.Perm rs' := by decide
  have htwins : NoTwins rs := by decide
  obtain ⟨hrecords, -, -, hget⟩ := input_order_does_not_matter layout hperm htwins
  exact ⟨hperm, htwins, hrecords, hget⟩

end ServiceRegistry.Ring
