import ServiceRegistry.Proofs.Ring.Order

/-! # Who has which point

The points of a ring stand in ascending order, so they are determined by who has which point
(`Ring.eq_of_holder?`). A point goes to the record with the highest identity among those that stand
there (`Ring.le_of_holder?`). Where no two records share an identity this leaves no choice: rings
over the same records have the same points, in whatever order and however often the records came
(`Ring.points_build`). Twins are told apart by their order: the later one has all points of both
(`Ring.get_build_of_twins`).

`Ring.StandsInFor` collects what a ring shares with another over the same set of records. -/

namespace ServiceRegistry.Ring

/-! ### Points -/

/-- The record that has a point. -/
def holder? (point : UInt32) : List (UInt32 × Record) → Option Record
  | [] => none
  | p :: ps => if p.1 = point then some p.2 else holder? point ps

/-- The points ascend. -/
abbrev Ascending (ps : List (UInt32 × Record)) : Prop := ps.Pairwise fun p q => p.1 < q.1

variable {point : UInt32} {r : Record} {ps qs : List (UInt32 × Record)}

theorem mem_of_holder? (h : holder? point ps = some r) : (point, r) ∈ ps := by
  induction ps with
  | nil => cases h
  | cons p ps ih =>
      simp only [holder?] at h
      split at h
      · next hp =>
        cases h
        exact hp ▸ List.mem_cons_self
      · exact List.mem_cons_of_mem _ (ih h)

theorem holder?_eq_none_iff : holder? point ps = none ↔ ∀ p ∈ ps, p.1 ≠ point := by
  induction ps with
  | nil => simp [holder?]
  | cons p ps ih => by_cases hp : p.1 = point <;> simp [holder?, hp, ih]

theorem holder?_of_mem (hps : Ascending ps) (h : (point, r) ∈ ps) : holder? point ps = some r := by
  induction ps with
  | nil => cases h
  | cons p ps ih =>
      obtain ⟨hp, hps⟩ := List.pairwise_cons.mp hps
      rcases List.mem_cons.mp h with rfl | h
      · simp [holder?]
      · have hne : p.1 ≠ point := fun e => UInt32.lt_irrefl _ (e ▸ hp _ h)
        simp [holder?, hne, ih hps h]

theorem holder?_append (point : UInt32) (ps qs : List (UInt32 × Record)) :
    holder? point (ps ++ qs) = (holder? point ps).or (holder? point qs) := by
  induction ps with
  | nil => rfl
  | cons p ps ih => by_cases hp : p.1 = point <;> simp [holder?, hp, ih]

theorem holder?_place (point point' : UInt32) (r : Record) (ps : List (UInt32 × Record)) :
    holder? point' (place point r ps) = if point = point' then some r else holder? point' ps := by
  induction ps with
  | nil => simp [place, holder?]
  | cons p ps ih =>
      simp only [place]
      split
      · simp [holder?]
      · split
        · next heq =>
          subst heq
          by_cases h : p.1 = point' <;> simp [holder?, h]
        · next hne =>
          by_cases h : p.1 = point'
          · subst h
            simp [holder?, hne]
          · simp [holder?, h, ih]

theorem mem_place {p : UInt32 × Record} (h : p ∈ place point r ps) : p = (point, r) ∨ p ∈ ps := by
  induction ps with
  | nil => exact .inl (List.mem_singleton.mp h)
  | cons q qs ih =>
      simp only [place] at h
      split at h
      · exact List.mem_cons.mp h
      · split at h
        · exact (List.mem_cons.mp h).imp_right (List.mem_cons_of_mem _)
        · rcases List.mem_cons.mp h with rfl | h
          · exact .inr List.mem_cons_self
          · exact (ih h).imp_right (List.mem_cons_of_mem _)

theorem ascending_place (h : Ascending ps) : Ascending (place point r ps) := by
  induction ps with
  | nil => simp [place]
  | cons p ps ih =>
      obtain ⟨hp, hps⟩ := List.pairwise_cons.mp h
      simp only [place]
      split
      · next hlt =>
        refine List.pairwise_cons.mpr ⟨fun q hq => ?_, h⟩
        rcases List.mem_cons.mp hq with rfl | hq
        · exact hlt
        · exact UInt32.lt_trans hlt (hp q hq)
      · next hge =>
        split
        · next heq =>
          subst heq
          exact List.pairwise_cons.mpr ⟨hp, hps⟩
        · next hne =>
          refine List.pairwise_cons.mpr ⟨fun q hq => ?_, ih hps⟩
          rcases mem_place hq with rfl | hq
          · exact UInt32.lt_of_le_of_ne (UInt32.not_lt.mp hge) (Ne.symm hne)
          · exact hp q hq

/-- Ascending points are determined by who has which. -/
theorem eq_of_holder? (hps : Ascending ps) (hqs : Ascending qs)
    (h : ∀ point, holder? point ps = holder? point qs) : ps = qs := by
  have hsub : ∀ {ps qs : List (UInt32 × Record)}, Ascending ps →
      (∀ point, holder? point ps = holder? point qs) → ∀ p ∈ ps, p ∈ qs := by
    intro ps qs hps h p hp
    exact mem_of_holder? ((h p.1).symm.trans (holder?_of_mem hps hp))
  have hnodup : ∀ {ps : List (UInt32 × Record)}, Ascending ps → ps.Nodup := by
    refine fun h => List.Pairwise.imp (fun {p q} hlt => ?_) h
    rintro rfl
    exact UInt32.lt_irrefl _ hlt
  have hperm : ps.Perm qs := (List.perm_ext_iff_of_nodup (hnodup hps) (hnodup hqs)).mpr fun p =>
    ⟨hsub hps h p, hsub hqs (fun point => (h point).symm) p⟩
  refine hperm.eq_of_pairwise (fun p q _ _ hlt hgt => ?_) hps hqs
  exact absurd (UInt32.lt_trans hlt hgt) (UInt32.lt_irrefl _)

/-! ### Placing -/

variable (layout : Layout) (rs : List Record)

/-- The points of records in the order in which they are given away. -/
def placements : List (UInt32 × Record) :=
  (inOrder rs).flatMap fun r => (pointsOf layout r).map (·, r)

variable {layout rs}

theorem mem_placements :
    (point, r) ∈ placements layout rs ↔ r ∈ rs ∧ point ∈ pointsOf layout r := by
  simp [placements, mem_inOrder, List.mem_flatMap, and_comm, and_left_comm]

theorem pairwise_placements (layout : Layout) (rs : List Record) :
    (placements layout rs).Pairwise fun p q => p.2.id.le q.2.id = true := by
  refine List.pairwise_flatMap.mpr
    ⟨fun r _ => ?_, (pairwise_inOrder rs).imp fun {a b} hle p hp q hq => ?_⟩
  · exact List.pairwise_map.mpr (List.pairwise_of_forall fun _ _ => InstanceId.le_refl r.id)
  · obtain ⟨_, -, rfl⟩ := List.mem_map.mp hp
    obtain ⟨_, -, rfl⟩ := List.mem_map.mp hq
    exact hle

theorem ascending_build (layout : Layout) (rs : List Record) :
    Ascending (build layout rs).points := by
  have hfold : ∀ (qs ps : List (UInt32 × Record)), Ascending ps →
      Ascending (qs.foldl (fun ps q => place q.1 q.2 ps) ps) := by
    intro qs
    induction qs with
    | nil => exact fun _ h => h
    | cons q qs ih => exact fun ps h => ih _ (ascending_place h)
  exact hfold _ [] .nil

/-- A point stays with the record that got it last. -/
theorem holder?_build (layout : Layout) (rs : List Record) (point : UInt32) :
    holder? point (build layout rs).points = holder? point (placements layout rs).reverse := by
  have hfold : ∀ qs ps : List (UInt32 × Record),
      holder? point (qs.foldl (fun ps q => place q.1 q.2 ps) ps) =
        (holder? point qs.reverse).or (holder? point ps) := by
    intro qs
    induction qs with
    | nil => exact fun _ => rfl
    | cons q qs ih =>
        intro ps
        rw [List.foldl_cons, ih, holder?_place, List.reverse_cons, holder?_append, Option.or_assoc]
        by_cases hq : q.1 = point <;> simp [holder?, hq]
  exact (hfold _ []).trans (Option.or_none)

theorem holder?_build_eq_none_iff :
    holder? point (build layout rs).points = none ↔ ∀ r ∈ rs, point ∉ pointsOf layout r := by
  rw [holder?_build, holder?_eq_none_iff]
  constructor
  · exact fun h r hr hp => h (point, r) (List.mem_reverse.mpr (mem_placements.mpr ⟨hr, hp⟩)) rfl
  · rintro h ⟨_, r⟩ hmem rfl
    obtain ⟨hr, hp⟩ := mem_placements.mp (List.mem_reverse.mp hmem)
    exact h r hr hp

theorem mem_of_holder?_build (h : holder? point (build layout rs).points = some r) :
    r ∈ rs ∧ point ∈ pointsOf layout r := by
  rw [holder?_build] at h
  exact mem_placements.mp (List.mem_reverse.mp (mem_of_holder? h))

/-- The record that has a point is above all others that stand there. -/
theorem le_of_holder? (h : holder? point (build layout rs).points = some r) {r' : Record}
    (hr' : r' ∈ rs) (hp : point ∈ pointsOf layout r') : r'.id.le r.id = true := by
  rw [holder?_build] at h
  have hmem : (point, r') ∈ (placements layout rs).reverse :=
    List.mem_reverse.mpr (mem_placements.mpr ⟨hr', hp⟩)
  have hsorted := List.pairwise_reverse.mpr (pairwise_placements layout rs)
  generalize (placements layout rs).reverse = ps at h hmem hsorted
  induction ps with
  | nil => cases hmem
  | cons p ps ih =>
      obtain ⟨hfirst, hrest⟩ := List.pairwise_cons.mp hsorted
      simp only [holder?] at h
      split at h
      · cases h
        rcases List.mem_cons.mp hmem with rfl | hmem
        · exact InstanceId.le_refl _
        · exact hfirst _ hmem
      · next hne =>
        rcases List.mem_cons.mp hmem with rfl | hmem
        · exact absurd rfl hne
        · exact ih h hmem hrest

/-! ### Rings over the same records -/

variable {rs' : List Record}

theorem points_build (h : ∀ r, r ∈ rs ↔ r ∈ rs') (hrs : NoTwins rs') :
    (build layout rs).points = (build layout rs').points := by
  refine eq_of_holder? (ascending_build _ _) (ascending_build _ _) fun point => ?_
  cases hh : holder? point (build layout rs').points with
  | none =>
      rw [holder?_build_eq_none_iff] at hh ⊢
      exact fun r hr => hh r ((h r).mp hr)
  | some r =>
      obtain ⟨hr, hp⟩ := mem_of_holder?_build hh
      cases hh' : holder? point (build layout rs).points with
      | none => exact absurd hp (holder?_build_eq_none_iff.mp hh' r ((h r).mpr hr))
      | some r' =>
          obtain ⟨hr', hp'⟩ := mem_of_holder?_build hh'
          have hle := le_of_holder? hh ((h r').mp hr') hp'
          have hge := le_of_holder? hh' ((h r).mpr hr) hp
          rw [hrs r' ((h r').mp hr') r hr (InstanceId.le_antisymm hle hge)]

/-- What a ring shares with another over the same set of records: who is asked for a key as long as
no two records share an identity, how many records there are as long as none is repeated, and
everything if both hold. -/
structure StandsInFor (layout : Layout) (ring ring' : Ring) : Prop where
  mem_iff : ∀ r, r ∈ ring.records ↔ r ∈ ring'.records
  get_eq : NoTwins ring'.records → ∀ key, ring.get layout key = ring'.get layout key
  perm : ring.records.Nodup → ring'.records.Nodup → ring.records.Perm ring'.records
  eq : ring.records.Nodup → ring'.records.Nodup → NoTwins ring'.records → ring = ring'

theorem noTwins_records : NoTwins (build layout rs).records ↔ NoTwins rs := by
  simp [NoTwins, build, mem_inOrder]

theorem standsInFor_build (layout : Layout) (h : ∀ r, r ∈ rs ↔ r ∈ rs') :
    StandsInFor layout (build layout rs) (build layout rs') where
  mem_iff r := by simp [build, mem_inOrder, h]
  get_eq hrs key := by
    rw [get, get, atPoint?, atPoint?, points_build h (noTwins_records.mp hrs)]
  perm hnodup hnodup' := (List.perm_ext_iff_of_nodup hnodup hnodup').mpr fun r => by
    simp [build, mem_inOrder, h]
  eq hnodup hnodup' hrs := by
    rw [noTwins_records] at hrs
    have hperm : rs.Perm rs' := (List.perm_ext_iff_of_nodup
      ((perm_inOrder rs).nodup_iff.mp hnodup) ((perm_inOrder rs').nodup_iff.mp hnodup')).mpr h
    have hpoints : (build layout rs).points = (build layout rs').points := points_build h hrs
    have hrecords := inOrder_eq hperm hrs
    simp only [build] at hpoints ⊢
    rw [hpoints, hrecords]

/-! ### Twins -/

/-- Of two records of one identity the later one is asked for every key. -/
theorem get_build_of_twins {a b : Record} (h : a.id = b.id) (hoffsets : layout.offsets ≠ [])
    (key : String) : (build layout [a, b]).get layout key = .ok b := by
  have horder : inOrder [a, b] = [a, b] :=
    List.mergeSort_of_pairwise (by simp [h, InstanceId.le_refl])
  have hsame : pointsOf layout a = pointsOf layout b := by simp [pointsOf, h]
  have hall : ∀ p ∈ (build layout [a, b]).points, p.2 = b := by
    intro p hp
    have hholder := holder?_of_mem (ascending_build layout [a, b]) hp
    have hp' : p.1 ∈ pointsOf layout b := by
      obtain ⟨hmem, hpoint⟩ := mem_of_holder?_build hholder
      rcases List.mem_cons.mp hmem with heq | hmem
      · exact hsame ▸ heq ▸ hpoint
      · exact List.mem_singleton.mp hmem ▸ hpoint
    rw [holder?_build, placements, horder] at hholder
    simp only [List.flatMap_cons, List.flatMap_nil, List.append_nil, List.reverse_append,
      holder?_append] at hholder
    cases hb : holder? p.1 ((pointsOf layout b).map (·, b)).reverse with
    | none =>
        refine absurd rfl (holder?_eq_none_iff.mp hb (p.1, b) ?_)
        exact List.mem_reverse.mpr (List.mem_map.mpr ⟨_, hp', rfl⟩)
    | some r =>
        obtain ⟨_, -, heq⟩ := List.mem_map.mp (List.mem_reverse.mp (mem_of_holder? hb))
        rw [hb] at hholder
        cases hholder
        exact (congrArg Prod.snd heq).symm
  have hne : (build layout [a, b]).points ≠ [] := by
    obtain ⟨offset, hoffset⟩ := List.exists_mem_of_ne_nil _ hoffsets
    intro hnil
    have hnone : holder? (layout.point (b.id.text ++ toString offset))
        (build layout [a, b]).points = none := by rw [hnil]; rfl
    exact holder?_build_eq_none_iff.mp hnone b (by simp) (List.mem_map.mpr ⟨offset, hoffset, rfl⟩)
  have hat : ∀ point, (build layout [a, b]).atPoint? point = some b := by
    intro point
    unfold atPoint?
    split
    · next p hfind => rw [hall p (List.mem_of_find?_eq_some hfind)]
    · obtain ⟨p, ps, hps⟩ := List.exists_cons_of_ne_nil hne
      rw [hps, List.head?_cons, Option.map_some, hall p (hps ▸ List.mem_cons_self)]
  rw [get, hat]

end ServiceRegistry.Ring
