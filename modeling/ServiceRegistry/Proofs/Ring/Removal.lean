import ServiceRegistry.Proofs.Ring.Points

/-! # Rings that differ by one record

A record that joins others at any place of a list stands somewhere among them in the order of
identities, and they keep their order (`Ring.inOrder_insert`). So each point goes to that record or
to the one that has it without it (`Ring.holder?_build_insert`), even where points of several
records meet or identities are repeated.

A key is served at the next point (`Ring.IsNext`, `Ring.atPoint?_eq_some_iff`). A key that the
record does not serve is therefore served at the same point by the same record without it
(`Ring.get_build_insert`): leaving a record out moves its own keys only, and adding one moves keys
to it only (`Ring.only_own_keys_move`). -/

namespace ServiceRegistry.Ring

variable {layout : Layout} {rs : List Record} {r : Record} {ps qs : List (UInt32 × Record)}
  {point : UInt32}

/-! ### One record more -/

/-- A record stands before those of its own identity that came after it. -/
theorem exists_inOrder_cons (r : Record) (rs : List Record) :
    ∃ below above, inOrder (r :: rs) = below ++ r :: above ∧ inOrder rs = below ++ above ∧
      (∀ a ∈ below, r.id.le a.id = false) ∧ ∀ a ∈ above, r.id.le a.id = true := by
  obtain ⟨below, above, hcons, hrest, hbelow⟩ :=
    @List.mergeSort_cons _ (fun a b => a.id.le b.id)
      (fun _ _ _ h h' => InstanceId.le_trans h h') (fun a b => InstanceId.le_total a.id b.id) r rs
  refine ⟨below, above, hcons, hrest, fun a ha => by simpa using hbelow a ha, ?_⟩
  have hsorted := pairwise_inOrder (r :: rs)
  rw [inOrder, hcons, List.pairwise_append, List.pairwise_cons] at hsorted
  exact hsorted.2.1.1

theorem inOrder_cons (r : Record) (rs : List Record) :
    inOrder (r :: rs) = (inOrder rs).filter (fun a => !r.id.le a.id) ++
      r :: (inOrder rs).filter fun a => r.id.le a.id := by
  obtain ⟨below, above, hcons, hrest, hbelow, habove⟩ := exists_inOrder_cons r rs
  have hkept : below.filter (fun a => !r.id.le a.id) = below :=
    List.filter_eq_self.mpr fun a ha => by simp [hbelow a ha]
  have hgone : below.filter (fun a => r.id.le a.id) = [] :=
    List.filter_eq_nil_iff.mpr fun a ha => by simp [hbelow a ha]
  have hgone' : above.filter (fun a => !r.id.le a.id) = [] :=
    List.filter_eq_nil_iff.mpr fun a ha => by simp [habove a ha]
  rw [hcons, hrest, List.filter_append, List.filter_append, hkept, hgone, hgone',
    List.filter_eq_self.mpr habove, List.append_nil, List.nil_append]

/-- The others keep their order, whatever the place at which a record joins them. -/
theorem inOrder_insert (xs ys : List Record) (r : Record) :
    ∃ before after, inOrder (xs ++ r :: ys) = before ++ r :: after ∧
      inOrder (xs ++ ys) = before ++ after := by
  induction xs with
  | nil =>
      obtain ⟨before, after, hwith, hwithout, -⟩ := exists_inOrder_cons r ys
      exact ⟨before, after, hwith, hwithout⟩
  | cons x xs ih =>
      obtain ⟨before, after, hwith, hwithout⟩ := ih
      rw [List.cons_append, List.cons_append, inOrder_cons, inOrder_cons, hwith, hwithout]
      simp only [List.filter_append, List.filter_cons]
      -- The record falls on one side of `x`, and the lists on the other side are the same.
      cases hle : x.id.le r.id with
      | true =>
          refine ⟨before.filter (fun a => !x.id.le a.id) ++ after.filter (fun a => !x.id.le a.id) ++
            x :: before.filter (fun a => x.id.le a.id),
            after.filter (fun a => x.id.le a.id), ?_, ?_⟩
          all_goals simp
      | false =>
          refine ⟨before.filter (fun a => !x.id.le a.id), after.filter (fun a => !x.id.le a.id) ++
            x :: (before.filter (fun a => x.id.le a.id) ++ after.filter fun a => x.id.le a.id),
            ?_, ?_⟩
          all_goals simp

theorem placements_insert (layout : Layout) (xs ys : List Record) (r : Record) :
    ∃ before after, placements layout (xs ++ r :: ys) =
        before ++ ((pointsOf layout r).map (·, r) ++ after) ∧
      placements layout (xs ++ ys) = before ++ after := by
  obtain ⟨before, after, hwith, hwithout⟩ := inOrder_insert xs ys r
  refine ⟨before.flatMap fun r => (pointsOf layout r).map (·, r),
    after.flatMap fun r => (pointsOf layout r).map (·, r), ?_, ?_⟩
  · rw [placements, hwith, List.flatMap_append, List.flatMap_cons]
  · rw [placements, hwithout, List.flatMap_append]

theorem holder?_points (layout : Layout) (r : Record) (point : UInt32) :
    holder? point ((pointsOf layout r).map (·, r)).reverse = none ∨
      holder? point ((pointsOf layout r).map (·, r)).reverse = some r := by
  cases h : holder? point ((pointsOf layout r).map (·, r)).reverse with
  | none => exact .inl rfl
  | some r' =>
      obtain ⟨_, -, heq⟩ := List.mem_map.mp (List.mem_reverse.mp (mem_of_holder? h))
      exact .inr (congrArg some (congrArg Prod.snd heq).symm)

/-- A point is given to the record that joined, or it stays with who has it otherwise. -/
theorem holder?_build_insert (layout : Layout) (xs ys : List Record) (r : Record)
    (point : UInt32) :
    holder? point (build layout (xs ++ r :: ys)).points = some r ∨
      holder? point (build layout (xs ++ r :: ys)).points =
        holder? point (build layout (xs ++ ys)).points := by
  obtain ⟨before, after, hwith, hwithout⟩ := placements_insert layout xs ys r
  rw [holder?_build, holder?_build, hwith, hwithout]
  simp only [List.reverse_append, holder?_append]
  cases holder? point after.reverse with
  | some r' => exact .inr rfl
  | none =>
      rcases holder?_points layout r point with hnone | hsome
      · rw [hnone]
        exact .inr rfl
      · rw [hsome]
        exact .inl rfl

/-! ### The next point -/

/-- Where a point is looked up: at the lowest of the points at or above it, or at the lowest of all
if they are all below it. -/
def IsNext (point : UInt32) (ps : List (UInt32 × Record)) (p : UInt32 × Record) : Prop :=
  p ∈ ps ∧ ((point ≤ p.1 ∧ ∀ p' ∈ ps, point ≤ p'.1 → p.1 ≤ p'.1) ∨
    ((∀ p' ∈ ps, p'.1 < point) ∧ ∀ p' ∈ ps, p.1 ≤ p'.1))

variable {p p' : UInt32 × Record}

theorem IsNext.le (h : IsNext point ps p) (h' : IsNext point ps p') : p.1 ≤ p'.1 := by
  obtain ⟨hmem, ⟨hle, hleast⟩ | ⟨-, hleast⟩⟩ := h
  · obtain ⟨hmem', ⟨hle', -⟩ | ⟨hbelow, -⟩⟩ := h'
    · exact hleast p' hmem' hle'
    · exact absurd hle (UInt32.not_le.mpr (hbelow p hmem))
  · exact hleast p' h'.1

/-- There is one next point. -/
theorem IsNext.unique (hps : Ascending ps) (h : IsNext point ps p) (h' : IsNext point ps p') :
    p = p' := by
  have hpoint : p.1 = p'.1 := UInt32.le_antisymm (h.le h') (h'.le h)
  have hholder := holder?_of_mem hps h.1
  rw [hpoint] at hholder
  have hrecord : p.2 = p'.2 := Option.some.inj (hholder.symm.trans (holder?_of_mem hps h'.1))
  exact Prod.ext hpoint hrecord

/-- The next point stays the next one where other points go. -/
theorem IsNext.mono (h : IsNext point ps p) (hp : p ∈ qs)
    (hsub : ∀ p' ∈ qs, ∃ r, (p'.1, r) ∈ ps) : IsNext point qs p := by
  obtain ⟨-, ⟨hle, hleast⟩ | ⟨hbelow, hleast⟩⟩ := h
  · refine ⟨hp, .inl ⟨hle, fun p' hp' => ?_⟩⟩
    obtain ⟨r, hr⟩ := hsub p' hp'
    exact hleast (p'.1, r) hr
  · refine ⟨hp, .inr ⟨fun p' hp' => ?_, fun p' hp' => ?_⟩⟩
    all_goals obtain ⟨r, hr⟩ := hsub p' hp'
    · exact hbelow (p'.1, r) hr
    · exact hleast (p'.1, r) hr

variable {ring : Ring}

theorem atPoint?_eq_none_iff : ring.atPoint? point = none ↔ ring.points = [] := by
  unfold atPoint?
  split
  · next p hfind => simp [List.ne_nil_of_mem (List.mem_of_find?_eq_some hfind)]
  · simp

theorem isNext_of_atPoint? (hring : Ascending ring.points) (h : ring.atPoint? point = some r) :
    ∃ q, IsNext point ring.points (q, r) := by
  unfold atPoint? at h
  split at h
  · next p hfind =>
    cases h
    obtain ⟨hle, before, after, hpoints, hbefore⟩ := List.find?_eq_some_iff_append.mp hfind
    refine ⟨p.1, List.mem_of_find?_eq_some hfind, .inl ⟨by simpa using hle, fun p' hp' hle' => ?_⟩⟩
    have hrest : Ascending (p :: after) :=
      (List.pairwise_append.mp (hpoints ▸ hring)).2.1
    rw [hpoints] at hp'
    rcases List.mem_append.mp hp' with hp' | hp'
    · exact absurd hle' (by simpa using hbefore p' hp')
    · rcases List.mem_cons.mp hp' with rfl | hp'
      · exact UInt32.le_refl _
      · exact UInt32.le_of_lt ((List.pairwise_cons.mp hrest).1 p' hp')
  · next hfind =>
    obtain ⟨p, hhead, rfl⟩ := Option.map_eq_some_iff.mp h
    obtain ⟨ps, hpoints⟩ := List.head?_eq_some_iff.mp hhead
    have hbelow : ∀ p' ∈ ring.points, p'.1 < point := fun p' hp' => by
      simpa using List.find?_eq_none.mp hfind p' hp'
    refine ⟨p.1, List.mem_of_mem_head? hhead, .inr ⟨hbelow, fun p' hp' => ?_⟩⟩
    rw [hpoints] at hring hp'
    rcases List.mem_cons.mp hp' with rfl | hp'
    · exact UInt32.le_refl _
    · exact UInt32.le_of_lt ((List.pairwise_cons.mp hring).1 p' hp')

/-- A point is served by who has the next one. -/
theorem atPoint?_eq_some_iff (hring : Ascending ring.points) :
    ring.atPoint? point = some r ↔ ∃ q, IsNext point ring.points (q, r) := by
  constructor
  · exact isNext_of_atPoint? hring
  · rintro ⟨q, hnext⟩
    cases h : ring.atPoint? point with
    | none => exact absurd (atPoint?_eq_none_iff.mp h) (List.ne_nil_of_mem hnext.1)
    | some r' =>
        obtain ⟨q', hnext'⟩ := isNext_of_atPoint? hring h
        exact congrArg some (congrArg Prod.snd (hnext'.unique hring hnext))

/-! ### Keys -/

theorem get_eq_ok_iff {key : String} :
    ring.get layout key = .ok r ↔ ring.atPoint? (layout.point key) = some r := by
  unfold get
  split <;> simp [*]

/-- Every key is served by one of the records, if there are any. -/
theorem exists_get_build (hoffsets : layout.offsets ≠ []) (hrs : rs ≠ []) (key : String) :
    ∃ r ∈ rs, (build layout rs).get layout key = .ok r := by
  cases hat : (build layout rs).atPoint? (layout.point key) with
  | none =>
      obtain ⟨r, hr⟩ := List.exists_mem_of_ne_nil rs hrs
      obtain ⟨offset, hoffset⟩ := List.exists_mem_of_ne_nil _ hoffsets
      have hnone : holder? (layout.point (r.id.text ++ toString offset))
          (build layout rs).points = none := by
        rw [atPoint?_eq_none_iff.mp hat]
        rfl
      exact absurd (List.mem_map.mpr ⟨offset, hoffset, rfl⟩)
        (holder?_build_eq_none_iff.mp hnone r hr)
  | some r =>
      obtain ⟨q, hnext⟩ := isNext_of_atPoint? (ascending_build layout rs) hat
      have hholder := holder?_of_mem (ascending_build layout rs) hnext.1
      exact ⟨r, (mem_of_holder?_build hholder).1, get_eq_ok_iff.mpr hat⟩

/-- A key that the record does not serve is served as it is without that record. -/
theorem get_build_insert (layout : Layout) (xs ys : List Record) (r : Record) (key : String)
    (h : (build layout (xs ++ r :: ys)).get layout key ≠ .ok r) :
    (build layout (xs ++ ys)).get layout key = (build layout (xs ++ r :: ys)).get layout key := by
  have hstep := holder?_build_insert layout xs ys r
  have hwith := ascending_build layout (xs ++ r :: ys)
  have hwithout := ascending_build layout (xs ++ ys)
  -- No point comes with the smaller ring, so the point at which the key is served stays the next.
  have hsub : ∀ p ∈ (build layout (xs ++ ys)).points,
      ∃ r', (p.1, r') ∈ (build layout (xs ++ r :: ys)).points := by
    intro p hp
    rcases hstep p.1 with hsome | hsame
    · exact ⟨r, mem_of_holder? hsome⟩
    · exact ⟨p.2, mem_of_holder? (hsame.trans (holder?_of_mem hwithout hp))⟩
  cases hat : (build layout (xs ++ r :: ys)).atPoint? (layout.point key) with
  | none =>
      have hnil := atPoint?_eq_none_iff.mp hat
      have hnil' : (build layout (xs ++ ys)).points = [] := by
        refine List.eq_nil_iff_forall_not_mem.mpr fun p hp => ?_
        obtain ⟨r', hr'⟩ := hsub p hp
        rw [hnil] at hr'
        cases hr'
      rw [get, get, hat, atPoint?_eq_none_iff.mpr hnil']
  | some r' =>
      have hne : r' ≠ r := fun heq => h (get_eq_ok_iff.mpr (heq ▸ hat))
      obtain ⟨q, hnext⟩ := (atPoint?_eq_some_iff hwith).mp hat
      have hholder := holder?_of_mem hwith hnext.1
      have hkept : (q, r') ∈ (build layout (xs ++ ys)).points := by
        rcases hstep q with hsome | hsame
        · exact absurd (Option.some.inj (hholder.symm.trans hsome)) hne
        · exact mem_of_holder? (hsame.symm.trans hholder)
      rw [get, get, hat, (atPoint?_eq_some_iff hwithout).mpr ⟨q, hnext.mono hkept hsub⟩]

theorem get_build_eraseIdx (layout : Layout) (rs : List Record) (i : Nat) (hi : i < rs.length)
    (key : String) (h : (build layout rs).get layout key ≠ .ok rs[i]) :
    (build layout (rs.eraseIdx i)).get layout key = (build layout rs).get layout key := by
  have hrs : rs.take i ++ rs[i] :: rs.drop (i + 1) = rs := by simp
  have hinsert := get_build_insert layout (rs.take i) (rs.drop (i + 1)) rs[i] key
  rw [hrs] at hinsert
  rw [List.eraseIdx_eq_take_drop_succ]
  exact hinsert h

/-- Leaving out one record, at whatever position, moves only keys that a record equal to it served;
adding one at any position moves keys to it only. -/
theorem only_own_keys_move (layout : Layout) (rs : List Record) (key : String) :
    (∀ i : Fin rs.length, (build layout rs).get layout key ≠ .ok rs[i] →
      (build layout (rs.eraseIdx i)).get layout key = (build layout rs).get layout key) ∧
    ∀ (i : Nat) (r : Record), (build layout (rs.insertIdx i r)).get layout key = .ok r ∨
      (build layout (rs.insertIdx i r)).get layout key = (build layout rs).get layout key := by
  constructor
  · exact fun i h => get_build_eraseIdx layout rs i i.isLt key h
  · intro i r
    by_cases hi : i ≤ rs.length
    · -- The record is added where it would be left out to come back.
      have hlt : i < (rs.insertIdx i r).length := by
        rw [List.length_insertIdx_of_le_length hi]
        omega
      have hself : (rs.insertIdx i r)[i] = r := List.getElem_insertIdx_self hlt
      by_cases hserved : (build layout (rs.insertIdx i r)).get layout key = .ok r
      · exact .inl hserved
      · have herase := get_build_eraseIdx layout (rs.insertIdx i r) i hlt key
          (by rwa [hself])
        rw [List.eraseIdx_insertIdx_self] at herase
        exact .inr herase.symm
    · rw [List.insertIdx_of_length_lt (by omega)]
      exact .inr rfl

/-- The cache at an address; all of these share an identity. -/
def cacheAt (address : String) : Record where
  name := "cache"
  kind := none
  id := default
  properties := Dict.empty.insert Record.addressKey address
  isStatic := false
  name_ne := by decide

/-- The earlier of two twins, all of whose points the later one has, is left out. -/
theorem only_own_keys_move_of_twins :
    let a := cacheAt "10.0.1.1"
    let b := cacheAt "10.0.1.2"
    (build .standard [a, b]).get .standard "session-1234" ≠ .ok a ∧
      (build .standard [b]).get .standard "session-1234" = .ok b := by
  intro a b
  have htwins : (build .standard [a, b]).get .standard "session-1234" = .ok b :=
    get_build_of_twins (a := a) (b := b) rfl (List.cons_ne_nil _ _) _
  have hne : (build .standard [a, b]).get .standard "session-1234" ≠ .ok a := by
    rw [htwins]
    decide
  exact ⟨hne, ((only_own_keys_move .standard [a, b] _).1 ⟨0, by decide⟩ hne).trans htwins⟩

end ServiceRegistry.Ring
