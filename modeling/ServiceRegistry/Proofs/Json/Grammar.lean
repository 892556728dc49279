import ServiceRegistry.Proofs.Json.Tokens

/-! # JSON values that are passed over

`Json.IsValue` is the grammar of JSON values, blanks included. A value is passed over up to where it
ends, however deep it is nested (`skipValue_append`), and what is passed over is a value
(`exists_of_skipValue`). -/

namespace ServiceRegistry.Json

/-! ### The grammar -/

/-- A part of a JSON text. -/
inductive Part where
  | value
  /-- What follows a value in an array, up to the end of the array. -/
  | items
  /-- What follows a value in an object, up to the end of the object. -/
  | members
deriving DecidableEq

/-- The key of a member with the colon, and with blanks around it. -/
inductive IsKey : Bytes → Prop
  | parts {w t w' : Bytes} (blank : AllBlank w) (tail : IsTail t) (blank' : AllBlank w') :
      IsKey (w ++ 0x22 :: (t ++ (w' ++ [0x3a])))

/-- The grammar of the parts. -/
inductive IsPart : Part → Bytes → Prop
  | wordNull : IsPart .value (0x6e :: ull)
  | wordTrue : IsPart .value (0x74 :: rue)
  | wordFalse : IsPart .value (0x66 :: alse)
  | number {v : Bytes} (number : IsNumber v) : IsPart .value v
  | negative {v : Bytes} (number : IsNumber v) : IsPart .value (0x2d :: v)
  | string {t : Bytes} (tail : IsTail t) : IsPart .value (0x22 :: t)
  | emptyArray {w : Bytes} (blank : AllBlank w) : IsPart .value (0x5b :: (w ++ [0x5d]))
  | array {w v r : Bytes} (blank : AllBlank w) (first : IsPart .value v)
      (others : IsPart .items r) : IsPart .value (0x5b :: (w ++ (v ++ r)))
  | emptyObject {w : Bytes} (blank : AllBlank w) : IsPart .value (0x7b :: (w ++ [0x7d]))
  | object {k w v r : Bytes} (key : IsKey k) (blank : AllBlank w) (first : IsPart .value v)
      (others : IsPart .members r) : IsPart .value (0x7b :: (k ++ (w ++ (v ++ r))))
  | endOfArray {w : Bytes} (blank : AllBlank w) : IsPart .items (w ++ [0x5d])
  | item {w w' v r : Bytes} (blank : AllBlank w) (blank' : AllBlank w') (next : IsPart .value v)
      (others : IsPart .items r) : IsPart .items (w ++ 0x2c :: (w' ++ (v ++ r)))
  | endOfObject {w : Bytes} (blank : AllBlank w) : IsPart .members (w ++ [0x7d])
  | member {w k w' v r : Bytes} (blank : AllBlank w) (key : IsKey k) (blank' : AllBlank w')
      (next : IsPart .value v) (others : IsPart .members r) :
      IsPart .members (w ++ 0x2c :: (k ++ (w' ++ (v ++ r))))

/-- A JSON value. -/
abbrev IsValue (v : Bytes) : Prop := IsPart .value v

/-- A number with or without a sign. All other values show where they end. -/
def IsNumeral (v : Bytes) : Prop := IsNumber v ∨ ∃ v', v = 0x2d :: v'

/-! ### One step of passing over -/

theorem skipBlanks_cons {w : Bytes} (hw : AllBlank w) {b : UInt8} (hb : isBlank b = false)
    (bs : Bytes) : skipBlanks (w ++ b :: bs) = b :: bs := by
  rw [skipBlanks_append hw, skipBlanks_of_not_isBlank hb]

/-- The first byte of a value decides how it is passed over. -/
theorem skipValue_eq {frames : List Frame} {bs rest : Bytes} {b : UInt8}
    (h : skipBlanks bs = b :: rest) : skipValue frames bs =
      if b = 0x6e then (expect ull rest).bind (afterValue frames)
      else if b = 0x74 then (expect rue rest).bind (afterValue frames)
      else if b = 0x66 then (expect alse rest).bind (afterValue frames)
      else if b = 0x2d then (skipNumber rest).bind (afterValue frames)
      else if (digit? b).isSome then (skipNumber (b :: rest)).bind (afterValue frames)
      else if b = 0x22 then (skipString rest).bind (afterValue frames)
      else if b = 0x5b then
        match skipBlanks rest with
        | [] => .error .ended
        | c :: rest =>
          if c = 0x5d then afterValue frames rest else skipValue (.list :: frames) (c :: rest)
      else if b = 0x7b then
        match skipBlanks rest with
        | [] => .error .ended
        | c :: rest =>
          if c = 0x7d then afterValue frames rest
          else (skipKey (c :: rest)).bind (skipValue (.object :: frames))
      else .error .malformed := by
  rw [skipValue]
  split
  · next h' => rw [h] at h'; cases h'
  · next b' rest' h' =>
      rw [h] at h'
      cases h'
      dsimp only
      -- Both sides ask for the same bytes in the same order.
      iterate 6
        refine ite_congr rfl (fun _ => ?_) fun _ => ?_
        · split <;> next hread => simp only [hread, Except.bind]
      refine ite_congr rfl (fun _ => ?_) fun _ => ite_congr rfl (fun _ => ?_) fun _ => rfl
      · split <;> next hskip => simp only [hskip]
      · split
        · next hskip => simp only [hskip]
        · next hskip =>
            simp only [hskip]
            refine ite_congr rfl (fun _ => rfl) fun _ => ?_
            split <;> next hkey => simp only [hkey, Except.bind]

theorem skipValue_ended {frames : List Frame} {bs : Bytes} (h : skipBlanks bs = []) :
    skipValue frames bs = .error .ended := by
  rw [skipValue]
  split
  · rfl
  · next h' => rw [h] at h'; cases h'

theorem skipValue_array {frames : List Frame} {bs r rest : Bytes} {c : UInt8}
    (h : skipBlanks bs = 0x5b :: r) (h' : skipBlanks r = c :: rest) : skipValue frames bs =
      if c = 0x5d then afterValue frames rest else skipValue (.list :: frames) (c :: rest) := by
  rw [skipValue_eq h, h']
  rfl

theorem skipValue_object {frames : List Frame} {bs r rest : Bytes} {c : UInt8}
    (h : skipBlanks bs = 0x7b :: r) (h' : skipBlanks r = c :: rest) : skipValue frames bs =
      if c = 0x7d then afterValue frames rest
      else (skipKey (c :: rest)).bind (skipValue (.object :: frames)) := by
  rw [skipValue_eq h, h']
  rfl

theorem afterValue_list {frames : List Frame} {bs rest : Bytes} {b : UInt8}
    (h : skipBlanks bs = b :: rest) : afterValue (.list :: frames) bs =
      if b = 0x2c then skipValue (.list :: frames) rest
      else if b = 0x5d then afterValue frames rest else .error .malformed := by
  rw [afterValue]
  split
  · next h' => rw [h] at h'; cases h'
  · next b' rest' h' =>
      rw [h] at h'
      cases h'
      rfl

theorem afterValue_object {frames : List Frame} {bs rest : Bytes} {b : UInt8}
    (h : skipBlanks bs = b :: rest) : afterValue (.object :: frames) bs =
      if b = 0x2c then (skipKey rest).bind (skipValue (.object :: frames))
      else if b = 0x7d then afterValue frames rest else .error .malformed := by
  rw [afterValue]
  split
  · next h' => rw [h] at h'; cases h'
  · next b' rest' h' =>
      rw [h] at h'
      cases h'
      dsimp only
      split_ifs
      · split <;> next hkey => simp only [hkey, Except.bind]
      · rfl
      · rfl

theorem afterValue_ended {frame : Frame} {frames : List Frame} {bs : Bytes}
    (h : skipBlanks bs = []) : afterValue (frame :: frames) bs = .error .ended := by
  rw [afterValue]
  split
  · rfl
  · next h' => rw [h] at h'; cases h'

theorem afterValue_nil (bs : Bytes) : afterValue [] bs = .ok bs := by rw [afterValue]

/-! ### Values are passed over -/

theorem IsNumber.exists_cons {v : Bytes} (h : IsNumber v) : ∃ d v', v = d :: v' ∧ IsDigit d := by
  obtain ⟨hi, -, -⟩ := h
  cases hi with
  | zero => exact ⟨_, _, rfl, by decide⟩
  | digits first => exact ⟨_, _, rfl, first⟩

/-- A value begins with a byte at which no value ends. -/
theorem IsPart.exists_cons {v : Bytes} (h : IsValue v) : ∃ b v', v = b :: v' ∧ ¬ IsBound b := by
  cases h with
  | number number =>
      obtain ⟨d, v', rfl, hd⟩ := number.exists_cons
      exact ⟨d, v', rfl, fun hbound => hbound.not_isDigit hd⟩
  | _ => exact ⟨_, _, rfl, by simp [IsBound, isBlank]⟩

theorem skipBlanks_value {v : Bytes} (h : IsValue v) {w : Bytes} (hw : AllBlank w) (rest : Bytes) :
    ∃ b v', v = b :: v' ∧ skipBlanks (w ++ (v ++ rest)) = b :: (v' ++ rest) ∧ ¬ IsBound b := by
  obtain ⟨b, v', rfl, hb⟩ := h.exists_cons
  have hblank : isBlank b = false := Bool.eq_false_iff.mpr fun hblank => hb (.inl hblank)
  exact ⟨b, v', rfl, skipBlanks_cons hw hblank _, hb⟩

theorem IsKey.exists_append {k : Bytes} (hk : IsKey k) (bs : Bytes) :
    ∃ w t w', AllBlank w ∧ IsTail t ∧ AllBlank w' ∧
      k ++ bs = w ++ 0x22 :: (t ++ (w' ++ 0x3a :: bs)) := by
  obtain ⟨hw, ht, hw'⟩ := hk
  exact ⟨_, _, _, hw, ht, hw', by simp⟩

theorem IsKey.skipBlanks_append {k : Bytes} (hk : IsKey k) (bs : Bytes) :
    ∃ rest, skipBlanks (k ++ bs) = 0x22 :: rest := by
  obtain ⟨w, t, w', hw, -, -, hbytes⟩ := hk.exists_append bs
  exact ⟨_, hbytes ▸ skipBlanks_cons hw (by decide) _⟩

theorem skipKey_skipBlanks (bs : Bytes) : skipKey (skipBlanks bs) = skipKey bs := by
  unfold skipKey
  rw [skipBlanks_skipBlanks]

theorem skipKey_append {k : Bytes} (hk : IsKey k) (bs : Bytes) : skipKey (k ++ bs) = .ok bs := by
  obtain ⟨w, t, w', hw, ht, hw', hbytes⟩ := hk.exists_append bs
  rw [hbytes, skipKey, skipBlanks_cons hw (by decide)]
  dsimp only
  rw [if_pos rfl, skipString_append ht]
  dsimp only
  rw [skipBlanks_cons hw' (by decide)]
  rfl

theorem expect_append (ws bs : Bytes) : expect ws (ws ++ bs) = .ok bs := by
  induction ws with
  | nil => rfl
  | cons w ws ih => rw [List.cons_append, expect, if_pos rfl, ih]

/-- How a part is passed over, whatever frames are around it. -/
def Part.IsPassed : Part → Bytes → Prop
  | value, v => ∀ (frames : List Frame) (w rest : Bytes), AllBlank w → (IsNumeral v → Ends rest) →
      skipValue frames (w ++ (v ++ rest)) = afterValue frames rest
  | items, r => ∀ (frames : List Frame) (rest : Bytes),
      Ends (r ++ rest) ∧ afterValue (.list :: frames) (r ++ rest) = afterValue frames rest
  | members, r => ∀ (frames : List Frame) (rest : Bytes),
      Ends (r ++ rest) ∧ afterValue (.object :: frames) (r ++ rest) = afterValue frames rest

theorem isPassed_number {v : Bytes} (number : IsNumber v) : Part.value.IsPassed v := by
  intro frames w rest hw hrest
  have hskip := skipNumber_append number (hrest (.inl number))
  obtain ⟨d, v', rfl, hd⟩ := number.exists_cons
  have hne : ∀ b, ¬ IsDigit b → d ≠ b := fun b hb hdb => hb (hdb ▸ hd)
  have hblank : isBlank d = false :=
    Bool.eq_false_iff.mpr fun hblank => IsBound.not_isDigit (.inl hblank) hd
  rw [List.cons_append] at hskip ⊢
  rw [skipValue_eq (skipBlanks_cons hw hblank _), if_neg (hne 0x6e (by decide)),
    if_neg (hne 0x74 (by decide)), if_neg (hne 0x66 (by decide)), if_neg (hne 0x2d (by decide)),
    if_pos (show (digit? d).isSome = true from hd), hskip]
  rfl

theorem isPassed_array {w v r : Bytes} (blank : AllBlank w) (first : IsValue v)
    (hv : Part.value.IsPassed v) (hr : Part.items.IsPassed r) :
    Part.value.IsPassed (0x5b :: (w ++ (v ++ r))) := by
  intro frames w' rest hw' _
  obtain ⟨hends, hothers⟩ := hr frames rest
  have hfirst := hv (.list :: frames) [] _ allBlank_nil fun _ => hends
  obtain ⟨b, v', rfl, hskip, hb⟩ := skipBlanks_value first blank (_ ++ rest)
  have hne : b ≠ 0x5d := fun h => hb (.inr (.inr (.inl h)))
  rw [List.cons_append, List.append_assoc, List.append_assoc,
    skipValue_array (skipBlanks_cons hw' (by decide) _) hskip, if_neg hne]
  exact hfirst.trans hothers

theorem isPassed_object {k w v r : Bytes} (key : IsKey k) (blank : AllBlank w)
    (hv : Part.value.IsPassed v) (hr : Part.members.IsPassed r) :
    Part.value.IsPassed (0x7b :: (k ++ (w ++ (v ++ r)))) := by
  intro frames w' rest hw' _
  obtain ⟨hends, hothers⟩ := hr frames rest
  have hfirst := hv (.object :: frames) _ _ blank fun _ => hends
  obtain ⟨bs, hskip⟩ := key.skipBlanks_append (w ++ (v ++ (r ++ rest)))
  rw [List.cons_append, List.append_assoc, List.append_assoc, List.append_assoc,
    skipValue_object (skipBlanks_cons hw' (by decide) _) hskip, if_neg (by decide), ← hskip,
    skipKey_skipBlanks, skipKey_append key]
  exact hfirst.trans hothers

theorem isPassed_item {w w' v r : Bytes} (blank : AllBlank w) (blank' : AllBlank w')
    (hv : Part.value.IsPassed v) (hr : Part.items.IsPassed r) :
    Part.items.IsPassed (w ++ 0x2c :: (w' ++ (v ++ r))) := by
  intro frames rest
  obtain ⟨hends, hothers⟩ := hr frames rest
  have hnext := hv (.list :: frames) _ _ blank' fun _ => hends
  rw [List.append_assoc]
  refine ⟨ends_append blank (ends_cons (by simp [IsBound]) _), ?_⟩
  rw [List.cons_append, afterValue_list (skipBlanks_cons blank (by decide) _), if_pos rfl,
    List.append_assoc, List.append_assoc]
  exact hnext.trans hothers

theorem isPassed_member {w k w' v r : Bytes} (blank : AllBlank w) (key : IsKey k)
    (blank' : AllBlank w') (hv : Part.value.IsPassed v) (hr : Part.members.IsPassed r) :
    Part.members.IsPassed (w ++ 0x2c :: (k ++ (w' ++ (v ++ r)))) := by
  intro frames rest
  obtain ⟨hends, hothers⟩ := hr frames rest
  have hnext := hv (.object :: frames) _ _ blank' fun _ => hends
  rw [List.append_assoc]
  refine ⟨ends_append blank (ends_cons (by simp [IsBound]) _), ?_⟩
  rw [List.cons_append, afterValue_object (skipBlanks_cons blank (by decide) _), if_pos rfl,
    List.append_assoc, List.append_assoc, List.append_assoc, skipKey_append key]
  exact hnext.trans hothers

/-- Every part is passed over. -/
theorem IsPart.isPassed {p : Part} {bs : Bytes} (h : IsPart p bs) : p.IsPassed bs := by
  induction h with
  | wordNull =>
      intro frames w rest hw _
      rw [List.cons_append, skipValue_eq (skipBlanks_cons hw (by decide) _), expect_append]
      rfl
  | wordTrue =>
      intro frames w rest hw _
      rw [List.cons_append, skipValue_eq (skipBlanks_cons hw (by decide) _), expect_append]
      rfl
  | wordFalse =>
      intro frames w rest hw _
      rw [List.cons_append, skipValue_eq (skipBlanks_cons hw (by decide) _), expect_append]
      rfl
  | number number => exact isPassed_number number
  | negative number =>
      intro frames w rest hw hrest
      rw [List.cons_append, skipValue_eq (skipBlanks_cons hw (by decide) _),
        skipNumber_append number (hrest (.inr ⟨_, rfl⟩))]
      rfl
  | string tail =>
      intro frames w rest hw _
      rw [List.cons_append, skipValue_eq (skipBlanks_cons hw (by decide) _),
        skipString_append tail]
      rfl
  | emptyArray blank =>
      intro frames w rest hw _
      rw [List.cons_append, List.append_assoc, List.singleton_append,
        skipValue_array (skipBlanks_cons hw (by decide) _) (skipBlanks_cons blank (by decide) _)]
      rfl
  | array blank first _ hv hr => exact isPassed_array blank first hv hr
  | emptyObject blank =>
      intro frames w rest hw _
      rw [List.cons_append, List.append_assoc, List.singleton_append,
        skipValue_object (skipBlanks_cons hw (by decide) _) (skipBlanks_cons blank (by decide) _)]
      rfl
  | object key blank _ _ hv hr => exact isPassed_object key blank hv hr
  | endOfArray blank =>
      intro frames rest
      rw [List.append_assoc, List.singleton_append]
      refine ⟨ends_append blank (ends_cons (by simp [IsBound]) _), ?_⟩
      rw [afterValue_list (skipBlanks_cons blank (by decide) _)]
      rfl
  | item blank blank' _ _ hv hr => exact isPassed_item blank blank' hv hr
  | endOfObject blank =>
      intro frames rest
      rw [List.append_assoc, List.singleton_append]
      refine ⟨ends_append blank (ends_cons (by simp [IsBound]) _), ?_⟩
      rw [afterValue_object (skipBlanks_cons blank (by decide) _)]
      rfl
  | member blank key blank' _ _ hv hr => exact isPassed_member blank key blank' hv hr

/-- A value that stands alone is passed over up to where it ends. -/
theorem skipValue_append {v : Bytes} (hv : IsValue v) {w : Bytes} (hw : AllBlank w) {rest : Bytes}
    (h : IsNumeral v → Ends rest) : skipValue [] (w ++ (v ++ rest)) = .ok rest :=
  (hv.isPassed [] w rest hw h).trans (afterValue_nil rest)

/-! ### What is passed over is a value -/

theorem eq_append_of_expect {ws bs rest : Bytes} (h : expect ws bs = .ok rest) :
    bs = ws ++ rest := by
  induction ws generalizing bs with
  | nil =>
      cases h
      rfl
  | cons w ws ih =>
      cases bs with
      | nil => cases h
      | cons b bs =>
          rw [expect] at h
          split at h
          · next hb => rw [ih h, hb, List.cons_append]
          · cases h

theorem exists_of_skipKey {bs rest : Bytes} (h : skipKey bs = .ok rest) :
    ∃ k, IsKey k ∧ bs = k ++ rest := by
  obtain ⟨w, hw, hbs⟩ := exists_blanks bs
  unfold skipKey at h
  split at h
  · cases h
  · next b bs' hskip =>
      split at h
      · next hb =>
          split at h
          · cases h
          · next rest₁ hstring =>
              obtain ⟨t, ht, rfl⟩ := exists_of_skipString hstring
              obtain ⟨w', hw', hrest₁⟩ := exists_blanks rest₁
              split at h
              · cases h
              · next c rest₂ hskip' =>
                  split at h
                  · next hc =>
                      cases h
                      refine ⟨_, .parts hw ht hw', ?_⟩
                      rw [hbs, hskip, hb, hrest₁, hskip', hc]
                      simp
                  · cases h
      · cases h

/-- The part of a text that closes a frame. -/
def Frame.part : Frame → Part
  | list => .items
  | object => .members

/-- What closes frames, the innermost first. -/
inductive Closes : List Frame → Bytes → Prop
  | nil : Closes [] []
  | cons {frame : Frame} {frames : List Frame} {r c : Bytes} (part : IsPart frame.part r)
      (more : Closes frames c) : Closes (frame :: frames) (r ++ c)

theorem Closes.exists_cons {frame : Frame} {frames : List Frame} {c : Bytes}
    (h : Closes (frame :: frames) c) :
    ∃ r c', IsPart frame.part r ∧ Closes frames c' ∧ c = r ++ c' := by
  cases h with
  | cons part more => exact ⟨_, _, part, more, rfl⟩

/-- What is passed over from here on: a value, and what closes the frames around it. -/
structure IsRead (bs : Bytes) : Prop where
  value : ∀ {frames : List Frame} {rest : Bytes}, skipValue frames bs = .ok rest →
    ∃ w v c, AllBlank w ∧ IsValue v ∧ Closes frames c ∧ bs = w ++ (v ++ (c ++ rest))
  after : ∀ {frames : List Frame} {rest : Bytes}, afterValue frames bs = .ok rest →
    ∃ c, Closes frames c ∧ bs = c ++ rest

theorem exists_of_afterValue {bs : Bytes} (ih : ∀ bs' : Bytes, bs'.length < bs.length → IsRead bs')
    {frames : List Frame} {rest : Bytes} (h : afterValue frames bs = .ok rest) :
    ∃ c, Closes frames c ∧ bs = c ++ rest := by
  obtain ⟨w, hw, hbs⟩ := exists_blanks bs
  cases frames with
  | nil =>
      rw [afterValue_nil] at h
      cases h
      exact ⟨[], .nil, rfl⟩
  | cons frame frames =>
      cases hskip : skipBlanks bs with
      | nil =>
          rw [afterValue_ended hskip] at h
          cases h
      | cons b bs' =>
          rw [hskip] at hbs
          have hlen : bs'.length < bs.length := by
            rw [hbs, List.length_append, List.length_cons]
            omega
          cases frame with
          | list =>
              rw [afterValue_list hskip] at h
              split at h
              · next hb =>
                  obtain ⟨w', v, c, hw', hv, hc, rfl⟩ := (ih bs' hlen).value h
                  obtain ⟨r, c', hr, hc', rfl⟩ := hc.exists_cons
                  exact ⟨_, .cons (.item hw hw' hv hr) hc', by simp [hbs, hb]⟩
              · split at h
                · next hb =>
                    obtain ⟨c, hc, rfl⟩ := (ih bs' hlen).after h
                    exact ⟨_, .cons (.endOfArray hw) hc, by simp [hbs, hb]⟩
                · cases h
          | object =>
              rw [afterValue_object hskip] at h
              split at h
              · next hb =>
                  obtain ⟨rest₁, hkey, hvalue⟩ := bind_eq_ok h
                  obtain ⟨k, hk, rfl⟩ := exists_of_skipKey hkey
                  rw [List.length_append] at hlen
                  obtain ⟨w', v, c, hw', hv, hc, rfl⟩ := (ih rest₁ (by omega)).value hvalue
                  obtain ⟨r, c', hr, hc', rfl⟩ := hc.exists_cons
                  exact ⟨_, .cons (.member hw hk hw' hv hr) hc', by simp [hbs, hb]⟩
              · split at h
                · next hb =>
                    obtain ⟨c, hc, rfl⟩ := (ih bs' hlen).after h
                    exact ⟨_, .cons (.endOfObject hw) hc, by simp [hbs, hb]⟩
                · cases h

/-- What is passed over begins with a whole value, or with one that is opened. -/
inductive Begins (frames : List Frame) (rest : Bytes) : Bytes → Prop
  | whole {w v rest' : Bytes} (blank : AllBlank w) (value : IsValue v)
      (more : afterValue frames rest' = .ok rest) : Begins frames rest (w ++ (v ++ rest'))
  | array {w w' rest' : Bytes} (blank : AllBlank w) (blank' : AllBlank w')
      (more : skipValue (.list :: frames) rest' = .ok rest) :
      Begins frames rest (w ++ 0x5b :: (w' ++ rest'))
  | object {w k rest' : Bytes} (blank : AllBlank w) (key : IsKey k)
      (more : skipValue (.object :: frames) rest' = .ok rest) :
      Begins frames rest (w ++ 0x7b :: (k ++ rest'))

theorem begins_of_word {frames : List Frame} {w word bs rest : Bytes} {b : UInt8}
    (hw : AllBlank w) (hword : IsValue (b :: word))
    (h : (expect word bs).bind (afterValue frames) = .ok rest) :
    Begins frames rest (w ++ b :: bs) := by
  obtain ⟨rest', hread, hafter⟩ := bind_eq_ok h
  rw [eq_append_of_expect hread]
  exact .whole hw hword hafter

theorem begins_of_array {frames : List Frame} {w bs rest : Bytes} {c : UInt8} (hw : AllBlank w)
    {bs' : Bytes} (hskip : skipBlanks bs = c :: bs')
    (h : (if c = 0x5d then afterValue frames bs' else skipValue (.list :: frames) (c :: bs')) =
      .ok rest) : Begins frames rest (w ++ 0x5b :: bs) := by
  obtain ⟨w', hw', hbs⟩ := exists_blanks bs
  rw [hbs, hskip]
  split at h
  · next hclose =>
      have hwhole := Begins.whole hw (.emptyArray hw') h
      simpa [hclose] using hwhole
  · exact .array hw hw' h

theorem begins_of_object {frames : List Frame} {w bs rest : Bytes} {c : UInt8} (hw : AllBlank w)
    {bs' : Bytes} (hskip : skipBlanks bs = c :: bs')
    (h : (if c = 0x7d then afterValue frames bs'
      else (skipKey (c :: bs')).bind (skipValue (.object :: frames))) = .ok rest) :
    Begins frames rest (w ++ 0x7b :: bs) := by
  split at h
  · next hclose =>
      obtain ⟨w', hw', hbs⟩ := exists_blanks bs
      have hwhole := Begins.whole hw (.emptyObject hw') h
      rw [hbs, hskip]
      simpa [hclose] using hwhole
  · obtain ⟨rest', hkey, hvalue⟩ := bind_eq_ok h
    rw [← hskip, skipKey_skipBlanks] at hkey
    obtain ⟨k, hk, rfl⟩ := exists_of_skipKey hkey
    exact .object hw hk hvalue

theorem begins_of_skipValue {frames : List Frame} {bs rest : Bytes}
    (h : skipValue frames bs = .ok rest) : Begins frames rest bs := by
  obtain ⟨w, hw, hbs⟩ := exists_blanks bs
  cases hskip : skipBlanks bs with
  | nil =>
      rw [skipValue_ended hskip] at h
      cases h
  | cons b bs' =>
      rw [hbs, hskip]
      rw [skipValue_eq hskip] at h
      by_cases hnull : b = 0x6e
      · rw [if_pos hnull] at h
        exact begins_of_word hw (hnull ▸ .wordNull) h
      rw [if_neg hnull] at h
      by_cases htrue : b = 0x74
      · rw [if_pos htrue] at h
        exact begins_of_word hw (htrue ▸ .wordTrue) h
      rw [if_neg htrue] at h
      by_cases hfalse : b = 0x66
      · rw [if_pos hfalse] at h
        exact begins_of_word hw (hfalse ▸ .wordFalse) h
      rw [if_neg hfalse] at h
      by_cases hminus : b = 0x2d
      · rw [if_pos hminus] at h
        obtain ⟨rest', hnumber, hafter⟩ := bind_eq_ok h
        obtain ⟨v, hv, rfl⟩ := exists_of_skipNumber hnumber
        subst hminus
        exact .whole hw (.negative hv) hafter
      rw [if_neg hminus] at h
      by_cases hdigit : (digit? b).isSome = true
      · rw [if_pos hdigit] at h
        obtain ⟨rest', hnumber, hafter⟩ := bind_eq_ok h
        obtain ⟨v, hv, heq⟩ := exists_of_skipNumber hnumber
        exact heq ▸ .whole hw (.number hv) hafter
      rw [if_neg hdigit] at h
      by_cases hquote : b = 0x22
      · rw [if_pos hquote] at h
        obtain ⟨rest', hstring, hafter⟩ := bind_eq_ok h
        obtain ⟨t, ht, rfl⟩ := exists_of_skipString hstring
        subst hquote
        exact .whole hw (.string ht) hafter
      rw [if_neg hquote] at h
      by_cases harray : b = 0x5b
      · rw [if_pos harray] at h
        split at h
        · cases h
        · next hopen => exact harray ▸ begins_of_array hw hopen h
      rw [if_neg harray] at h
      by_cases hobject : b = 0x7b
      · rw [if_pos hobject] at h
        split at h
        · cases h
        · next hopen => exact hobject ▸ begins_of_object hw hopen h
      rw [if_neg hobject] at h
      cases h

theorem exists_of_skipValue_of_isRead {bs : Bytes}
    (ih : ∀ bs' : Bytes, bs'.length < bs.length → IsRead bs') {frames : List Frame} {rest : Bytes}
    (h : skipValue frames bs = .ok rest) :
    ∃ w v c, AllBlank w ∧ IsValue v ∧ Closes frames c ∧ bs = w ++ (v ++ (c ++ rest)) := by
  cases begins_of_skipValue h with
  | @whole w v rest' blank value more =>
      obtain ⟨b, v', rfl, -⟩ := value.exists_cons
      obtain ⟨c, hc, rfl⟩ := (ih rest' (by simp; omega)).after more
      exact ⟨w, _, c, blank, value, hc, rfl⟩
  | @array w w' rest' blank blank' more =>
      obtain ⟨w₁, v, c, hw₁, hv, hc, rfl⟩ := (ih rest' (by simp; omega)).value more
      obtain ⟨r, c₁, hr, hc₁, rfl⟩ := hc.exists_cons
      exact ⟨w, _, c₁, blank, .array (blank'.append hw₁) hv hr, hc₁, by simp⟩
  | @object w k rest' blank key more =>
      obtain ⟨w₁, v, c, hw₁, hv, hc, rfl⟩ := (ih rest' (by simp; omega)).value more
      obtain ⟨r, c₁, hr, hc₁, rfl⟩ := hc.exists_cons
      exact ⟨w, _, c₁, blank, .object key hw₁ hv hr, hc₁, by simp⟩

theorem isRead (bs : Bytes) : IsRead bs := by
  induction hn : bs.length using Nat.strong_induction_on generalizing bs with
  | _ n ih =>
      have ih' : ∀ bs' : Bytes, bs'.length < bs.length → IsRead bs' :=
        fun bs' hlen => ih _ (hn ▸ hlen) bs' rfl
      exact ⟨exists_of_skipValue_of_isRead ih', exists_of_afterValue ih'⟩

/-- What is passed over is a value, with blanks before it. -/
theorem exists_of_skipValue {bs rest : Bytes} (h : skipValue [] bs = .ok rest) :
    ∃ w v, AllBlank w ∧ IsValue v ∧ bs = w ++ (v ++ rest) := by
  obtain ⟨w, v, c, hw, hv, hc, hbs⟩ := (isRead bs).value h
  cases hc
  exact ⟨w, v, hw, hv, hbs⟩

end ServiceRegistry.Json
