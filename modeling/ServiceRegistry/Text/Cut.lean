/-! # Cutting text at a character

Names, paths and addresses are taken apart at a separator. `cut` divides at its first occurrence,
`cutLast` at its last one, `split` at each of them. All three work on the characters of a text. The
parts that the first two leave are the text again when they are joined by the separator (`cut_join`,
`cutLast_join`), and `split` finds elements that were put behind separators (`split_flatMap`). -/

namespace ServiceRegistry.Text

variable (c : Char)

/-! ### At the first occurrence -/

/-- What stands before the first `c`, and what stands after it if `c` occurs. -/
def cut : List Char → List Char × Option (List Char)
  | [] => ([], none)
  | x :: xs =>
    if x = c then ([], some xs)
    else
      let rest := cut xs
      (x :: rest.1, rest.2)

/-- A text without `c` is its own first part. -/
theorem cut_of_not_mem {cs : List Char} (h : c ∉ cs) : cut c cs = (cs, none) := by
  induction cs with
  | nil => rfl
  | cons x xs ih =>
    have hx : x ≠ c := fun e => h (by simp [e])
    have hxs : c ∉ xs := fun e => h (by simp [e])
    simp [cut, hx, ih hxs]

/-- The first `c` after a text without `c` is where the cut falls. -/
theorem cut_append {before after : List Char} (h : c ∉ before) :
    cut c (before ++ c :: after) = (before, some after) := by
  induction before with
  | nil => simp [cut]
  | cons x xs ih =>
    have hx : x ≠ c := fun e => h (by simp [e])
    have hxs : c ∉ xs := fun e => h (by simp [e])
    simp [cut, hx, ih hxs]

/-- The first part never holds the separator. -/
theorem not_mem_cut (cs : List Char) : c ∉ (cut c cs).1 := by
  induction cs with
  | nil => simp [cut]
  | cons x xs ih =>
    by_cases hx : x = c
    · simp [cut, hx]
    · have : c ≠ x := fun e => hx e.symm
      simp [cut, hx, ih, this]

/-- The two parts with the separator between them are the text. -/
theorem cut_join (cs : List Char) :
    (cut c cs).1 ++ (match (cut c cs).2 with | some after => c :: after | none => []) = cs := by
  induction cs with
  | nil => rfl
  | cons x xs ih =>
    by_cases hx : x = c
    · simp [cut, hx]
    · simpa [cut, hx] using ih

/-- The separator with what stands after it, if it stands there. -/
def mark (after : Option (List Char)) : List Char := after.elim [] (c :: ·)

/-- A cut is the one way to write a text with a first part that is free of the separator. -/
theorem cut_eq_iff {cs before : List Char} {after : Option (List Char)} :
    cut c cs = (before, after) ↔ cs = before ++ mark c after ∧ c ∉ before := by
  constructor
  · intro h
    have hjoin := cut_join c cs
    have hfree := not_mem_cut c cs
    rw [h] at hjoin hfree
    refine ⟨hjoin.symm.trans ?_, hfree⟩
    cases after <;> rfl
  · rintro ⟨rfl, hfree⟩
    cases after with
    | none => simpa [mark] using cut_of_not_mem c hfree
    | some after => exact cut_append c hfree

theorem cut_mark {before : List Char} (h : c ∉ before) (after : Option (List Char)) :
    cut c (before ++ mark c after) = (before, after) := (cut_eq_iff c).mpr ⟨rfl, h⟩

/-- A text without `c` before another one does not move the cut. -/
theorem cut_append_left {front : List Char} (h : c ∉ front) (cs : List Char) :
    cut c (front ++ cs) = (front ++ (cut c cs).1, (cut c cs).2) := by
  obtain ⟨hjoin, hfree⟩ := (cut_eq_iff c).mp (rfl : cut c cs = ((cut c cs).1, (cut c cs).2))
  refine (cut_eq_iff c).mpr ⟨?_, fun hmem => (List.mem_append.mp hmem).elim h hfree⟩
  rw [List.append_assoc, ← hjoin]

theorem fst_cut (cs : List Char) : (cut c cs).1 = cs.takeWhile (· ≠ c) := by
  induction cs with
  | nil => rfl
  | cons x xs ih => by_cases hx : x = c <;> simp [cut, hx, ih]

theorem snd_cut_eq_none_iff {cs : List Char} : (cut c cs).2 = none ↔ c ∉ cs := by
  constructor
  · intro h
    obtain ⟨hjoin, hfree⟩ := (cut_eq_iff c).mp (Prod.ext rfl h : cut c cs = ((cut c cs).1, none))
    rw [hjoin]
    simpa [mark] using hfree
  · exact fun h => by rw [cut_of_not_mem c h]

/-! ### At the last occurrence -/

/-- What stands before and after the last `c`, if `c` occurs. -/
def cutLast : List Char → Option (List Char × List Char)
  | [] => none
  | x :: xs =>
    match cutLast xs with
    | some (before, after) => some (x :: before, after)
    | none => if x = c then some ([], xs) else none

@[simp] theorem cutLast_eq_none_iff {cs : List Char} : cutLast c cs = none ↔ c ∉ cs := by
  induction cs with
  | nil => simp [cutLast]
  | cons x xs ih =>
    unfold cutLast
    cases h : cutLast c xs with
    | some p =>
      have : c ∈ xs := Classical.not_not.mp fun e => by simp [ih.mpr e] at h
      simp [this]
    | none =>
      have : c ∉ xs := ih.mp h
      by_cases hx : x = c
      · simp [hx]
      · have : c ≠ x := fun e => hx e.symm
        simp [*]

/-- The last `c` before a text without `c` is where the cut falls. -/
theorem cutLast_append {before after : List Char} (h : c ∉ after) :
    cutLast c (before ++ c :: after) = some (before, after) := by
  induction before with
  | nil => simp [cutLast, (cutLast_eq_none_iff c).mpr h]
  | cons x xs ih => simp [cutLast, ih]

/-- The two parts with the separator between them are the text, and the second is free of it. -/
theorem cutLast_join {cs before after : List Char} (h : cutLast c cs = some (before, after)) :
    before ++ c :: after = cs ∧ c ∉ after := by
  induction cs generalizing before with
  | nil => simp [cutLast] at h
  | cons x xs ih =>
    unfold cutLast at h
    cases hx : cutLast c xs with
    | some p =>
      obtain ⟨b, a⟩ := p
      simp only [hx, Option.some.injEq, Prod.mk.injEq] at h
      obtain ⟨rfl, rfl⟩ := h
      have := ih hx
      simp [this.1, this.2]
    | none =>
      simp only [hx, Option.ite_none_right_eq_some, Option.some.injEq, Prod.mk.injEq] at h
      obtain ⟨rfl, rfl, rfl⟩ := h
      exact ⟨rfl, (cutLast_eq_none_iff x).mp hx⟩

/-! ### At each occurrence -/

/-- The elements between the separators; `n` separators make `n + 1` elements. -/
def split : List Char → List (List Char)
  | [] => [[]]
  | x :: xs =>
    match split xs with
    | [] => [[x]]
    | first :: others => if x = c then [] :: first :: others else (x :: first) :: others

theorem split_ne_nil (cs : List Char) : split c cs ≠ [] := by
  cases cs with
  | nil => simp [split]
  | cons x xs => simp only [split]; split <;> (try split) <;> simp

/-- A text without `c` is its only element. -/
theorem split_of_not_mem {cs : List Char} (h : c ∉ cs) : split c cs = [cs] := by
  induction cs with
  | nil => rfl
  | cons x xs ih =>
    have hx : x ≠ c := fun e => h (by simp [e])
    have hxs : c ∉ xs := fun e => h (by simp [e])
    simp [split, ih hxs, hx]

/-- The first element ends before the first `c`. -/
theorem split_append {before after : List Char} (h : c ∉ before) :
    split c (before ++ c :: after) = before :: split c after := by
  obtain ⟨first, others, hafter⟩ := List.exists_cons_of_ne_nil (split_ne_nil c after)
  induction before with
  | nil => simp [split, hafter]
  | cons x xs ih =>
    have hx : x ≠ c := fun e => h (by simp [e])
    have hxs : c ∉ xs := fun e => h (by simp [e])
    simp [split, ih hxs, hx]

/-- No element holds the separator. -/
theorem not_mem_of_mem_split {cs e : List Char} (h : e ∈ split c cs) : c ∉ e := by
  induction cs generalizing e with
  | nil =>
    rw [split, List.mem_singleton] at h
    simp [h]
  | cons x xs ih =>
    obtain ⟨first, others, hxs⟩ := List.exists_cons_of_ne_nil (split_ne_nil c xs)
    rw [hxs] at ih
    have hfirst : c ∉ first := ih List.mem_cons_self
    by_cases hx : x = c
    · rw [split, hxs] at h
      simp only [hx, ↓reduceIte, List.mem_cons] at h
      rcases h with rfl | rfl | h
      · simp
      · exact hfirst
      · exact ih (List.mem_cons_of_mem _ h)
    · rw [split, hxs] at h
      simp only [hx, ↓reduceIte, List.mem_cons] at h
      rcases h with rfl | h
      · simp [Ne.symm hx, hfirst]
      · exact ih (List.mem_cons_of_mem _ h)

/-- Whatever is not the separator is in an element. -/
theorem exists_mem_split {cs : List Char} {x : Char} (h : x ∈ cs) :
    x = c ∨ ∃ e ∈ split c cs, x ∈ e := by
  induction cs with
  | nil => cases h
  | cons y ys ih =>
    obtain ⟨first, others, hys⟩ := List.exists_cons_of_ne_nil (split_ne_nil c ys)
    rw [hys] at ih
    simp only [split, hys]
    by_cases hy : y = c
    · rw [if_pos hy]
      rcases List.mem_cons.mp h with rfl | h
      · exact .inl hy
      · exact (ih h).imp_right fun ⟨e, he, hx⟩ => ⟨e, List.mem_cons_of_mem _ he, hx⟩
    · rw [if_neg hy]
      rcases List.mem_cons.mp h with rfl | h
      · exact .inr ⟨_, List.mem_cons_self, List.mem_cons_self⟩
      · refine (ih h).imp_right fun ⟨e, he, hx⟩ => ?_
        rcases List.mem_cons.mp he with rfl | he
        · exact ⟨_, List.mem_cons_self, List.mem_cons_of_mem _ hx⟩
        · exact ⟨e, List.mem_cons_of_mem _ he, hx⟩

/-- Elements that were put behind separators are those that are found. -/
theorem split_flatMap {es : List (List Char)} (h : ∀ e ∈ es, c ∉ e) :
    split c (es.flatMap (c :: ·)) = [] :: es := by
  have hfrom : ∀ first : List Char, c ∉ first →
      split c (first ++ es.flatMap (c :: ·)) = first :: es := by
    induction es with
    | nil => exact fun first hfirst => by simpa using split_of_not_mem c hfirst
    | cons e es ih =>
      intro first hfirst
      have hrest := ih (fun e' he' => h e' (List.mem_cons_of_mem e he')) e (h e List.mem_cons_self)
      rw [List.flatMap_cons, List.cons_append, split_append c hfirst, hrest]
  exact hfrom [] List.not_mem_nil

end ServiceRegistry.Text
