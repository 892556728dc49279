import ServiceRegistry.Proofs.Announcing.Rosters

/-! # Changes in single steps

A change of a roster is made in single steps (`Roster.Wish.steps`). Steps of several changes can
take turns, and others can look at the roster in between. Made in one go, they are the change
(`Roster.foldl_steps`).

Of a change that has raised the generation nothing is left, with one exception: a record that is
withdrawn is queued for removal after that (`Roster.Wish.left_cases`). -/

namespace ServiceRegistry

namespace Roster

variable {t : Roster} {w : Wish} {r : Record} {found : List Record}

/-- A single step of a change. -/
inductive Touch where
  | want (r : Record)
  | unwant (r : Record)
  | queue (r : Record)
  | unqueue (r : Record)
  | raise
deriving DecidableEq

/-- Make a single step. -/
def touch (t : Roster) : Touch → Roster
  | .want r => t.want r
  | .unwant r => t.unwant r
  | .queue r => t.queue r
  | .unqueue r => t.unqueue r
  | .raise => t.raise

/-- The steps of a change. To withdraw all records is to come across some, one after the other. -/
def Wish.steps (found : List Record) : Wish → List Touch
  | .announce r => [.unqueue r, .want r, .raise]
  | .withdraw r => [.unwant r, .raise, .queue r]
  | .withdrawAll => found.flatMap (fun r => [.queue r, .unwant r]) ++ [.raise]

/-! ### Steps in one go -/

theorem foldl_touch_found (found : List Record) (t : Roster) :
    (found.flatMap fun r => [Touch.queue r, .unwant r]).foldl touch t =
      { desired := t.desired.filter (· ∉ found)
        removals := (found.filter (·.isStatic)).foldl (fun rs r => add r rs) t.removals
        generation := t.generation } := by
  induction found generalizing t with
  | nil => simp
  | cons r found ih =>
      rw [List.flatMap_cons, List.foldl_append, ih]
      have hdesired : (drop r t.desired).filter (· ∉ found) =
          t.desired.filter (· ∉ r :: found) := by
        rw [drop, List.filter_filter]
        exact List.filter_congr fun x _ => by simp [Bool.and_comm]
      refine congrArg₂ (fun ds rs => Roster.mk ds rs t.generation) hdesired ?_
      rw [List.filter_cons]
      split
      · next hs => simp only [List.foldl_cons, List.foldl_nil, touch, unwant, queue, hs, ↓reduceIte]
      · next hs =>
        simp only [List.foldl_cons, List.foldl_nil, touch, unwant, queue, hs, Bool.false_eq_true,
          ↓reduceIte]

/-- All steps of a change in one go, where withdrawing all comes across the desired records. -/
theorem foldl_steps (t : Roster) (w : Wish) : (w.steps t.desired).foldl touch t = t.heed w := by
  cases w with
  | announce r => rfl
  | withdraw r => rfl
  | withdrawAll =>
      have hnone : t.desired.filter (· ∉ t.desired) = [] :=
        List.filter_eq_nil_iff.mpr fun r hr => by simp [hr]
      rw [Wish.steps, List.foldl_append, foldl_touch_found, hnone]
      rfl

/-! ### What is left of a change -/

theorem Wish.raise_mem_steps (w : Wish) (found : List Record) : .raise ∈ w.steps found := by
  cases w <;> simp [steps]

/-- After an element that is not in it, a suffix ends what comes after the element. -/
theorem suffix_of_not_mem {α : Type} {front back left : List α} {a : α}
    (h : left <:+ front ++ a :: back) (hnot : a ∉ left) : left <:+ back := by
  rcases List.suffix_or_suffix_of_suffix h (List.suffix_append front (a :: back)) with hle | hge
  · rcases List.suffix_cons_iff.mp hle with rfl | hback
    · exact absurd List.mem_cons_self hnot
    · exact hback
  · exact absurd (hge.mem List.mem_cons_self) hnot

/-- Once a change has raised the generation there is nothing left of it but to queue a record that
is withdrawn. -/
theorem Wish.left_cases {left : List Touch} (h : left <:+ w.steps found)
    (hraised : .raise ∉ left) : left = [] ∨ ∃ r, w = .withdraw r ∧ left = [.queue r] := by
  cases w with
  | announce r => exact .inl (List.suffix_nil.mp (@suffix_of_not_mem _ [_, _] _ _ _ h hraised))
  | withdraw r =>
      rcases List.suffix_cons_iff.mp (@suffix_of_not_mem _ [_] _ _ _ h hraised) with rfl | hnil
      · exact .inr ⟨r, rfl, rfl⟩
      · exact .inl (List.suffix_nil.mp hnil)
  | withdrawAll => exact .inl (List.suffix_nil.mp (suffix_of_not_mem h hraised))

/-- A step leaves the generation, unless it is to raise it. -/
theorem generation_touch {f : Touch} (h : f ≠ .raise) (t : Roster) :
    (t.touch f).generation = t.generation := by
  cases f with
  | raise => exact absurd rfl h
  | _ => rfl

theorem generation_le_touch (f : Touch) (t : Roster) :
    t.generation ≤ (t.touch f).generation := by
  cases f with
  | raise => exact Nat.le_succ _
  | _ => exact Nat.le_refl _

end Roster

end ServiceRegistry
