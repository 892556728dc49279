import ServiceRegistry.Proofs.Store.Paths
import ServiceRegistry.Text.Blank

/-! # Paths and their elements

`Path.ofElements` puts a slash before each of some elements. The chain to some elements consists of
the paths of their front parts (`Path.mem_chain_iff`). A path is tidy if it has elements, each with
a slash before it, and none of them is blank (`Path.IsTidy`); just these paths are found again when
their visible elements are put together (`Path.mem_chain_visible_iff`). -/

namespace ServiceRegistry.Path

variable {path name : String} {es : List String}

/-! ### Elements -/

/-- The path of some elements, each a child of those before. -/
def ofElements (es : List String) : String := es.foldl child ""

theorem toList_foldl_child (above : String) (es : List String) :
    (es.foldl child above).toList = above.toList ++ (es.map String.toList).flatMap ('/' :: ·) := by
  induction es generalizing above with
  | nil => simp
  | cons e es ih =>
      rw [List.foldl_cons, ih, toList_child]
      simp

theorem toList_ofElements (es : List String) :
    (ofElements es).toList = (es.map String.toList).flatMap ('/' :: ·) := by
  rw [ofElements, toList_foldl_child]
  rfl

theorem parent_child_top (h : IsName name) : parent (child "" name) = root := by
  have hcut : Text.cutLast '/' (child "" name).toList = some ([], name.toList) := by
    rw [toList_child]
    exact Text.cutLast_append '/' h
  rw [parent, hcut]

/-! ### Chains -/

theorem mem_chain_go_iff {above : String} : path ∈ chain.go above es ↔
    ∃ front, front ≠ [] ∧ front <+: es ∧ path = front.foldl child above := by
  induction es generalizing above with
  | nil => simp [chain.go]
  | cons e es ih =>
      rw [chain.go, List.mem_cons, ih]
      constructor
      · rintro (rfl | ⟨front, -, hfront, rfl⟩)
        · exact ⟨[e], List.cons_ne_nil _ _, List.prefix_cons_inj e |>.mpr List.nil_prefix, rfl⟩
        · exact ⟨e :: front, List.cons_ne_nil _ _, (List.prefix_cons_inj e).mpr hfront, rfl⟩
      · rintro ⟨front, hne, hfront, rfl⟩
        obtain ⟨first, rest, rfl⟩ := List.exists_cons_of_ne_nil hne
        obtain ⟨rfl, hrest⟩ := List.cons_prefix_cons.mp hfront
        by_cases hnil : rest = []
        · subst hnil
          exact .inl rfl
        · exact .inr ⟨rest, hnil, hrest, rfl⟩

/-- The paths that lead to some elements are those of the first few of them. -/
theorem mem_chain_iff :
    path ∈ chain es ↔ ∃ front, front ≠ [] ∧ front <+: es ∧ path = ofElements front :=
  mem_chain_go_iff

/-- The path of the second node goes on where the path of the first ends. -/
def IsAbove (p q : String) : Prop := p.toList <+: q.toList ∧ p ≠ q

theorem isAbove_foldl_child {above : String} (h : es ≠ []) :
    IsAbove above (es.foldl child above) := by
  rw [IsAbove, ← String.toList_inj.ne, toList_foldl_child]
  obtain ⟨first, rest, rfl⟩ := List.exists_cons_of_ne_nil h
  simp

/-- A chain goes from the top down. -/
theorem pairwise_chain_go {above : String} : (chain.go above es).Pairwise IsAbove := by
  induction es generalizing above with
  | nil => exact .nil
  | cons e es ih =>
      refine .cons (fun q hq => ?_) ih
      obtain ⟨front, hne, -, rfl⟩ := mem_chain_go_iff.mp hq
      exact isAbove_foldl_child hne

/-! ### Tidy paths -/

/-- The path has elements, a slash before each of them, and none is blank. -/
def IsTidy (path : String) : Prop :=
  ∃ es, es ≠ [] ∧ (∀ e ∈ es, IsName e ∧ Text.allBlank e = false) ∧ path = ofElements es

/-- The elements of a path that are not blank. -/
def visible (path : String) : List String :=
  ((Text.split '/' path.toList).map String.ofList).filter fun e => !Text.allBlank e

theorem visible_spec {e : String} (h : e ∈ visible path) :
    IsName e ∧ Text.allBlank e = false := by
  obtain ⟨hmem, hblank⟩ := List.mem_filter.mp h
  obtain ⟨cs, hcs, rfl⟩ := List.mem_map.mp hmem
  refine ⟨?_, by simpa using hblank⟩
  rw [IsName, String.toList_ofList]
  exact Text.not_mem_of_mem_split '/' hcs

theorem visible_ofElements (h : ∀ e ∈ es, IsName e ∧ Text.allBlank e = false) :
    visible (ofElements es) = es := by
  have hsplit : Text.split '/' (ofElements es).toList = [] :: es.map String.toList := by
    rw [toList_ofElements]
    refine Text.split_flatMap '/' fun cs hcs => ?_
    obtain ⟨e, he, rfl⟩ := List.mem_map.mp hcs
    exact (h e he).1
  have hkept : es.filter (fun e => !Text.allBlank e) = es :=
    List.filter_eq_self.mpr fun e he => by simp [(h e he).2]
  have hmap : (es.map String.toList).map String.ofList = es := by simp
  rw [visible, hsplit, List.map_cons, hmap, List.filter_cons_of_neg (by decide), hkept]

/-- The way along a path's visible elements comes by the path itself if it is tidy. -/
theorem mem_chain_visible_iff : path ∈ chain (visible path) ↔ IsTidy path := by
  rw [mem_chain_iff]
  constructor
  · rintro ⟨front, hne, hfront, hpath⟩
    exact ⟨front, hne, fun e he => visible_spec (hfront.subset he), hpath⟩
  · rintro ⟨es, hne, hes, hpath⟩
    have hvisible : visible path = es := hpath ▸ visible_ofElements hes
    exact ⟨es, hne, hvisible ▸ List.prefix_rfl, hpath⟩

instance (path : String) : Decidable (IsTidy path) := decidable_of_iff _ mem_chain_visible_iff

example : IsTidy "/ness/srvc" ∧ ¬IsTidy "ness/srvc" ∧ ¬IsTidy "/ness//srvc" := by decide

/-! ### On the way -/

/-- The node of the first few elements of a path that are not blank, at least one. -/
def IsOnTheWay (path p : String) : Prop :=
  ∃ front, front ≠ [] ∧ front <+: visible path ∧ p = ofElements front

theorem IsOnTheWay.ne_root {p : String} (h : IsOnTheWay path p) : p ≠ root := by
  obtain ⟨front, hne, hfront, rfl⟩ := h
  obtain ⟨e, rest, rfl⟩ := List.exists_cons_of_ne_nil hne
  have hblank := (visible_spec (hfront.subset List.mem_cons_self)).2
  intro heq
  have htext := congrArg String.toList heq
  rw [toList_ofElements] at htext
  obtain ⟨he, -⟩ : e = "" ∧ ∀ e ∈ rest, False := by simpa [root] using htext
  rw [he] at hblank
  cases hblank

end ServiceRegistry.Path
