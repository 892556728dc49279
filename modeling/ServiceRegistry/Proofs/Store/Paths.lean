import Mathlib.Tactic.Common
import ServiceRegistry.Store
import ServiceRegistry.Record

/-! # Paths of children

Below a directory other than the root, the children that a store lists are exactly the names that
make the path of a node when they are put after the directory's path (`Store.mem_children_iff`).
`Path.IsDirectory` says which directories these are: all but the root itself and the empty path,
whose children have the root as their parent.

The node names of records whose name and type hold no slash are such names
(`Record.isName_nodeName`). -/

namespace ServiceRegistry

namespace Path

/-- A path other than the root and the empty one. -/
def IsDirectory (path : String) : Prop := path ≠ "" ∧ path ≠ root

/-- A name that can be an element of a path. -/
def IsName (name : String) : Prop := '/' ∉ name.toList

instance (path : String) : Decidable (IsDirectory path) := inferInstanceAs (Decidable (_ ∧ _))

instance (name : String) : Decidable (IsName name) := inferInstanceAs (Decidable (¬_))

theorem toList_child (directory name : String) :
    (child directory name).toList = directory.toList ++ '/' :: name.toList := by
  simp [child]

theorem parent_child {directory name : String} (hd : directory ≠ "") (hn : IsName name) :
    parent (child directory name) = directory := by
  have hne : directory.toList ≠ [] := fun h => hd (String.toList_inj.mp h)
  rw [parent, toList_child, Text.cutLast_append _ hn]
  cases h : directory.toList with
  | nil => exact absurd h hne
  | cons c cs => simp [← h]

/-- A name with a slash ends up further below. -/
theorem parent_child_eq_iff {directory name : String} (hd : directory ≠ "") :
    parent (child directory name) = directory ↔ IsName name := by
  refine ⟨fun h => ?_, parent_child hd⟩
  cases hcut : Text.cutLast '/' name.toList with
  | none => exact (Text.cutLast_eq_none_iff '/').mp hcut
  | some p =>
      obtain ⟨before, after⟩ := p
      obtain ⟨hname, hafter⟩ := Text.cutLast_join '/' hcut
      have hlast : Text.cutLast '/' (child directory name).toList =
          some (directory.toList ++ '/' :: before, after) := by
        rw [toList_child, ← hname, ← List.cons_append, ← List.append_assoc]
        exact Text.cutLast_append '/' hafter
      have hlonger : (directory.toList ++ '/' :: before).length = directory.toList.length := by
        rw [parent, hlast] at h
        have htoList := congrArg String.toList h
        cases hcs : directory.toList ++ '/' :: before with
        | nil => simp at hcs
        | cons c cs =>
            rw [hcs] at htoList
            rw [← htoList]
            simp
      rw [List.length_append, List.length_cons] at hlonger
      omega

theorem name_child (directory : String) {name : String} (hn : IsName name) :
    Path.name (child directory name) = name := by
  rw [Path.name, toList_child, Text.cutLast_append _ hn]
  simp

theorem child_ne_self (directory name : String) : child directory name ≠ directory := by
  intro h
  have := congrArg (fun s : String => s.toList.length) h
  simp [toList_child] at this

theorem child_eq_root_iff {directory name : String} :
    child directory name = root ↔ directory = "" ∧ name = "" := by
  rw [← String.toList_inj, toList_child, show root.toList = ['/'] from rfl,
    ← String.toList_inj, ← String.toList_inj, String.toList_empty]
  cases directory.toList with
  | nil => simp
  | cons c cs => simp

theorem child_injective {directory a b : String} (h : child directory a = child directory b) :
    a = b := by
  have := congrArg String.toList h
  rw [toList_child, toList_child, List.append_cancel_left_eq, List.cons.injEq] at this
  exact String.toList_inj.mp this.2

theorem isName_name (path : String) : IsName (Path.name path) := by
  unfold IsName Path.name
  split
  · next h => exact (Text.cutLast_eq_none_iff _).mp h
  · next h => simpa using (Text.cutLast_join _ h).2

/-- Below a directory other than the root a path is its parent followed by its name. -/
theorem child_parent_name {path : String} (h : parent path ≠ root) :
    child (parent path) (Path.name path) = path := by
  cases hcut : Text.cutLast '/' path.toList with
  | none => exact absurd (by simp [parent, hcut]) h
  | some p =>
      obtain ⟨before, after⟩ := p
      have hpath := (Text.cutLast_join _ hcut).1
      cases before with
      | nil => exact absurd (by simp [parent, hcut]) h
      | cons c cs =>
          apply String.toList_inj.mp
          rw [toList_child]
          simp only [parent, Path.name, hcut, String.toList_ofList]
          exact hpath

theorem eq_child_iff {directory path : String} (hd : IsDirectory directory) :
    parent path = directory ↔ ∃ name, IsName name ∧ path = child directory name := by
  constructor
  · intro h
    refine ⟨Path.name path, isName_name path, ?_⟩
    rw [← h]
    exact (child_parent_name (h ▸ hd.2)).symm
  · rintro ⟨name, hn, rfl⟩
    exact parent_child hd.1 hn

end Path

/-! ### Children -/

namespace Store

variable (s : Store)

theorem mem_childPaths_iff {directory path : String} :
    path ∈ s.childPaths directory ↔
      s.nodes.contains path = true ∧ path ≠ directory ∧ Path.parent path = directory := by
  simp [childPaths, Dict.mem_keys_iff]

theorem mem_children_of_contains {directory name : String} (hd : directory ≠ "")
    (hn : Path.IsName name) (h : s.nodes.contains (Path.child directory name) = true) :
    name ∈ s.children directory := by
  refine List.mem_map.mpr ⟨_, s.mem_childPaths_iff.mpr ⟨h, ?_, Path.parent_child hd hn⟩, ?_⟩
  · exact Path.child_ne_self directory name
  · exact Path.name_child directory hn

/-- Which names are listed as children of a directory. -/
theorem mem_children_iff {directory name : String} (hd : Path.IsDirectory directory) :
    name ∈ s.children directory ↔
      Path.IsName name ∧ s.nodes.contains (Path.child directory name) = true := by
  constructor
  · intro h
    obtain ⟨path, hpath, rfl⟩ := List.mem_map.mp h
    obtain ⟨hc, -, hp⟩ := s.mem_childPaths_iff.mp hpath
    refine ⟨Path.isName_name path, ?_⟩
    rw [← hp, Path.child_parent_name (hp ▸ hd.2)]
    exact hc
  · rintro ⟨hn, hc⟩
    exact s.mem_children_of_contains hd.1 hn hc

theorem childPaths_eq_nil_iff {directory : String} : s.childPaths directory = [] ↔
    ∀ path, s.nodes.contains path = true → path ≠ directory → Path.parent path ≠ directory := by
  rw [List.eq_nil_iff_forall_not_mem]
  simp only [mem_childPaths_iff, not_and]

theorem has_child {directory : String} (hd : directory ≠ "") (name : String) :
    s.has (Path.child directory name) = s.nodes.contains (Path.child directory name) := by
  simp [has, Path.child_eq_root_iff, hd]

/-- A node below a directory is there exactly if its name is listed. -/
theorem mem_children_iff_has {directory name : String} (hd : Path.IsDirectory directory)
    (hn : Path.IsName name) :
    name ∈ s.children directory ↔ s.has (Path.child directory name) = true := by
  rw [s.mem_children_iff hd, s.has_child hd.1]
  exact and_iff_right hn

end Store

/-! ### Node names -/

theorem Bytes.hexDigit_ne_slash (d : Fin 16) : '/' ≠ hexDigit d := by
  revert d; decide

theorem InstanceId.isName_text (id : InstanceId) : Path.IsName id.text := by
  have hdigits : ∀ c ∈ id.digits.map Bytes.hexDigit, '/' ≠ c := by
    intro c hc
    obtain ⟨d, -, rfl⟩ := List.mem_map.mp hc
    exact Bytes.hexDigit_ne_slash d
  intro h
  simp only [text, String.toList_ofList, hyphenate, List.mem_append, List.mem_cons] at h
  have hdash : '/' ≠ '-' := by decide
  rcases h with h | h | h | h | h | h | h | h | h
  all_goals first
    | exact hdash h
    | exact hdigits _ (List.mem_of_mem_take h) rfl
    | exact hdigits _ (List.mem_of_mem_drop (List.mem_of_mem_take h)) rfl
    | exact hdigits _ (List.mem_of_mem_drop h) rfl

namespace Record

/-- The name and the type hold no slash. -/
def IsPlain (r : Record) : Prop :=
  Path.IsName r.name ∧ ∀ kind, r.kind = some kind → Path.IsName kind

/-- Then the node of the record is a child of the directory under whose path it is put. -/
theorem isName_nodeName {r : Record} (h : r.IsPlain) : Path.IsName r.nodeName := by
  have hkind : Path.IsName (r.kind.getD "") := by
    cases hk : r.kind with
    | none => simp [Path.IsName]
    | some kind => exact h.2 kind hk
  have hid := r.id.isName_text
  have hname := h.1
  have hdash : '/' ∉ "-".toList := by decide
  unfold Path.IsName at *
  simp only [nodeName, String.toList_append, List.mem_append]
  tauto

end Record

end ServiceRegistry
