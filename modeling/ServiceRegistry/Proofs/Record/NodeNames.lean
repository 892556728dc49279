import Mathlib.Tactic.Common
import ServiceRegistry.Record

/-! # Which records share a node

Name, type and identity of a record are joined by hyphens to the name of its node, and all of them
may hold hyphens. The identity is always the last 36 characters, so records of two instances never
share a node. Records of one instance do when the hyphen between name and type stands at different
places of the same text (`Record.Shifts`), or when one has the empty type and the other none; there
is no other case (`Record.nodeName_eq_iff`). So where the types hold no hyphen, or the names hold
none, the parts can be told from the name of the node (`Record.nodeName_eq_iff_of_kinds`,
`Record.nodeName_eq_iff_of_names`). -/

namespace ServiceRegistry

/-- Two ways to write a text around a separator: the same one, or one in which the separator stands
further right than in the other. -/
theorem Text.append_cons_eq_iff (c : Char) {xs ys xs' ys' : List Char} :
    xs ++ c :: ys = xs' ++ c :: ys' ↔ (xs = xs' ∧ ys = ys') ∨
      (∃ part, xs' = xs ++ c :: part ∧ ys = part ++ c :: ys') ∨
      ∃ part, xs = xs' ++ c :: part ∧ ys' = part ++ c :: ys := by
  constructor
  · intro h
    rcases List.append_eq_append_iff.mp h with ⟨as, hxs, hys⟩ | ⟨as, hxs, hys⟩
    · cases as with
      | nil => exact .inl ⟨by simpa using hxs.symm, (List.cons.inj hys).2⟩
      | cons a part =>
          obtain ⟨rfl, htail⟩ := List.cons.inj hys
          exact .inr (.inl ⟨part, hxs, htail⟩)
    · cases as with
      | nil => exact .inl ⟨by simpa using hxs, (List.cons.inj hys).2.symm⟩
      | cons a part =>
          obtain ⟨rfl, htail⟩ := List.cons.inj hys
          exact .inr (.inr ⟨part, hxs, htail⟩)
  · rintro (⟨rfl, rfl⟩ | ⟨part, rfl, rfl⟩ | ⟨part, rfl, rfl⟩)
    all_goals simp

namespace InstanceId

theorem text_inj {id id' : InstanceId} : id.text = id'.text ↔ id = id' := by
  refine ⟨fun h => ?_, congrArg text⟩
  have hparse : parse? id.text = parse? id'.text := congrArg parse? h
  rw [parse?_text, parse?_text] at hparse
  exact Option.some.inj hparse

theorem length_text (id : InstanceId) : id.text.toList.length = 36 := by
  simp [text, hyphenate, id.length_digits]

end InstanceId

namespace Record

variable (r r' : Record)

/-! ### Before the identity -/

/-- The name of the node before the hyphen and the identity: name and type. -/
def stem : String := r.name ++ "-" ++ r.kind.getD ""

/-- The name of the other record goes on with a hyphen and a part with which the type of this one
begins. -/
def Shifts : Prop :=
  ∃ part, r'.name = r.name ++ "-" ++ part ∧ r.kind.getD "" = part ++ "-" ++ r'.kind.getD ""

theorem nodeName_eq_stem : r.nodeName = r.stem ++ "-" ++ r.id.text := rfl

/-- The identity can always be told from the name of the node. -/
theorem nodeName_eq_iff_stem : r.nodeName = r'.nodeName ↔ r.id = r'.id ∧ r.stem = r'.stem := by
  constructor
  · intro h
    have hlength : r.id.text.toList.length = r'.id.text.toList.length :=
      r.id.length_text.trans r'.id.length_text.symm
    have hjoined : (r.stem ++ "-").toList ++ r.id.text.toList =
        (r'.stem ++ "-").toList ++ r'.id.text.toList := by
      simpa [nodeName_eq_stem] using congrArg String.toList h
    -- Both names end in an identity of the same length, so they are cut at the same place.
    obtain ⟨hstem, hid⟩ := List.append_inj' hjoined hlength
    rw [String.toList_append, String.toList_append] at hstem
    exact ⟨InstanceId.text_inj.mp (String.toList_inj.mp hid),
      String.toList_inj.mp (List.append_cancel_right hstem)⟩
  · rintro ⟨hid, hstem⟩
    rw [nodeName_eq_stem, nodeName_eq_stem, hid, hstem]

theorem toList_stem : r.stem.toList = r.name.toList ++ '-' :: (r.kind.getD "").toList := by
  simp [stem]

theorem shifts_iff : r.Shifts r' ↔ ∃ part, r'.name.toList = r.name.toList ++ '-' :: part ∧
    (r.kind.getD "").toList = part ++ '-' :: (r'.kind.getD "").toList := by
  constructor
  · rintro ⟨part, hname, hkind⟩
    exact ⟨part.toList, by simp [hname], by simp [hkind]⟩
  · rintro ⟨part, hname, hkind⟩
    refine ⟨String.ofList part, String.toList_inj.mp ?_, String.toList_inj.mp ?_⟩
    · simp [hname]
    · simp [hkind]

theorem stem_eq_iff : r.stem = r'.stem ↔
    (r.name = r'.name ∧ r.kind.getD "" = r'.kind.getD "") ∨ r.Shifts r' ∨ r'.Shifts r := by
  rw [← String.toList_inj, toList_stem, toList_stem, Text.append_cons_eq_iff, shifts_iff,
    shifts_iff, String.toList_inj, String.toList_inj]

/-! ### Shared nodes -/

/-- Two records have the same node exactly if they are of one instance, and names and types are the
same but for an empty type, or differ only by where the hyphen between them is taken to be. -/
theorem nodeName_eq_iff : r.nodeName = r'.nodeName ↔ r.id = r'.id ∧
    ((r.name = r'.name ∧ r.kind.getD "" = r'.kind.getD "") ∨ r.Shifts r' ∨ r'.Shifts r) := by
  rw [nodeName_eq_iff_stem, stem_eq_iff]

/-- A worker of the type `queue-fast`, a `worker-queue` of the type `fast` with the same identity,
and an instance with the empty type beside one with none. -/
theorem shared_nodes :
    let worker : Record := ⟨"worker", some "queue-fast", default, .empty, false, by decide⟩
    let queue : Record := ⟨"worker-queue", some "fast", default, .empty, false, by decide⟩
    let empty : Record := ⟨"worker", some "", default, .empty, false, by decide⟩
    let untyped : Record := ⟨"worker", none, default, .empty, false, by decide⟩
    (worker.name ≠ queue.name ∧ worker.kind ≠ queue.kind ∧ worker.nodeName = queue.nodeName) ∧
      empty.kind ≠ untyped.kind ∧ empty.nodeName = untyped.nodeName := by
  decide +kernel

variable {r r'}

theorem Shifts.mem_kind (h : r.Shifts r') : '-' ∈ (r.kind.getD "").toList := by
  obtain ⟨part, -, hkind⟩ := h
  simp [hkind]

theorem Shifts.mem_name (h : r.Shifts r') : '-' ∈ r'.name.toList := by
  obtain ⟨part, hname, -⟩ := h
  simp [hname]

/-- Types without hyphens can be told from the name of the node, and with them the names. -/
theorem nodeName_eq_iff_of_kinds (h : '-' ∉ (r.kind.getD "").toList)
    (h' : '-' ∉ (r'.kind.getD "").toList) : r.nodeName = r'.nodeName ↔
      r.id = r'.id ∧ r.name = r'.name ∧ r.kind.getD "" = r'.kind.getD "" := by
  rw [nodeName_eq_iff_stem, stem_eq_iff, or_iff_left]
  rintro (hs | hs)
  · exact h hs.mem_kind
  · exact h' hs.mem_kind

/-- Names without hyphens can be told from the name of the node, and with them the types. -/
theorem nodeName_eq_iff_of_names (h : '-' ∉ r.name.toList) (h' : '-' ∉ r'.name.toList) :
    r.nodeName = r'.nodeName ↔
      r.id = r'.id ∧ r.name = r'.name ∧ r.kind.getD "" = r'.kind.getD "" := by
  rw [nodeName_eq_iff_stem, stem_eq_iff, or_iff_left]
  rintro (hs | hs)
  · exact h' hs.mem_name
  · exact h hs.mem_name

end Record

end ServiceRegistry
