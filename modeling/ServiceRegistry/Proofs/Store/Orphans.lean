import ServiceRegistry.Proofs.Store.Growth
import ServiceRegistry.Proofs.Store.Lifetimes

/-! # Nodes whose parent is gone

A node is made where its parent is, and no session deletes a node that has children. But the end of
a session takes its ephemeral nodes whatever is below them, so a node may outlive its parent: it is
stranded if the session that ends owns the parent and not the node (`Store.Strands`). But for
`remove`, which is past all sessions, there is no other way for a node to lose its parent
(`Store.isOrphan_perform_iff`); a tree stays a tree if nothing is stranded
(`Store.IsTree.perform_iff`). So a node has no parent exactly if it was stranded and since then it
has stayed while its parent stayed away (`Store.orphans_were_stranded`). -/

namespace ServiceRegistry

namespace Store

variable {s : Store} {id : SessionId} {path p : String} {d : Deed} {ds : List Deed}

/-- The node is there and its parent is not. -/
def IsOrphan (s : Store) (p : String) : Prop :=
  s.nodes.contains p = true ∧ s.has (Path.parent p) = false

instance (s : Store) (p : String) : Decidable (s.IsOrphan p) :=
  inferInstanceAs (Decidable (_ ∧ _))

/-- Every node has its parent. -/
def IsTree (s : Store) : Prop := ∀ p, ¬s.IsOrphan p

/-- By the deed a session ends that owns the parent of the node, but not the node. -/
def Strands (p : String) (s : Store) (d : Deed) : Prop :=
  s.nodes.contains p = true ∧ ∃ id, (d = .close id ∨ d = .expire id) ∧
    s.ownerAt? (Path.parent p) = some id ∧ s.ownerAt? p ≠ some id

/-! ### Nodes that go -/

/-- A session deletes only nodes that have no children. -/
theorem childPaths_of_delete (h : (s.delete id path).1 = .ok ()) : s.childPaths path = [] := by
  rcases s.call_cases .delete id path _ with ⟨code, s', hcall, -⟩ | ⟨hcall, -⟩
  · rw [delete, hcall] at h
    cases h
  · have hbelow : (s.count .delete).childPaths path = s.childPaths path := rfl
    rw [delete, hcall, hbelow] at h
    split at h
    · cases h
    · split at h
      · cases h
      · next hempty => simpa using hempty

/-- A node that is gone after a deed was deleted by it, or its owner ended. -/
theorem deleted_or_ended (hbefore : s.nodes.contains p = true)
    (hafter : (s.perform d).nodes.contains p = false) :
    s.Deletes p d ∨ ∃ id, (d = .close id ∨ d = .expire id) ∧ s.ownerAt? p = some id := by
  rw [Dict.contains, Option.isSome_eq_false_iff, Option.isNone_iff_eq_none] at hafter
  obtain ⟨node, hfind⟩ := Option.isSome_iff_exists.mp hbefore
  cases s.touched_perform p d with
  | same after_eq => cases hafter.symm.trans (after_eq.trans hfind)
  | written there after_eq => cases hafter.symm.trans after_eq
  | made absent after_eq live => cases hafter.symm.trans after_eq
  | deleted deletes after_eq => exact .inl deletes
  | ended there owned ends after_eq =>
      exact .inr ⟨_, ends, ownerAt?_eq_some.mpr ⟨_, there, owned⟩⟩

theorem AreOwned.ownerAt?_ne (h : s.AreOwned) (hd : d = .close id ∨ d = .expire id) (p : String) :
    (s.perform d).ownerAt? p ≠ some id := by
  intro howner
  obtain ⟨node, hfind, howner⟩ := ownerAt?_eq_some.mp howner
  exact h.owner_ne hd hfind howner

/-- What a session owns is gone when it has ended. -/
theorem AreOwned.contains_eq_false (h : s.AreOwned) (hd : d = .close id ∨ d = .expire id)
    (howner : s.ownerAt? p = some id) : (s.perform d).nodes.contains p = false :=
  Bool.eq_false_iff.mpr fun hthere =>
    h.ownerAt?_ne hd p (ownerAt?_perform_iff.mpr (.inr ⟨howner, hthere⟩))

/-- What a session does not own is still there when it has ended. -/
theorem contains_of_end (hd : d = .close id ∨ d = .expire id) (hbefore : s.nodes.contains p = true)
    (howner : s.ownerAt? p ≠ some id) : (s.perform d).nodes.contains p = true := by
  by_contra hgone
  rcases deleted_or_ended hbefore (Bool.eq_false_iff.mpr hgone) with hdeletes | ⟨i, hi, hown⟩
  · rcases hd with rfl | rfl
    all_goals exact hdeletes
  · have hsame : i = id := by
      rcases hd with rfl | rfl <;> rcases hi with hi | hi <;> cases hi <;> rfl
    exact howner (hsame ▸ hown)

/-! ### One deed -/

/-- The deeds that strand a node leave an orphan. -/
theorem Strands.isOrphan (howned : s.AreOwned) (horderly : s.Orderly) (h : Strands p s d) :
    (s.perform d).IsOrphan p := by
  obtain ⟨hthere, id, hd, hparent, howner⟩ := h
  refine ⟨contains_of_end hd hthere howner, ?_⟩
  have hne : Path.parent p ≠ Path.root := by
    intro hroot
    obtain ⟨node, hfind, -⟩ := ownerAt?_eq_some.mp (hroot ▸ hparent)
    have hrootless := horderly.rootless
    rw [Dict.contains, hfind] at hrootless
    cases hrootless
  rw [has, howned.contains_eq_false hd hparent, Bool.or_false]
  exact decide_eq_false hne

/-- Unless a node is removed past all sessions, a deed makes an orphan of just the nodes that it
strands. -/
theorem isOrphan_perform_iff (howned : s.AreOwned) (horderly : s.Orderly)
    (hd : ∀ path, d ≠ .remove path) (hs : ¬s.IsOrphan p) :
    (s.perform d).IsOrphan p ↔ Strands p s d := by
  refine ⟨fun ⟨hthere, hgone⟩ => ?_, Strands.isOrphan howned horderly⟩
  have hbefore : s.nodes.contains p = true := by
    by_contra hfree
    have hmade := has_parent_of_made (Bool.eq_false_iff.mpr hfree) hthere
    cases hgone.symm.trans hmade
  have hparent : s.has (Path.parent p) = true := by
    by_contra hnone
    exact hs ⟨hbefore, Bool.eq_false_iff.mpr hnone⟩
  simp only [has, Bool.or_eq_false_iff, Bool.or_eq_true] at hgone hparent
  have hparent : s.nodes.contains (Path.parent p) = true :=
    hparent.resolve_left fun hroot => by rw [hgone.1] at hroot; cases hroot
  rcases deleted_or_ended hparent hgone.2 with hdeletes | ⟨id, hend, howner⟩
  · -- A session would have found the node below its parent, and have been refused.
    cases d with
    | remove path => exact absurd rfl (hd path)
    | serve id r =>
        cases r with
        | delete path =>
            obtain ⟨rfl, hok⟩ := hdeletes
            have hchild : p ∈ s.childPaths (Path.parent p) :=
              s.mem_childPaths_iff.mpr ⟨hbefore, (horderly.parent_ne hbefore).symm, rfl⟩
            rw [childPaths_of_delete hok] at hchild
            cases hchild
        | _ => exact hdeletes.elim
    | _ => exact hdeletes.elim
  · refine ⟨hbefore, id, hend, howner, fun hown => ?_⟩
    cases hthere.symm.trans (howned.contains_eq_false hend hown)

/-- A deed leaves a tree a tree unless it strands a node. -/
theorem IsTree.perform_iff (h : s.IsTree) (howned : s.AreOwned) (horderly : s.Orderly)
    (hd : ∀ path, d ≠ .remove path) : (s.perform d).IsTree ↔ ∀ p, ¬Strands p s d :=
  forall_congr' fun p => not_congr (isOrphan_perform_iff howned horderly hd (h p))

/-! ### Many deeds -/

theorem areOwned_after (ds : List Deed) : (after ds).AreOwned :=
  areOwned_of_byDeeds (byDeeds_foldl (fun _ _ => trivial) {} : ByDeeds (fun _ => True) {} _)

theorem orderly_after (ds : List Deed) : (after ds).Orderly :=
  ByDeeds.orderly (byDeeds_foldl (fun _ _ => trivial) {} : ByDeeds (fun _ => True) {} _)

theorem isOrphan_iff_since (h : ∀ path, .remove path ∉ ds) (p : String) :
    (after ds).IsOrphan p ↔ Since (Strands p) (·.IsOrphan p) ds := by
  induction ds using List.reverseRecOn with
  | nil => exact ⟨fun h => (by cases h.1), fun h => absurd h not_since_nil⟩
  | append_singleton ds d ih =>
      have howned := areOwned_after ds
      have horderly := orderly_after ds
      have hd : ∀ path, d ≠ .remove path := fun path heq => h path (by simp [heq])
      rw [after_concat, since_concat_iff (Strands.isOrphan howned horderly),
        ← ih fun path hmem => h path (List.mem_append_left _ hmem)]
      by_cases hs : (after ds).IsOrphan p
      · exact ⟨fun horphan => .inr ⟨hs, horphan⟩,
          fun hor => hor.elim (Strands.isOrphan howned horderly) And.right⟩
      · rw [isOrphan_perform_iff howned horderly hd hs]
        exact ⟨.inl, fun hor => hor.resolve_right fun hand => hs hand.1⟩

/-- As long as nothing is removed past all sessions, a node is without its parent exactly if the end
of a session stranded it and since then it has stayed and its parent has stayed away; and every
node that is stranded next will be without its parent. -/
theorem orphans_were_stranded (h : ∀ path, .remove path ∉ ds) (p : String) :
    ((after ds).IsOrphan p ↔ Since (Strands p) (·.IsOrphan p) ds) ∧
      ∀ d, Strands p (after ds) d → (after (ds ++ [d])).IsOrphan p := by
  refine ⟨isOrphan_iff_since h p, fun d hd => ?_⟩
  rw [after_concat]
  exact hd.isOrphan (areOwned_after ds) (orderly_after ds)

/-- A session makes an ephemeral node with a persistent one below it, and is closed. -/
def closedAbove : List Deed :=
  [.connect, .serve 1 (.create "/lock" [] .ephemeral),
    .serve 1 (.create "/lock/holder" [] .persistent), .close 1]

theorem orphans_were_stranded_of_closed :
    (∀ path, .remove path ∉ closedAbove) ∧ (after closedAbove).IsOrphan "/lock/holder" ∧
      Since (Strands "/lock/holder") (·.IsOrphan "/lock/holder") closedAbove := by
  have hnone : ∀ path, .remove path ∉ closedAbove := by simp [closedAbove]
  have horphan : (after closedAbove).IsOrphan "/lock/holder" := by decide +kernel
  exact ⟨hnone, horphan, (orphans_were_stranded hnone _).1.mp horphan⟩

/-- A session that made a lock expires, and the node that another one made below it stays. -/
theorem store_is_not_a_tree :
    let ds : List Deed := [.connect, .connect, .serve 1 (.create "/lock" [] .ephemeral),
      .serve 2 (.create "/lock/waiter" [] .ephemeral), .expire 1]
    (∀ path, .remove path ∉ ds) ∧ ¬(after ds).IsTree :=
  ⟨by simp, fun h => h "/lock/waiter" (by decide +kernel)⟩

end Store

end ServiceRegistry
