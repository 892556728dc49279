import ServiceRegistry.Proofs.Store.Chains
import ServiceRegistry.Proofs.Store.Ready

/-! # How nodes come into being

A put makes the nodes on the chain of its path (`Store.contains_put`), and a session makes a node
whose parent it found there. Nothing else makes nodes (`Store.origin_of_made`), so the parent of a
new node is there when the node is made (`Store.has_parent_of_made`). -/

namespace ServiceRegistry

/-! ### Chains of elements -/

namespace Path

variable {path e : String} {es : List String}

theorem isName_of_mem_elements (h : e ∈ elements path) : IsName e := by
  obtain ⟨cs, hcs, rfl⟩ := List.mem_map.mp h
  rw [IsName, String.toList_ofList]
  exact Text.not_mem_of_mem_split '/' (List.mem_of_mem_filter hcs)

theorem ofElements_concat (es : List String) (e : String) :
    ofElements (es ++ [e]) = child (ofElements es) e := by
  rw [ofElements, List.foldl_append]
  rfl

theorem ofElements_ne_empty (h : es ≠ []) : ofElements es ≠ "" := by
  obtain ⟨e, rest, rfl⟩ := List.exists_cons_of_ne_nil h
  intro heq
  simpa [toList_ofElements] using congrArg String.toList heq

theorem parent_ofElements_concat (h : IsName e) :
    parent (ofElements (es ++ [e])) = if es = [] then root else ofElements es := by
  rw [ofElements_concat]
  split
  · next hnil =>
    subst hnil
    exact parent_child_top h
  · next hne => exact parent_child (ofElements_ne_empty hne) h

theorem parent_of_mem_chain (names : ∀ e ∈ es, IsName e) (h : path ∈ chain es) :
    parent path = root ∨ parent path ∈ chain es := by
  obtain ⟨front, hne, hfront, rfl⟩ := mem_chain_iff.mp h
  rcases List.eq_nil_or_concat' front with rfl | ⟨above, e, rfl⟩
  · exact absurd rfl hne
  · rw [parent_ofElements_concat (names e (hfront.subset (by simp)))]
    split
    · exact .inl rfl
    · next habove =>
      have hprefix : above <+: es := (List.prefix_append above [e]).trans hfront
      exact .inr (mem_chain_iff.mpr ⟨above, habove, hprefix, rfl⟩)

end Path

/-! ### Nodes that are made -/

namespace Store

variable {s : Store} {p : String} {d : Deed}

theorem contains_ensure (s : Store) (path : String) :
    (s.ensure path).nodes.contains p = true ↔ s.nodes.contains p = true ∨ p = path := by
  unfold ensure
  split
  · next hthere => exact ⟨.inl, fun h => h.elim id fun heq => heq ▸ hthere⟩
  · exact s.contains_grow path ⟨[], none⟩

theorem contains_foldl_ensure (paths : List String) (s : Store) :
    (paths.foldl ensure s).nodes.contains p = true ↔ s.nodes.contains p = true ∨ p ∈ paths := by
  induction paths generalizing s with
  | nil => simp
  | cons first paths ih =>
      rw [List.foldl_cons, ih, contains_ensure, List.mem_cons]
      tauto

/-- A put makes the nodes that lead to its path, and no others. -/
theorem contains_put (s : Store) (path : String) (data : Bytes) :
    (s.put path data).nodes.contains p = true ↔
      s.nodes.contains p = true ∨ p ∈ Path.chain (Path.elements path) := by
  rw [← contains_foldl_ensure]
  unfold put
  dsimp only
  split
  · next node hfind =>
    rw [Dict.contains, Dict.find?_insert]
    split
    · next heq => simp [Dict.contains, ← heq, hfind]
    · rfl
  · rfl

/-- How a deed makes a node. -/
inductive Origin (s : Store) (p : String) : Deed → Prop
  | put {path : String} {data : Bytes} (onTheWay : p ∈ Path.chain (Path.elements path)) :
      Origin s p (.put path data)
  | create {id : SessionId} {data : Bytes} {mode : Mode} (parent : s.has (Path.parent p) = true) :
      Origin s p (.serve id (.create p data mode))

theorem origin_of_made (hbefore : s.nodes.contains p = false)
    (hafter : (s.perform d).nodes.contains p = true) : s.Origin p d := by
  have hnone : s.nodes.find? p = none := by simpa [Dict.contains] using hbefore
  have hchanged : (s.perform d).nodes.find? p ≠ s.nodes.find? p := by
    intro hsame
    simp [Dict.contains, hsame, hnone] at hafter
  -- Deeds that write nothing only let nodes go, and a call touches no node but its target.
  by_cases hwrite : d.MayWrite
  · cases d with
    | put path data =>
        rcases (s.contains_put path data).mp hafter with hthere | hway
        · cases hbefore.symm.trans hthere
        · exact .put hway
    | remove path =>
        simp only [perform, remove] at hafter
        split at hafter
        · cases hbefore.symm.trans ((s.contains_drop path).mp hafter).1
        · cases hbefore.symm.trans hafter
    | serve id r =>
        by_cases htarget : p ∈ r.target?
        · cases r with
          | create path data mode =>
              cases htarget
              rcases s.create_cases id p data mode with
                ⟨_, s', hc, ha, -⟩ | ⟨-, -, -, -, hparent, -⟩
              · exact absurd (by rw [perform, serve, hc, ha.nodes_eq]) hchanged
              · exact .create hparent
          | delete path =>
              cases htarget
              rcases s.delete_cases id p with ⟨_, s', hd, ha, -⟩ | ⟨s', hd, ha, -⟩
              · exact absurd (by rw [perform, serve, hd, ha.nodes_eq]) hchanged
              · rw [perform, serve, hd] at hafter
                exact absurd rfl ((s'.contains_drop p).mp hafter).2
          | list _ _ => cases htarget
          | beginRead _ => cases htarget
          | finishRead _ => cases htarget
          | probe _ => cases htarget
        · exact absurd (s.find?_serve_of_ne id htarget) hchanged
    | _ => exact hwrite.elim
  · rcases s.find?_perform_of_not_mayWrite hwrite p with hsame | hgone
    · exact absurd hsame hchanged
    · exact absurd (hgone.trans hnone.symm) hchanged

/-- When a node is made, its parent is there. -/
theorem has_parent_of_made (hbefore : s.nodes.contains p = false)
    (hafter : (s.perform d).nodes.contains p = true) :
    (s.perform d).has (Path.parent p) = true := by
  cases origin_of_made hbefore hafter with
  | @put path data onTheWay =>
      rcases Path.parent_of_mem_chain (fun _ => Path.isName_of_mem_elements) onTheWay with hp | hp
      · simp [has, hp]
      · simp only [has, Bool.or_eq_true]
        exact .inr ((s.contains_put path data).mpr (.inr hp))
  | @create id data mode hparent =>
      rcases s.create_cases id p data mode with ⟨_, s', hc, ha, -⟩ | ⟨s', hc, ha, -⟩
      · rw [perform, serve, hc, has_congr ha.nodes_eq]
        exact hparent
      · rw [perform, serve, hc, has_grow, has_congr ha.nodes_eq]
        exact .inl hparent

end Store

end ServiceRegistry
