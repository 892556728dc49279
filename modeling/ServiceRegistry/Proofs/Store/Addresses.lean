import ServiceRegistry.Proofs.Store.Exactness
import ServiceRegistry.Proofs.Store.Growth

/-! # From listed names back to nodes

Whoever lists the children of a path puts each name after the path and a slash to reach the child.
In a store whose paths are proper (`Path.IsProper`: a slash before each element, none of them empty)
this finds exactly the children of every path but the root (`Store.Reaches`). At the root it finds
nothing, for the path that is formed there begins with two slashes; the nodes of the top level are
reached from the empty text. `Store.children_are_reached` says this of every store whose sessions
make nodes at proper paths only; what a put makes is proper in any case. -/

namespace ServiceRegistry

/-! ### Proper paths -/

namespace Path

variable {path p : String}

/-- The path has elements, a slash before each of them, and none is empty. -/
def IsProper (path : String) : Prop :=
  ∃ es, es ≠ [] ∧ (∀ e ∈ es, IsName e ∧ e ≠ "") ∧ path = ofElements es

theorem isProper_of_mem_chain (h : p ∈ chain (elements path)) : IsProper p := by
  obtain ⟨front, hne, hfront, rfl⟩ := mem_chain_iff.mp h
  refine ⟨front, hne, fun e he => ?_, rfl⟩
  have hmem : e ∈ elements path := hfront.subset he
  exact ⟨isName_of_mem_elements hmem, elements_ne_empty path e hmem⟩

theorem IsProper.ne_root (h : IsProper path) : path ≠ root := by
  obtain ⟨es, hne, hes, rfl⟩ := h
  have hmem : ofElements es ∈ chain es := mem_chain_iff.mpr ⟨es, hne, List.prefix_rfl, rfl⟩
  exact ne_root_of_mem_chain (fun e he => (hes e he).2) hmem

/-- A path of the top level is its name after a slash. -/
theorem IsProper.child_name (h : IsProper path) (top : parent path = root) :
    child "" (name path) = path := by
  obtain ⟨es, hne, hes, rfl⟩ := h
  rcases List.eq_nil_or_concat' es with rfl | ⟨above, e, rfl⟩
  · exact absurd rfl hne
  · have he : IsName e := (hes e (by simp)).1
    rw [parent_ofElements_concat he] at top
    split at top
    · next hnil =>
      subst hnil
      rw [ofElements_concat, name_child _ he]
      rfl
    · next habove =>
      -- The elements above are those of the parent, which would be proper and the root.
      have hproper : IsProper (ofElements above) :=
        ⟨above, habove, fun e he => hes e (List.mem_append_left _ he), rfl⟩
      exact absurd top hproper.ne_root

/-- Behind the slash that is the root there is an empty element. -/
theorem not_isProper_child_root (name : String) : ¬IsProper (child root name) := by
  rintro ⟨es, hne, hes, heq⟩
  obtain ⟨e, rest, rfl⟩ := List.exists_cons_of_ne_nil hne
  obtain ⟨hname, hfull⟩ := hes e List.mem_cons_self
  have htext := congrArg String.toList heq
  rw [toList_child, toList_ofElements] at htext
  cases hcs : e.toList with
  | nil => exact hfull (by simpa using hcs)
  | cons c cs =>
      obtain ⟨rfl, -⟩ : '/' = c ∧ _ := by simpa [root, hcs] using htext
      exact hname (by simp [hcs])

end Path

/-! ### Nodes at proper paths -/

namespace Store

variable {s : Store} {q before : String}

/-- All nodes are at proper paths. -/
def HasProperPaths (s : Store) : Prop := ∀ p, s.nodes.contains p = true → Path.IsProper p

/-- If a session makes a node by the deed, it does so at a proper path. -/
def Deed.IsProper : Deed → Prop
  | .serve _ (.create path _ _) => Path.IsProper path
  | _ => True

theorem HasProperPaths.perform (h : s.HasProperPaths) {d : Deed} (hd : d.IsProper) :
    (s.perform d).HasProperPaths := by
  intro p hafter
  cases hbefore : s.nodes.contains p with
  | true => exact h p hbefore
  | false =>
      cases origin_of_made hbefore hafter with
      | put onTheWay => exact Path.isProper_of_mem_chain onTheWay
      | create parent => exact hd

theorem ByDeeds.hasProperPaths (h : ByDeeds Deed.IsProper {} s) : s.HasProperPaths :=
  h.invariant (fun _ _ hd hs => hs.perform hd) fun _ hp => by cases hp

/-! ### Listed children -/

/-- The children of a path are reached by their listed names, put after some text and a slash. -/
structure Reaches (s : Store) (q before : String) : Prop where
  nodup : (s.children q).Nodup
  found : ∀ name ∈ s.children q, s.has (Path.child before name) = true
  distinct : ∀ a ∈ s.children q, ∀ b ∈ s.children q,
    Path.child before a = Path.child before b → a = b
  complete : ∀ p, s.nodes.contains p = true → Path.parent p = q →
    ∃ name ∈ s.children q, Path.child before name = p

/-- It is enough that each child is found where its own name leads. -/
theorem reaches_of_child_name (horderly : s.Orderly)
    (hname : ∀ p, s.nodes.contains p = true → Path.parent p = q →
      Path.child before (Path.name p) = p) : s.Reaches q before := by
  have hlisted : ∀ p ∈ s.childPaths q,
      s.nodes.contains p = true ∧ Path.child before (Path.name p) = p := by
    intro p hp
    obtain ⟨hthere, -, hparent⟩ := s.mem_childPaths_iff.mp hp
    exact ⟨hthere, hname p hthere hparent⟩
  refine ⟨?_, fun name hmem => ?_, fun a _ b _ => Path.child_injective, fun p hthere hparent => ?_⟩
  · refine (s.ascending_childPaths q).nodup.map_on fun a ha b hb heq => ?_
    rw [← (hlisted a ha).2, heq, (hlisted b hb).2]
  · obtain ⟨p, hp, rfl⟩ := List.mem_map.mp hmem
    rw [(hlisted p hp).2, has, (hlisted p hp).1, Bool.or_true]
  · have hne : p ≠ q := fun heq => horderly.parent_ne hthere (hparent.trans heq.symm)
    have hp : p ∈ s.childPaths q := s.mem_childPaths_iff.mpr ⟨hthere, hne, hparent⟩
    exact ⟨Path.name p, List.mem_map_of_mem hp, hname p hthere hparent⟩

/-- The children of every path but the root are reached from that path, and those of the root from
the empty text; from the root nothing is reached. -/
theorem children_are_reached (h : ByDeeds Deed.IsProper {} s) :
    (∀ q, q ≠ Path.root → s.Reaches q q) ∧ s.Reaches Path.root "" ∧
      ∀ name, s.has (Path.child Path.root name) = false := by
  have hproper := h.hasProperPaths
  refine ⟨fun q hq => ?_, ?_, fun name => ?_⟩
  · refine reaches_of_child_name h.orderly fun p _ hparent => ?_
    rw [← hparent]
    exact Path.child_parent_name (hparent ▸ hq)
  · exact reaches_of_child_name h.orderly fun p hthere => (hproper p hthere).child_name
  · have hfree : s.nodes.contains (Path.child Path.root name) = false :=
      Bool.eq_false_iff.mpr fun hthere => Path.not_isProper_child_root name (hproper _ hthere)
    rw [s.has_child (by decide), hfree]

/-- A store in which a session has put one node beside another. -/
def twoBelowTop : Store :=
  ((({} : Store).perform (.put "/srvc/queue" [])).perform .connect).perform
    (.serve 1 (.create "/srvc/web" [] .ephemeral))

theorem children_are_reached_of_two :
    twoBelowTop.children "/srvc" = ["queue", "web"] ∧ twoBelowTop.Reaches "/srvc" "/srvc" ∧
      twoBelowTop.children Path.root = ["srvc"] ∧ twoBelowTop.Reaches Path.root "" ∧
      twoBelowTop.has (Path.child Path.root "srvc") = false := by
  have hweb : Path.IsProper "/srvc/web" := ⟨["srvc", "web"], by decide, by decide, by decide⟩
  have hdeeds : ByDeeds Deed.IsProper {} twoBelowTop :=
    ((ByDeeds.single trivial _).step (d := .connect) trivial).step hweb
  obtain ⟨hbelow, htop, hnone⟩ := children_are_reached hdeeds
  exact ⟨by decide +kernel, hbelow _ (by decide), by decide +kernel, htop, hnone _⟩

/-- A queue at the top level is listed, but the path that is formed of its name misses it. -/
theorem top_level_is_missed :
    let s : Store := ({} : Store).perform (.put "/queue" [])
    ByDeeds Deed.IsProper {} s ∧ s.children Path.root = ["queue"] ∧ s.has "/queue" = true ∧
      s.has (Path.child Path.root "queue") = false ∧ ¬s.Reaches Path.root Path.root := by
  have hchildren : (({} : Store).perform (.put "/queue" [])).children Path.root = ["queue"] := by
    decide +kernel
  have hmissed : (({} : Store).perform (.put "/queue" [])).has (Path.child Path.root "queue") =
      false := by decide +kernel
  refine ⟨.single trivial _, hchildren, by decide +kernel, hmissed, fun h => ?_⟩
  have hfound := h.found "queue" (by rw [hchildren]; exact List.mem_singleton_self _)
  cases hmissed.symm.trans hfound

end Store

end ServiceRegistry
