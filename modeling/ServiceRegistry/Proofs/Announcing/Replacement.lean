import ServiceRegistry.Proofs.Announcing.Calls
import ServiceRegistry.Proofs.Announcing.Convergence

/-! # Records that share a node

Rosters compare whole records, but nodes and confirmations go by node names, so a record that takes
the place of another one of the same instance shares its node. What a visit that succeeds then does
to the node of a desired record is said for seasons with any records, under any generations:

* the node is deleted exactly if the record clashes with another one that has the same node name
  (`Clashes`, `wanted_node_is_deleted_iff`); this needs no more than the calls of the visit, so that
  others may act in the meantime (`keeps_visit_of_not_clashes`);
* the node holds a desired record exactly if it was made in the visit or held one before, since no
  visit writes to a node that is there (`IsCurrent`, `payload_is_current_iff`).

So a record that turns static loses its node (`wanted_node_is_swept`), and new properties of an
ephemeral one are not published (`replaced_payload_stays`). -/

namespace ServiceRegistry

namespace Publisher

open Store

variable {used : Record → Prop} {root : String} {generation : Nat} {p : Publisher} {t : Roster}
  {s s' s'' : Store} {es : List Exchange}

/-! ### Clashes -/

/-- Something else is kept under the node name of a record: another record that should be removed,
or a confirmation that a visit does not renew, as all that is desired under the name is static. -/
inductive Clashes (p : Publisher) (t : Roster) (generation : Nat) (r : Record) : Prop
  | removal {r' : Record} (pending : r' ∈ t.removals) (same : r'.nodeName = r.nodeName)
  | stale {seen : Nat} (confirmed : p.confirmed.find? r.nodeName = some seen)
      (old : seen ≠ generation)
      (static : ∀ r' ∈ t.desired, r'.nodeName = r.nodeName → r'.isStatic = true)

/-- The names under which a visit deletes nodes if none of its parts fails. -/
def doomed (p : Publisher) (t : Roster) (generation : Nat) : List String :=
  (p.confirmAll t.desired generation).stale generation ++ t.removals.map (·.nodeName)

theorem clashes_iff_mem_doomed {r : Record} :
    Clashes p t generation r ↔ r.nodeName ∈ p.doomed t generation := by
  rw [doomed, List.mem_append, mem_stale_confirmAll_iff, List.mem_map]
  constructor
  · rintro (⟨pending, same⟩ | ⟨confirmed, old, static⟩)
    · exact .inr ⟨_, pending, same⟩
    · exact .inl ⟨_, confirmed, old, static⟩
  · rintro (⟨seen, confirmed, old, static⟩ | ⟨r', pending, same⟩)
    · exact .stale confirmed old static
    · exact .removal pending same

/-- As long as the desired records stay the same and no record of the same name is to be removed, a
visit does not ask to delete the node of a record that clashes with nothing, whatever the answers
are and whatever else happens in the meantime. -/
theorem keeps_visit_of_not_clashes {r : Record} (children : List String)
    (h : ¬Clashes p t generation r) :
    (p.visit children generation).Keeps
      { shared := fun x => x.desired = t.desired ∧ ∀ r' ∈ x.removals, r'.nodeName ≠ r.nodeName
        asks := (· ≠ .delete (Path.child p.root r.nodeName)) } fun _ => True := by
  refine keeps_visit (fun _ => True) children generation trivial (fun _ _ _ _ _ _ => trivial)
    (fun _ _ _ => trivial) (fun _ _ _ _ hasked => by cases hasked)
    (fun x hx name hname hasked => ?_) (fun x r' hx => ⟨⟨hx.1, fun r'' hr'' => ?_⟩, trivial⟩)
    (fun x hx r' hr' hasked => ?_)
  · injection hasked with hpath
    obtain rfl := Path.child_injective hpath
    rw [hx.1] at hname
    exact h (clashes_iff_mem_doomed.mpr (List.mem_append_left _ hname))
  · exact hx.2 r'' (Roster.mem_drop.mp hr'').1
  · injection hasked with hpath
    exact hx.2 r' hr' (Path.child_injective hpath)

/-! ### What is asked for -/

/-- The requests of some calls. -/
def requests (es : List Exchange) : List Request := es.map (·.request)

theorem requests_concat (es : List Exchange) (e : Exchange) (rs : List Request) :
    requests (es ++ [e]) ++ rs = requests es ++ e.request :: rs := by
  simp [requests]

theorem leads_sweep_requests (id : SessionId) (names : List String) (p : Publisher) (s : Store)
    (t : Roster) (es : List Exchange) :
    (sweep names p).Leads (Script.Sitting.party id) (fun out st =>
      st.shared = t ∧ out.1.root = p.root ∧ (out.2 = .ok () → requests st.heard =
        requests es ++ names.map fun name => .delete (Path.child p.root name))) ⟨s, t, es⟩ := by
  induction names generalizing p s es with
  | nil => exact Script.leads_done ⟨rfl, rfl, fun _ => (List.append_nil _).symm⟩
  | cons name names ih =>
      refine Script.leads_call ?_
      generalize (s.serve id (.delete (Path.child p.root name))).1 = answer
      have hrest := (ih { p with confirmed := p.confirmed.erase name }
        (s.serve id (.delete (Path.child p.root name))).2
        (es ++ [⟨.delete (Path.child p.root name), answer⟩])).mono fun out st hout =>
          show st.shared = t ∧ out.1.root = p.root ∧ (out.2 = .ok () → requests st.heard =
            requests es ++ (name :: names).map fun name => .delete (Path.child p.root name)) from
          ⟨hout.1, hout.2.1, fun hok => (hout.2.2 hok).trans (requests_concat _ _ _)⟩
      cases answer with
      | ok _ => exact hrest
      | error e =>
          dsimp only
          split
          · exact hrest
          · exact Script.leads_done ⟨rfl, rfl, fun hok => by cases hok⟩

theorem leads_removeStatic_requests (id : SessionId) (root : String) (rs : List Record) (s : Store)
    (t : Roster) (es : List Exchange) :
    (removeStatic root rs).Leads (Script.Sitting.party id) (fun _ st =>
      requests st.heard = requests es ++ rs.map fun r => .delete (Path.child root r.nodeName))
      ⟨s, t, es⟩ := by
  induction rs generalizing s t es with
  | nil => exact Script.leads_done (List.append_nil _).symm
  | cons r rs ih =>
      refine Script.leads_call ?_
      generalize (s.serve id (.delete (Path.child root r.nodeName))).1 = answer
      have hrest := fun t' => (ih (s.serve id (.delete (Path.child root r.nodeName))).2 t'
        (es ++ [⟨.delete (Path.child root r.nodeName), answer⟩])).mono fun _ st hout =>
          hout.trans (requests_concat _ _ _)
      cases answer with
      | ok _ => exact Script.leads_change (hrest _)
      | error e =>
          dsimp only
          split
          · exact Script.leads_change (hrest _)
          · exact hrest t

theorem leads_afterMaking_requests (id : SessionId) (p : Publisher) (generation : Nat) (s : Store)
    (t : Roster) (es : List Exchange) :
    (p.afterMaking generation).Leads (Script.Sitting.party id) (fun out st =>
      out.2 = .ok () → requests st.heard = requests es ++
        (p.stale generation ++ t.removals.map (·.nodeName)).map fun name =>
          .delete (Path.child p.root name)) ⟨s, t, es⟩ := by
  refine Script.leads_bind ((leads_sweep_requests id _ p s t es).mono ?_)
  rintro ⟨q, result⟩ ⟨s', t', es'⟩ ⟨rfl, hroot, hswept⟩
  cases result with
  | error e => exact Script.leads_done fun hok => by cases hok
  | ok u =>
      dsimp only at hroot hswept
      have hremove := leads_removeStatic_requests id q.root t'.removals s' t' es'
      refine Script.leads_look (Script.leads_bind (hremove.mono fun _ st hremoved => ?_))
      refine Script.leads_done fun _ => ?_
      rw [hremoved, hswept rfl, hroot, List.append_assoc, List.map_append, List.map_map]
      rfl

/-! ### What becomes of nodes -/

/-- Calls left the nodes as they were, but for those that were deleted. -/
structure Clears (s : Store) (es : List Exchange) (s' : Store) : Prop where
  deleted : ∀ path, ⟨.delete path, .ok ()⟩ ∈ es → s'.nodes.find? path = none
  left : ∀ path, ⟨.delete path, .ok ()⟩ ∉ es → s'.nodes.find? path = s.nodes.find? path

theorem Clears.refl (s : Store) : Clears s [] s := ⟨fun _ h => (by cases h), fun _ _ => rfl⟩

theorem Clears.trans {es' : List Exchange} (h : Clears s es s') (h' : Clears s' es' s'') :
    Clears s (es ++ es') s'' := by
  constructor
  · intro path hdeleted
    by_cases hlater : ⟨.delete path, .ok ()⟩ ∈ es'
    · exact h'.deleted path hlater
    · rw [h'.left path hlater]
      exact h.deleted path ((List.mem_append.mp hdeleted).resolve_right hlater)
  · intro path hnot
    rw [List.mem_append, not_or] at hnot
    rw [h'.left path hnot.2, h.left path hnot.1]

theorem clears_delete (s : Store) (id : SessionId) (path : String) :
    Clears s [⟨.delete path, (s.serve id (.delete path)).1⟩] (s.serve id (.delete path)).2 := by
  rcases s.delete_cases id path with ⟨code, s', h, ha, -⟩ | ⟨s', h, ha, -⟩
  · simp only [serve, h]
    refine ⟨fun path' hdeleted => ?_, fun path' _ => by rw [ha.nodes_eq]⟩
    cases List.mem_singleton.mp hdeleted
  · simp only [serve, h]
    constructor
    · intro path' hdeleted
      cases List.mem_singleton.mp hdeleted
      simp
    · intro path' hnot
      have hne : path ≠ path' := fun hpath => hnot (hpath ▸ List.mem_singleton.mpr rfl)
      simp [hne, ha.nodes_eq]

theorem leads_afterMaking_clears (id : SessionId) (p : Publisher) (generation : Nat) (s : Store)
    (t : Roster) (es : List Exchange) :
    (p.afterMaking generation).Leads (Script.Sitting.party id) (fun _ st =>
      st.shared.desired = t.desired ∧ ∃ es', st.heard = es ++ es' ∧ Clears s es' st.store)
      ⟨s, t, es⟩ := by
  let terms : Script.Terms Roster :=
    { shared := fun x => x.desired = t.desired, asks := fun r => ∃ path, r = .delete path }
  have hkeeps : (p.afterMaking generation).Keeps terms fun _ => True :=
    keeps_afterMaking (fun _ => True) generation trivial (fun _ _ h => h) (fun _ _ => ⟨_, rfl⟩)
      (fun _ _ h => ⟨h, trivial⟩) fun _ _ _ _ => ⟨_, rfl⟩
  refine (hkeeps.leads (fun st => st.shared.desired = t.desired ∧
    ∃ es', st.heard = es ++ es' ∧ Clears s es' st.store) (fun _ h => h.1) ?_ ?_ ?_ ?_).mono
      fun _ _ h => h.2
  · rintro st _ h rfl
    exact h
  · rintro st r answer - ⟨hdesired, es', hheard, hclears⟩ ⟨path, rfl⟩ ⟨rfl, rfl⟩
    refine ⟨trivial, hdesired, es' ++ [_], ?_, hclears.trans (clears_delete st.store id path)⟩
    rw [hheard, List.append_assoc]
  · exact fun st y h hy => ⟨hy, h.2⟩
  · exact ⟨rfl, [], (List.append_nil es).symm, .refl s⟩

/-- What holds when the nodes of some records were to be made. -/
structure Filled (root : String) (rs : List Record) (t : Roster) (s : Store) (es : List Exchange)
    (result : Except StoreError Unit) (st : Script.Sitting Roster) : Prop where
  shared_eq : st.shared = t
  old : ∀ path node, s.nodes.find? path = some node → st.store.nodes.find? path = some node
  fresh : ∀ path node, st.store.nodes.find? path = some node → s.nodes.find? path = some node ∨
    ∃ r ∈ rs, path = Path.child root r.nodeName ∧ node.data = r.encode
  there : result = .ok () → ∀ r ∈ rs,
    (st.store.nodes.find? (Path.child root r.nodeName)).isSome = true
  heard : ∀ path, ⟨.delete path, .ok ()⟩ ∈ st.heard → ⟨.delete path, .ok ()⟩ ∈ es

section Filling

variable {r : Record} {rs : List Record} {result : Except StoreError Unit}
  {st : Script.Sitting Roster}

theorem Filled.cons {es' : List Exchange} (h : Filled root rs t s' es' result st)
    (old : ∀ path node, s.nodes.find? path = some node → s'.nodes.find? path = some node)
    (fresh : ∀ path node, s'.nodes.find? path = some node → s.nodes.find? path = some node ∨
      (path = Path.child root r.nodeName ∧ node.data = r.encode))
    (there : (s'.nodes.find? (Path.child root r.nodeName)).isSome = true)
    (heard : ∀ path, ⟨.delete path, .ok ()⟩ ∈ es' → ⟨.delete path, .ok ()⟩ ∈ es) :
    Filled root (r :: rs) t s es result st := by
  refine ⟨h.shared_eq, fun path node hnode => h.old path node (old path node hnode), ?_, ?_,
    fun path hdeleted => heard path (h.heard path hdeleted)⟩
  · intro path node hnode
    rcases h.fresh path node hnode with hbefore | ⟨r', hr', hmade⟩
    · exact (fresh path node hbefore).imp_right fun hmade => ⟨r, by simp, hmade⟩
    · exact .inr ⟨r', List.mem_cons_of_mem r hr', hmade⟩
  · intro hok r' hr'
    rcases List.mem_cons.mp hr' with rfl | hr'
    · obtain ⟨node, hnode⟩ := Option.isSome_iff_exists.mp there
      exact Option.isSome_iff_exists.mpr ⟨node, h.old _ node hnode⟩
    · exact h.there hok r' hr'

/-- A record whose node was there already. -/
theorem Filled.cons_kept {es' : List Exchange} (h : Filled root rs t s' es' result st)
    (same : s'.nodes = s.nodes) (there : (s.nodes.find? (Path.child root r.nodeName)).isSome = true)
    (heard : ∀ path, ⟨.delete path, .ok ()⟩ ∈ es' → ⟨.delete path, .ok ()⟩ ∈ es) :
    Filled root (r :: rs) t s es result st :=
  h.cons (fun _ _ hnode => same ▸ hnode) (fun _ _ hnode => .inl (same ▸ hnode)) (same ▸ there) heard

/-- A record whose node was made. -/
theorem Filled.cons_made {es' : List Exchange} {owner : Option SessionId}
    (h : Filled root rs t (s'.grow (Path.child root r.nodeName) ⟨r.encode, owner⟩) es' result st)
    (same : s'.nodes = s.nodes) (absent : s.nodes.find? (Path.child root r.nodeName) = none)
    (heard : ∀ path, ⟨.delete path, .ok ()⟩ ∈ es' → ⟨.delete path, .ok ()⟩ ∈ es) :
    Filled root (r :: rs) t s es result st := by
  refine h.cons (fun path node hnode => ?_) (fun path node hnode => ?_) (by simp) heard
  · have hne : Path.child root r.nodeName ≠ path := by
      rintro rfl
      cases absent.symm.trans hnode
    simp [hne, same, hnode]
  · simp only [nodes_grow, Dict.find?_insert, same] at hnode
    split at hnode
    · next hpath =>
      cases hnode
      exact .inr ⟨hpath.symm, rfl⟩
    · exact .inl hnode

theorem leads_makeMissing_fills (hroot : Path.IsDirectory root) {children : List String}
    (id : SessionId) (hp : p.root = root) (honest : s.IsHonest)
    (hchildren : ∀ name ∈ children,
      (s.nodes.find? (Path.child root name)).isSome = true) (es : List Exchange) :
    (makeMissing children generation rs p).Leads (Script.Sitting.party id)
      (fun out st => Filled root rs t s es out.2 st ∧
        (out.2 = .ok () → out.1 = p.confirmAll rs generation)) ⟨s, t, es⟩ := by
  induction rs generalizing p s es with
  | nil =>
      refine Script.leads_done ⟨⟨rfl, fun _ _ h => h, fun _ _ h => .inl h, fun _ r hr => ?_,
        fun _ h => h⟩, fun _ => rfl⟩
      cases hr
  | cons r rs ih =>
      have hp' : (p.confirm r generation).root = root := (p.root_confirm r generation).trans hp
      unfold makeMissing
      dsimp only
      split
      · next hlisted =>
        refine (ih hp' honest hchildren es).mono fun out st hout => ⟨?_, hout.2⟩
        exact hout.1.cons_kept rfl (hchildren _ hlisted) fun _ h => h
      · rw [hp']
        have hnot : ∀ answer path, ⟨.delete path, .ok ()⟩ ∈
            es ++ [(⟨.create (Path.child root r.nodeName) r.encode (mode r), answer⟩ : Exchange)] →
            ⟨.delete path, .ok ()⟩ ∈ es := by
          intro answer path hmem
          rcases List.mem_append.mp hmem with hmem | hmem
          · exact hmem
          · cases List.mem_singleton.mp hmem
        -- The node may be there though it was not listed; then it is left as it is.
        refine Script.leads_create honest.1 ?_ ?_ ?_
        · intro code s' ha hcode
          simp only [StoreError.isNodeExists, hcode, decide_false, Bool.false_eq_true, ↓reduceIte]
          refine Script.leads_done ⟨⟨rfl, ?_, ?_, fun hok => (by cases hok), hnot _⟩,
            fun hok => (by cases hok)⟩
          · exact fun path node hnode => by rw [ha.nodes_eq, hnode]
          · exact fun path node hnode => .inl (by rw [← ha.nodes_eq, hnode])
        · intro s' ha hhas
          simp only [StoreError.isNodeExists, decide_true, ↓reduceIte]
          rw [s.has_child hroot.1] at hhas
          refine (ih hp' (ha.isHonest honest) (by rw [ha.nodes_eq]; exact hchildren) _).mono
            fun out st hout => ⟨hout.1.cons_kept ha.nodes_eq hhas (hnot _), hout.2⟩
        · intro s' ha hhas
          rw [s.has_child hroot.1] at hhas
          have habsent : s.nodes.find? (Path.child root r.nodeName) = none := by
            simpa [Dict.contains] using hhas
          have honest' : (s'.grow (Path.child root r.nodeName)
              ⟨r.encode, (mode r).owner id⟩).IsHonest := ha.isHonest honest
          refine (ih hp' honest' (fun name hn => ?_) _).mono
            fun out st hout => ⟨hout.1.cons_made ha.nodes_eq habsent (hnot _), hout.2⟩
          simp only [nodes_grow, Dict.find?_insert, ha.nodes_eq]
          split
          · rfl
          · exact hchildren name hn

end Filling

/-- What holds after a visit that succeeded. -/
structure Rewritten (root : String) (generation : Nat) (p : Publisher) (t : Roster) (s : Store)
    (st : Script.Sitting Roster) : Prop where
  desired_eq : st.shared.desired = t.desired
  asked : ∀ name ∈ p.doomed t generation, .delete (Path.child root name) ∈ requests st.heard
  deleted : ∀ path, ⟨.delete path, .ok ()⟩ ∈ st.heard → st.store.nodes.find? path = none
  left : ∀ path, ⟨.delete path, .ok ()⟩ ∉ st.heard → ∀ node,
    s.nodes.find? path = some node → st.store.nodes.find? path = some node
  /-- The node of a desired record is an old one or holds a desired record. -/
  there : ∀ r ∈ t.desired, ⟨.delete (Path.child root r.nodeName), .ok ()⟩ ∉ st.heard →
    ∃ node, st.store.nodes.find? (Path.child root r.nodeName) = some node ∧
      (s.nodes.find? (Path.child root r.nodeName) = some node ∨
        ∃ r' ∈ t.desired, r'.nodeName = r.nodeName ∧ node.data = r'.encode)

theorem leads_visit_rewrites (hroot : Path.IsDirectory root) (id : SessionId) (hp : p.root = root)
    (honest : s.IsHonest) :
    (p.visit (s.children root) generation).Leads (Script.Sitting.party id)
      (fun out st => out.2 = .ok () → Rewritten root generation p t s st) ⟨s, t, []⟩ := by
  have hchildren : ∀ name ∈ s.children root,
      (s.nodes.find? (Path.child root name)).isSome = true :=
    fun name hn => ((s.mem_children_iff hroot).mp hn).2
  rw [visit_eq]
  refine Script.leads_look (Script.leads_bind
    ((leads_makeMissing_fills hroot id hp honest hchildren []).mono ?_))
  rintro ⟨q, result⟩ ⟨s₁, t₁, es₁⟩ ⟨hfilled, hq⟩
  obtain rfl : t₁ = t := hfilled.shared_eq
  cases result with
  | error e => exact Script.leads_done fun hok => by cases hok
  | ok u =>
      obtain rfl : q = p.confirmAll t₁.desired generation := hq rfl
      refine ((leads_afterMaking_requests id _ generation s₁ t₁ es₁).and
        (leads_afterMaking_clears id _ generation s₁ t₁ es₁)).mono ?_
      rintro out st ⟨hrequests, hdesired, es₂, hheard, hclears⟩ hok
      have hlater : ∀ path, ⟨.delete path, .ok ()⟩ ∈ st.heard → ⟨.delete path, .ok ()⟩ ∈ es₂ := by
        intro path hdeleted
        rw [hheard] at hdeleted
        exact (List.mem_append.mp hdeleted).resolve_left fun h => by cases hfilled.heard path h
      have hleft : ∀ path, ⟨.delete path, .ok ()⟩ ∉ st.heard →
          st.store.nodes.find? path = s₁.nodes.find? path := by
        intro path hnot
        rw [hheard, List.mem_append, not_or] at hnot
        exact hclears.left path hnot.2
      refine ⟨hdesired, fun name hname => ?_, fun path hdeleted => hclears.deleted path
        (hlater path hdeleted), fun path hnot node hnode => ?_, fun r hr hnot => ?_⟩
      · rw [hrequests hok, root_confirmAll, hp]
        exact List.mem_append_right _ (List.mem_map_of_mem hname)
      · rw [hleft path hnot]
        exact hfilled.old path node hnode
      · obtain ⟨node, hnode⟩ := Option.isSome_iff_exists.mp (hfilled.there rfl r hr)
        refine ⟨node, (hleft _ hnot).trans hnode, ?_⟩
        rcases hfilled.fresh _ node hnode with hold | ⟨r', hr', hpath, hdata⟩
        · exact .inl hold
        · exact .inr ⟨r', hr', (Path.child_injective hpath).symm, hdata⟩

/-! ### Seasons with any records -/

/-- What is confirmed are names of records of the run that are not static. -/
def Confirms (used : Record → Prop) (p : Publisher) : Prop :=
  ∀ name seen, p.confirmed.find? name = some seen →
    ∃ r, used r ∧ r.isStatic = false ∧ r.nodeName = name

/-- The nodes of the records of the run were there at first, or they hold such a record. -/
def Inherits (used : Record → Prop) (root : String) (s s' : Store) : Prop :=
  ∀ r, used r → ∀ node, node? root s' r = some node → node? root s r = some node ∨
    ∃ r', used r' ∧ r'.nodeName = r.nodeName ∧ node.data = r'.encode

/-- What holds all through a season, whether or not its records share nodes. -/
structure Season.Traced (used : Record → Prop) (root : String) (s : Store) (c : Season) : Prop where
  root_eq : c.publisher.root = root
  confirms : Confirms used c.publisher
  orderly : c.roster.IsOrderly used
  honest : c.store.IsHonest
  inherits : Inherits used root s c.store

theorem Confirms.confirm {r : Record} (h : Confirms used p) (hr : used r) :
    Confirms used (p.confirm r generation) := by
  intro name seen hseen
  rw [find?_confirm] at hseen
  split at hseen
  · next hname => exact ⟨r, hr, hname⟩
  · exact h name seen hseen

theorem Confirms.erase (h : Confirms used p) (name : String) :
    Confirms used { p with confirmed := p.confirmed.erase name } := by
  intro name' seen hseen
  simp only [Dict.find?_erase] at hseen
  split at hseen
  · cases hseen
  · exact h name' seen hseen

theorem Inherits.of_nodes (h : Inherits used root s s')
    (hnodes : ∀ r, used r → node? root s'' r = node? root s' r ∨ node? root s'' r = none) :
    Inherits used root s s'' := by
  intro r hr node hnode
  rcases hnodes r hr with hsame | hnone
  · exact h r hr node (hsame ▸ hnode)
  · rw [hnone] at hnode
    cases hnode

/-- What a visit asks for in a season: to make nodes of records of the run, and to delete. -/
def seasonTerms (used : Record → Prop) (root : String) : Script.Terms Roster where
  shared x := x.IsOrderly used
  asks
    | .create path data _ => ∃ r, used r ∧ path = Path.child root r.nodeName ∧ data = r.encode
    | .delete _ => True
    | _ => False

theorem keeps_visit_season (children : List String) (generation : Nat) (hp : p.root = root)
    (h : Confirms used p) :
    (p.visit children generation).Keeps (seasonTerms used root)
      fun out => out.1.root = root ∧ Confirms used out.1 := by
  refine keeps_visit (fun q => q.root = root ∧ Confirms used q) children generation ⟨hp, h⟩
    (fun x hx q r hr hq => ?_) (fun q name hq => ⟨hq.1, hq.2.erase name⟩)
    (fun x hx r hr => ?_) (fun _ _ _ _ => trivial) (fun x r hx => ⟨hx.unqueue r, trivial⟩)
    fun _ _ _ _ => trivial
  · exact ⟨(q.root_confirm r generation).trans hq.1, hq.2.confirm (hx.desired_used r hr)⟩
  · exact ⟨r, hx.desired_used r hr, by rw [hp], rfl⟩

/-- A call that a visit makes in a season leaves what is inherited. -/
theorem Inherits.serve (h : Inherits used root s s') (id : SessionId) {r : Request}
    (hr : (seasonTerms used root).asks r) : Inherits used root s (s'.serve id r).2 := by
  cases r with
  | create path data mode =>
      obtain ⟨made, hmade, rfl, rfl⟩ := hr
      rcases s'.create_cases id (Path.child root made.nodeName) made.encode mode with
        ⟨_, s'', hserve, ha, -⟩ | ⟨s'', hserve, ha, -⟩
      · simp only [Store.serve, hserve]
        exact h.of_nodes fun r _ => .inl (by rw [node?, node?, ha.nodes_eq])
      · simp only [Store.serve, hserve]
        intro r hr node hnode
        simp only [node?, nodes_grow, Dict.find?_insert, ha.nodes_eq] at hnode
        split at hnode
        · next hpath =>
          cases hnode
          exact .inr ⟨made, hmade, Path.child_injective hpath, rfl⟩
        · exact h r hr node hnode
  | delete path =>
      rcases s'.delete_cases id path with ⟨_, s'', hserve, ha, -⟩ | ⟨s'', hserve, ha, -⟩
      · simp only [Store.serve, hserve]
        exact h.of_nodes fun r _ => .inl (by rw [node?, node?, ha.nodes_eq])
      · simp only [Store.serve, hserve]
        refine h.of_nodes fun r _ => ?_
        simp only [node?, nodes_drop, Dict.find?_erase, ha.nodes_eq]
        split
        · exact .inr rfl
        · exact .inl rfl
  | _ => exact hr.elim

section Tracing

variable {c d : Season}

/-- A visit under any generation. -/
theorem Season.Traced.visit {id : SessionId} {now : Nat} {ids : IdSource}
    {result : Except StoreError Unit} {scene : Script.Scene Roster} (h : c.Traced used root s)
    (run : (c.publisher.visit (c.store.children root) generation).run id now
      ⟨c.store, c.roster, ids⟩ = (.finished (p, result), scene)) (next : Nat) :
    Season.Traced used root s ⟨p, scene.shared, scene.store, next⟩ := by
  have hkeeps := keeps_visit_season (c.store.children root) generation h.root_eq h.confirms
  have hleads := hkeeps.leads (p := Script.Sitting.party id) (s := ⟨c.store, c.roster, []⟩)
    (fun st => st.shared.IsOrderly used ∧ st.store.IsHonest ∧ Inherits used root s st.store)
    (fun _ hst => hst.1) ?_ ?_ ?_ ⟨h.orderly, h.honest, h.inherits⟩
  · obtain ⟨⟨hroot, hconfirms⟩, horderly, honest, hinherits⟩ := Script.leads_run hleads run
    exact ⟨hroot, hconfirms, horderly, honest, hinherits⟩
  · rintro st _ hst rfl
    exact hst
  · rintro st r answer - ⟨horderly, honest, hinherits⟩ hr ⟨rfl, rfl⟩
    have hmild := st.store.milder_serve id r
    exact ⟨trivial, horderly, ⟨fun hf => honest.1 (hmild.failures_subset hf),
      fun hf => honest.2 (hmild.failures_subset hf)⟩, hinherits.serve id hr⟩
  · exact fun st x hst hx => ⟨hx, hst.2⟩

theorem Season.Step.traced (hstep : Step used root c d) (h : c.Traced used root s) :
    d.Traced used root s := by
  cases hstep with
  | announce hr => exact { h with orderly := h.orderly.announce hr }
  | withdraw hr => exact { h with orderly := h.orderly.withdraw hr }
  | withdrawAll => exact { h with orderly := h.orderly.withdrawAll }
  | deed spares =>
      exact { h with
        honest := spares.isHonest h.honest
        inherits := h.inherits.of_nodes fun r hr => spares.node?_eq_or hr }
  | visit later run => exact h.visit run _

/-- How a season goes on if generations may come again, as they do when a visit is repeated. -/
inductive Season.LooseStep (used : Record → Prop) (root : String) : Season → Season → Prop
  | step {c d : Season} (step : Step used root c d) : LooseStep used root c d
  | again (c : Season) (next : Nat) : LooseStep used root c { c with next }

/-- A season is reached from the start of a publisher over a store, with visits under whatever
generations. -/
def Season.LooselyReachable (used : Record → Prop) (root : String) (s : Store) (c : Season) :
    Prop := Relation.ReflTransGen (LooseStep used root) { publisher := { root }, store := s } c

theorem Season.Reachable.loosely (h : Reachable used root s c) : LooselyReachable used root s c :=
  h.lift (fun c => c) fun _ _ => .step

theorem Season.LooselyReachable.traced (honest : s.IsHonest)
    (h : LooselyReachable used root s c) : c.Traced used root s := by
  induction h with
  | refl =>
      exact {
        root_eq := rfl
        confirms := fun name seen hseen => by cases hseen
        orderly := ⟨fun r hr => (by cases hr), fun r hr => (by cases hr)⟩
        honest := honest
        inherits := fun r hr node hnode => .inl hnode }
  | tail _ hstep ih =>
      cases hstep with
      | step hstep => exact hstep.traced ih
      | again next => exact { ih with }

end Tracing

/-! ### Wanted nodes -/

/-- In a season a record clashes only with another one of the run that has the same node name. -/
theorem Season.Traced.exists_of_clashes {c : Season} (h : c.Traced used root s) {r : Record}
    (hr : r ∈ c.roster.desired) (hclash : Clashes c.publisher c.roster generation r) :
    ∃ r', used r' ∧ r' ≠ r ∧ r'.nodeName = r.nodeName := by
  cases hclash with
  | removal pending same =>
      obtain ⟨hused, -, hnot⟩ := h.orderly.removals_static _ pending
      exact ⟨_, hused, fun heq => hnot (heq ▸ hr), same⟩
  | stale confirmed old static =>
      obtain ⟨r', hused, hs, hname⟩ := h.confirms _ _ confirmed
      refine ⟨r', hused, ?_, hname⟩
      rintro rfl
      exact Bool.noConfusion (hs.symm.trans (static r' hr rfl))

section Visiting

variable {c : Season} {id : SessionId} {now : Nat} {ids : IdSource} {scene : Script.Scene Roster}

/-- A visit that succeeds asks to delete the node of a desired record exactly if the record clashes
with another one of the season that shares its node; and exactly if such a deletion succeeds the
node is not there afterwards. -/
theorem wanted_node_is_deleted_iff (hroot : Path.IsDirectory root) (honest : s.IsHonest)
    (h : Season.LooselyReachable used root s c)
    (run : (c.publisher.visit (c.store.children root) generation).run id now
      ⟨c.store, c.roster, ids⟩ = (.finished (p, .ok ()), scene))
    {r : Record} (hr : r ∈ c.roster.desired) :
    let heard := (c.publisher.visit (c.store.children root) generation).heard id now
      ⟨c.store, c.roster, ids⟩
    ((∃ answer, ⟨.delete (Path.child root r.nodeName), answer⟩ ∈ heard) ↔
        Clashes c.publisher c.roster generation r) ∧
      (scene.store.has (Path.child root r.nodeName) = true ↔
        ⟨.delete (Path.child root r.nodeName), .ok ()⟩ ∉ heard) ∧
      (Clashes c.publisher c.roster generation r →
        ∃ r', used r' ∧ r' ≠ r ∧ r'.nodeName = r.nodeName) := by
  intro heard
  have htraced := h.traced honest
  have hrewritten := Script.leads_run
    (leads_visit_rewrites hroot id htraced.root_eq htraced.honest) run rfl
  refine ⟨⟨?_, fun hclash => ?_⟩, ⟨?_, fun hnot => ?_⟩, htraced.exists_of_clashes hr⟩
  · rintro ⟨answer, hasked⟩
    by_contra hclash
    have hkeeps := keeps_visit_of_not_clashes (c.store.children root) hclash
    refine hkeeps.asks_of_mem_heard ⟨rfl, fun r' hr' same => ?_⟩ (fun _ _ => trivial) run _ hasked
      ?_
    · exact hclash (.removal hr' same)
    · rw [htraced.root_eq]
  · have hmem := hrewritten.asked _ (clashes_iff_mem_doomed.mp hclash)
    obtain ⟨⟨request, answer⟩, he, rfl⟩ := List.mem_map.mp hmem
    exact ⟨answer, he⟩
  · intro hthere hdeleted
    rw [scene.store.has_child hroot.1, Dict.contains, hrewritten.deleted _ hdeleted] at hthere
    cases hthere
  · obtain ⟨node, hnode, -⟩ := hrewritten.there r hr hnot
    rw [scene.store.has_child hroot.1, Dict.contains, hnode]
    rfl

/-- The queue at an address; all of these records have one node name. -/
def queueAt (address : String) (isStatic : Bool) : Record :=
  { queueRecord with properties := Dict.empty.insert Record.addressKey address, isStatic }

/-- A record was announced and visited, and then another one was announced in its place. -/
def replacedSeason (old new : Record) : Season :=
  let c : Season :=
    { publisher := { root := "/srv" }
      roster := ({} : Roster).announce old
      store := (({} : Store).put "/srv" []).perform .connect }
  let c := c.visited "/srv" 1 1
  { c with roster := (c.roster.withdraw old).announce new }

theorem reachable_replacedSeason (old new : Record) :
    Season.Reachable (· ∈ [old, new]) "/srv" (({} : Store).put "/srv" [])
      (replacedSeason old new) := by
  have hold : old ∈ [old, new] := by simp
  have hnew : new ∈ [old, new] := by simp
  have hspares : Spares (· ∈ [old, new]) "/srv" (({} : Store).put "/srv" []) .connect :=
    ⟨fun hwrites => absurd hwrites fun h => h, by simp, by simp⟩
  have hstart : Season.Reachable (· ∈ [old, new]) "/srv" (({} : Store).put "/srv" [])
      { publisher := { root := "/srv" }, store := ({} : Store).put "/srv" [] } := .refl
  have hannounced := (hstart.tail (.deed _ hspares)).tail (.announce _ hold)
  have hvisited := Season.reachable_visited hannounced 1 (Nat.zero_le 1)
  exact (hvisited.tail (.withdraw _ hold)).tail (.announce _ hnew)

/-- The queue was ephemeral, and is static now. -/
def turnedSeason : Season := replacedSeason (queueAt "10.0.0.1" false) (queueAt "10.0.0.1" true)

theorem heard_turnedSeason :
    (turnedSeason.publisher.visit (turnedSeason.store.children "/srv") 2).heard 1 0
      ⟨turnedSeason.store, turnedSeason.roster, {}⟩ =
      [⟨.delete (Path.child "/srv" (queueAt "10.0.0.1" true).nodeName), .ok ()⟩] := rfl

theorem wanted_node_is_deleted_of_turned_static :
    queueAt "10.0.0.1" true ∈ turnedSeason.roster.desired ∧
      Clashes turnedSeason.publisher turnedSeason.roster 2 (queueAt "10.0.0.1" true) := by
  obtain ⟨p, scene, hrun⟩ : ∃ p scene,
      (turnedSeason.publisher.visit (turnedSeason.store.children "/srv") 2).run 1 0
        ⟨turnedSeason.store, turnedSeason.roster, {}⟩ = (.finished (p, .ok ()), scene) :=
    ⟨_, _, rfl⟩
  have hdesired : queueAt "10.0.0.1" true ∈ turnedSeason.roster.desired := by decide
  obtain ⟨hasked, -, -⟩ := wanted_node_is_deleted_iff (c := turnedSeason) (by decide) (by decide)
    (reachable_replacedSeason _ _).loosely hrun hdesired
  refine ⟨hdesired, hasked.mp ⟨.ok (), ?_⟩⟩
  rw [heard_turnedSeason]
  exact List.mem_singleton.mpr rfl

/-- A record that takes the place of an ephemeral one of the same instance loses its node, though
the visit succeeds and no failure is injected. -/
theorem wanted_node_is_swept :
    Season.Reachable (· ∈ [queueAt "10.0.0.1" false, queueAt "10.0.0.1" true]) "/srv"
        (({} : Store).put "/srv" []) turnedSeason ∧
      turnedSeason.store.failures = [] ∧
      queueAt "10.0.0.1" true ∈ turnedSeason.roster.desired ∧
      ∃ p scene, (turnedSeason.publisher.visit (turnedSeason.store.children "/srv") 2).run 1 0
          ⟨turnedSeason.store, turnedSeason.roster, {}⟩ = (.finished (p, .ok ()), scene) ∧
        scene.shared.desired = turnedSeason.roster.desired ∧
        (∃ e ∈ (turnedSeason.publisher.visit (turnedSeason.store.children "/srv") 2).heard 1 0
            ⟨turnedSeason.store, turnedSeason.roster, {}⟩,
          e.request = .delete (Path.child "/srv" (queueAt "10.0.0.1" true).nodeName)) ∧
        scene.store.has (Path.child "/srv" (queueAt "10.0.0.1" true).nodeName) = false := by
  refine ⟨reachable_replacedSeason _ _, rfl, by decide, _, _, rfl, rfl, ?_, rfl⟩
  rw [heard_turnedSeason]
  exact ⟨_, List.mem_singleton.mpr rfl, rfl⟩

/-- The node of a name holds a record that is desired under that name. -/
def IsCurrent (root : String) (t : Roster) (s : Store) (name : String) : Prop :=
  ∃ data, s.data? (Path.child root name) = some data ∧
    ∃ r ∈ t.desired, r.nodeName = name ∧ ∀ fresh, Record.decode fresh data = .ok r

theorem not_isCurrent_of_data? {name : String} {r : Record}
    (hdata : s.data? (Path.child root name) = some r.encode) (hr : r ∉ t.desired) :
    ¬IsCurrent root t s name := by
  rintro ⟨data, hfound, r', hr', -, hdecode⟩
  obtain rfl := Option.some.inj (hdata.symm.trans hfound)
  obtain rfl := Except.ok.inj ((Record.decode_encode (.ofDigits []) r).symm.trans (hdecode _))
  exact hr hr'

/-- After a visit that succeeds the node of a desired record holds a desired record exactly if it
was not deleted, and if it held one before the visit in case that it was there. Any payload at the
node was there when the season began, or it is that of some record of the season. -/
theorem payload_is_current_iff (hroot : Path.IsDirectory root) (honest : s.IsHonest)
    (h : Season.LooselyReachable used root s c)
    (run : (c.publisher.visit (c.store.children root) generation).run id now
      ⟨c.store, c.roster, ids⟩ = (.finished (p, .ok ()), scene))
    {r : Record} (hr : r ∈ c.roster.desired) :
    let heard := (c.publisher.visit (c.store.children root) generation).heard id now
      ⟨c.store, c.roster, ids⟩
    (IsCurrent root scene.shared scene.store r.nodeName ↔
        ⟨.delete (Path.child root r.nodeName), .ok ()⟩ ∉ heard ∧
          (c.store.has (Path.child root r.nodeName) = true →
            IsCurrent root c.roster c.store r.nodeName)) ∧
      ∀ data, scene.store.data? (Path.child root r.nodeName) = some data →
        s.data? (Path.child root r.nodeName) = some data ∨ ∃ r', used r' ∧
          r'.nodeName = r.nodeName ∧ ∀ fresh, Record.decode fresh data = .ok r' := by
  intro heard
  have htraced := h.traced honest
  have hrewritten := Script.leads_run
    (leads_visit_rewrites hroot id htraced.root_eq htraced.honest) run rfl
  have hdata : ∀ {s : Store} {path : String} {node : Node}, s.nodes.find? path = some node →
      s.data? path = some node.data := fun hnode => by rw [data?, hnode]; rfl
  -- The desired records are the same before and after, so that only the node itself matters: one
  -- that was there is kept or deleted, and one that was not there is made for a desired record.
  refine ⟨⟨?_, ?_⟩, ?_⟩
  · rintro ⟨data, hfound, r', hr', hcurrent⟩
    have hnot : ⟨.delete (Path.child root r.nodeName), .ok ()⟩ ∉ heard := by
      intro hdeleted
      rw [data?, hrewritten.deleted _ hdeleted] at hfound
      cases hfound
    refine ⟨hnot, fun hthere => ?_⟩
    rw [c.store.has_child hroot.1] at hthere
    obtain ⟨node, hnode⟩ := Option.isSome_iff_exists.mp hthere
    have hsame := (hdata (hrewritten.left _ hnot node hnode)).symm.trans hfound
    refine ⟨data, (hdata hnode).trans hsame, r', ?_, hcurrent⟩
    rw [← hrewritten.desired_eq]
    exact hr'
  · rintro ⟨hnot, hbefore⟩
    obtain ⟨node, hnode, hold | ⟨r', hr', hname, hmade⟩⟩ := hrewritten.there r hr hnot
    · have hthere : c.store.has (Path.child root r.nodeName) = true := by
        rw [c.store.has_child hroot.1, Dict.contains, hold]
        rfl
      obtain ⟨data, hfound, r', hr', hcurrent⟩ := hbefore hthere
      have hsame := (hdata hold).symm.trans hfound
      refine ⟨data, (hdata hnode).trans hsame, r', ?_, hcurrent⟩
      rw [hrewritten.desired_eq]
      exact hr'
    · refine ⟨node.data, hdata hnode, r', ?_, hname, fun fresh => ?_⟩
      · rw [hrewritten.desired_eq]
        exact hr'
      · rw [hmade]
        exact Record.decode_encode fresh r'
  · intro data hfound
    obtain ⟨node, hnode, rfl⟩ := Option.map_eq_some_iff.mp hfound
    rcases (htraced.visit run 0).inherits r (htraced.orderly.desired_used r hr) node hnode with
      hfirst | ⟨r', hused, hname, hmade⟩
    · exact .inl (hdata hfirst)
    · refine .inr ⟨r', hused, hname, fun fresh => ?_⟩
      rw [hmade]
      exact Record.decode_encode fresh r'

/-- The queue was announced at one address, and then at another one in its place. -/
def movedSeason : Season := replacedSeason (queueAt "10.0.0.1" false) (queueAt "10.0.0.2" false)

theorem data?_movedSeason :
    movedSeason.store.data? (Path.child "/srv" (queueAt "10.0.0.2" false).nodeName) =
      some (queueAt "10.0.0.1" false).encode := rfl

theorem payload_is_current_of_moved :
    ∃ p scene, (movedSeason.publisher.visit (movedSeason.store.children "/srv") 2).run 1 0
        ⟨movedSeason.store, movedSeason.roster, {}⟩ = (.finished (p, .ok ()), scene) ∧
      queueAt "10.0.0.2" false ∈ movedSeason.roster.desired ∧
      ¬IsCurrent "/srv" scene.shared scene.store (queueAt "10.0.0.2" false).nodeName := by
  obtain ⟨p, scene, hrun⟩ : ∃ p scene,
      (movedSeason.publisher.visit (movedSeason.store.children "/srv") 2).run 1 0
        ⟨movedSeason.store, movedSeason.roster, {}⟩ = (.finished (p, .ok ()), scene) :=
    ⟨_, _, rfl⟩
  have hdesired : queueAt "10.0.0.2" false ∈ movedSeason.roster.desired := by decide
  refine ⟨p, scene, hrun, hdesired, fun hcurrent => ?_⟩
  obtain ⟨-, hbefore⟩ := (payload_is_current_iff (c := movedSeason) (by decide) (by decide)
    (reachable_replacedSeason _ _).loosely hrun hdesired).1.mp hcurrent
  exact not_isCurrent_of_data? data?_movedSeason (by decide) (hbefore (by decide))

/-- A record that takes the place of an ephemeral one with other properties is not published: the
visit succeeds and no failure is injected, but the node keeps the payload of the old record, which
is not desired any more. -/
theorem replaced_payload_stays :
    Season.Reachable (· ∈ [queueAt "10.0.0.1" false, queueAt "10.0.0.2" false]) "/srv"
        (({} : Store).put "/srv" []) movedSeason ∧
      movedSeason.store.failures = [] ∧
      ∃ p scene, (movedSeason.publisher.visit (movedSeason.store.children "/srv") 2).run 1 0
          ⟨movedSeason.store, movedSeason.roster, {}⟩ = (.finished (p, .ok ()), scene) ∧
        scene.shared.desired = [queueAt "10.0.0.2" false] ∧
        ¬IsCurrent "/srv" scene.shared scene.store (queueAt "10.0.0.2" false).nodeName := by
  refine ⟨reachable_replacedSeason _ _, rfl, _, _, rfl, rfl, ?_⟩
  exact not_isCurrent_of_data? (r := queueAt "10.0.0.1" false) rfl (by decide)

end Visiting

end Publisher

end ServiceRegistry
