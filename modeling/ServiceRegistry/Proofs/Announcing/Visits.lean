import ServiceRegistry.Proofs.Announcing.Calls
import ServiceRegistry.Proofs.Script.Answers

/-! # What a visit of a publisher does

`Publisher.Kept` ties the nodes of the records of a run to the publisher and its roster. Every call
of a visit preserves it, whatever the call comes to, and so does every visit, however it ends
(`leads_makeMissing`, `leads_sweep`, `leads_removeStatic`). The same lemmas say what is reached
where the parts of a visit succeed: all desired nodes are there, then nothing is confirmed that is
not desired, then no removal is left unless a deletion failed. -/

namespace ServiceRegistry

/-- No injected failure says that a node is there already, or that it is gone. -/
def Store.IsHonest (s : Store) : Prop :=
  (.create, .nodeExists) ∉ s.failures ∧ (.delete, .noNode) ∉ s.failures

instance (s : Store) : Decidable s.IsHonest := inferInstanceAs (Decidable (_ ∧ _))

theorem Store.Alike.isHonest {s s' : Store} (h : Alike s s') (hs : s.IsHonest) : s'.IsHonest :=
  ⟨fun hf => hs.1 (h.failures_subset hf), fun hf => hs.2 (h.failures_subset hf)⟩

namespace Publisher

open Store

/-- The records of a run: each has a node of its own below the root. -/
structure Distinct (used : Record → Prop) : Prop where
  plain : ∀ r, used r → r.IsPlain
  injective : ∀ r r', used r → used r' → r.nodeName = r'.nodeName → r = r'

/-- The node of a record, if it is there. -/
def node? (root : String) (s : Store) (r : Record) : Option Node :=
  s.nodes.find? (Path.child root r.nodeName)

variable {used : Record → Prop} {root : String}

/-- How the nodes of the records of a run, the publisher and its roster belong together. Visits had
generations below `next`. -/
structure Kept (used : Record → Prop) (root : String) (next : Nat) (p : Publisher) (t : Roster)
    (s : Store) : Prop where
  root_eq : p.root = root
  honest : s.IsHonest
  /-- A node holds its record, and is owned unless the record is static. -/
  holds : ∀ r, used r → ∀ node, node? root s r = some node →
    node.data = r.encode ∧ node.owner.isSome = !r.isStatic
  /-- The node of a record that is not static was confirmed. -/
  confirmed : ∀ r, used r → r.isStatic = false → (node? root s r).isSome = true →
    p.confirmed.contains r.nodeName = true
  /-- The node of a static record is desired or should be removed. -/
  accounted : ∀ r, used r → r.isStatic = true → (node? root s r).isSome = true →
    r ∈ t.desired ∨ r ∈ t.removals
  seen : ∀ name seen, p.confirmed.find? name = some seen →
    seen < next ∧ ∃ r, used r ∧ r.isStatic = false ∧ r.nodeName = name
  desired_used : ∀ r ∈ t.desired, used r
  removals_static : ∀ r ∈ t.removals, used r ∧ r.isStatic = true ∧ r ∉ t.desired

namespace Kept

variable {next : Nat} {p : Publisher} {t : Roster} {s s' : Store}

/-- Nodes may go, as long as no other node takes their place. -/
theorem of_nodes (h : Kept used root next p t s) (honest : s'.IsHonest)
    (hnodes : ∀ r, used r → node? root s' r = node? root s r ∨ node? root s' r = none) :
    Kept used root next p t s' := by
  have hback : ∀ r, used r → ∀ node, node? root s' r = some node → node? root s r = some node := by
    intro r hr node hnode
    rcases hnodes r hr with heq | hnone
    · exact heq ▸ hnode
    · rw [hnone] at hnode
      cases hnode
  have hsome : ∀ r, used r → (node? root s' r).isSome = true → (node? root s r).isSome = true := by
    intro r hr hthere
    obtain ⟨node, hnode⟩ := Option.isSome_iff_exists.mp hthere
    exact Option.isSome_iff_exists.mpr ⟨node, hback r hr node hnode⟩
  exact {
    root_eq := h.root_eq
    honest := honest
    holds := fun r hr node hnode => h.holds r hr node (hback r hr node hnode)
    confirmed := fun r hr hs hthere => h.confirmed r hr hs (hsome r hr hthere)
    accounted := fun r hr hs hthere => h.accounted r hr hs (hsome r hr hthere)
    seen := h.seen
    desired_used := h.desired_used
    removals_static := h.removals_static }

theorem alike (h : Kept used root next p t s) (ha : Alike s s') : Kept used root next p t s' :=
  h.of_nodes (ha.isHonest h.honest) fun r _ => .inl (by rw [node?, ha.nodes_eq, node?])

theorem confirm (h : Kept used root (next + 1) p t s) {r : Record} (hr : used r) :
    Kept used root (next + 1) (p.confirm r next) t s := by
  unfold Publisher.confirm
  split
  · exact h
  · next hs =>
    refine { h with confirmed := ?_, seen := ?_ }
    · intro r' hr' hs' hthere
      have := h.confirmed r' hr' hs' hthere
      simp only [Dict.contains, Dict.find?_insert] at this ⊢
      split <;> simp_all
    · intro name seen hseen
      simp only [Dict.find?_insert] at hseen
      split at hseen
      · next hname =>
        cases hseen
        exact ⟨Nat.lt_succ_self _, r, hr, by simpa using hs, hname⟩
      · exact h.seen name seen hseen

/-- The node of a desired record is made, after the record was confirmed. -/
theorem grow (h : Kept used root next p t s) (hd : Distinct used) {r : Record} {id : SessionId}
    (hr : r ∈ t.desired)
    (hconfirmed : r.isStatic = false → p.confirmed.contains r.nodeName = true) :
    Kept used root next p t
      (s.grow (Path.child root r.nodeName) ⟨r.encode, (mode r).owner id⟩) := by
  have hused := h.desired_used r hr
  have hfind : ∀ r', used r' → node? root
      (s.grow (Path.child root r.nodeName) ⟨r.encode, (mode r).owner id⟩) r' =
      if r = r' then some ⟨r.encode, (mode r).owner id⟩ else node? root s r' := by
    intro r' hr'
    simp only [node?, nodes_grow, Dict.find?_insert]
    by_cases heq : r = r'
    · simp [heq]
    · have : Path.child root r.nodeName ≠ Path.child root r'.nodeName := fun hpath =>
        heq (hd.injective r r' hused hr' (Path.child_injective hpath))
      simp [heq, this]
  refine { h with honest := h.honest, holds := ?_, confirmed := ?_, accounted := ?_ }
  · intro r' hr' node hnode
    rw [hfind r' hr'] at hnode
    split at hnode
    · next heq =>
      subst heq
      cases hnode
      refine ⟨rfl, ?_⟩
      cases hs : r.isStatic <;> simp [mode, hs, Mode.owner]
    · exact h.holds r' hr' node hnode
  · intro r' hr' hs hthere
    rw [hfind r' hr'] at hthere
    split at hthere
    · next heq => exact heq ▸ hconfirmed (heq ▸ hs)
    · exact h.confirmed r' hr' hs hthere
  · intro r' hr' hs hthere
    rw [hfind r' hr'] at hthere
    split at hthere
    · next heq => exact .inl (heq ▸ hr)
    · exact h.accounted r' hr' hs hthere

/-- A node is dropped. -/
theorem drop (h : Kept used root next p t s) (name : String) :
    Kept used root next p t (s.drop (Path.child root name)) := by
  refine h.of_nodes h.honest fun r _ => ?_
  simp only [node?, nodes_drop, Dict.find?_erase]
  split
  · exact .inr rfl
  · exact .inl rfl

/-- A name whose node is gone needs no confirmation. -/
theorem forget (h : Kept used root next p t s) {n : String}
    (hgone : s.nodes.contains (Path.child root n) = false) :
    Kept used root next { p with confirmed := p.confirmed.erase n } t s := by
  refine { h with confirmed := ?_, seen := ?_ }
  · intro r hr hs hthere
    have hne : n ≠ r.nodeName := by
      rintro rfl
      rw [node?] at hthere
      rw [Dict.contains, hthere] at hgone
      cases hgone
    have := h.confirmed r hr hs hthere
    simpa [Dict.contains, hne] using this
  · intro name seen hseen
    simp only [Dict.find?_erase] at hseen
    split at hseen
    · cases hseen
    · exact h.seen name seen hseen

/-- A static record whose node is gone need not be removed. -/
theorem removed (h : Kept used root next p t s) {r : Record}
    (hgone : s.nodes.contains (Path.child root r.nodeName) = false) :
    Kept used root next p (t.unqueue r) s := by
  refine { h with accounted := ?_, removals_static := ?_ }
  · intro r' hr' hs hthere
    have hne : r' ≠ r := by
      rintro rfl
      rw [node?] at hthere
      rw [Dict.contains, hthere] at hgone
      cases hgone
    rcases h.accounted r' hr' hs hthere with hdesired | hremoval
    · exact .inl hdesired
    · exact .inr (Roster.mem_drop.mpr ⟨hremoval, hne⟩)
  · intro r' hr'
    exact h.removals_static r' (Roster.mem_drop.mp hr').1

end Kept

/-! ### Making what is missing -/

/-- What holds when the nodes of some records were to be made. -/
structure Made (used : Record → Prop) (root : String) (generation : Nat) (t : Roster)
    (rs : List Record) (p : Publisher) (s : Store) (out : Publisher × Except StoreError Unit)
    (st : Script.Sitting Roster) : Prop where
  kept : Kept used root (generation + 1) out.1 t st.store
  shared_eq : st.shared = t
  nodes : ∀ path, s.nodes.contains path = true → st.store.nodes.contains path = true
  stays : ∀ name, p.confirmed.find? name = some generation →
    out.1.confirmed.find? name = some generation
  confirmed : ∀ name seen, out.1.confirmed.find? name = some seen →
    p.confirmed.find? name = some seen ∨
      ∃ r ∈ rs, r.nodeName = name ∧ r.isStatic = false ∧ seen = generation
  made : out.2 = .ok () → ∀ r ∈ rs,
    st.store.nodes.contains (Path.child root r.nodeName) = true ∧
      (r.isStatic = false → out.1.confirmed.find? r.nodeName = some generation)

section Making

variable {generation : Nat} {t : Roster} {p : Publisher} {s s' : Store} {r : Record}
  {rs : List Record} {out : Publisher × Except StoreError Unit} {st : Script.Sitting Roster}

theorem Made.cons (h : Made used root generation t rs (p.confirm r generation) s' out st)
    (hnodes : ∀ path, s.nodes.contains path = true → s'.nodes.contains path = true)
    (hr : s'.nodes.contains (Path.child root r.nodeName) = true) :
    Made used root generation t (r :: rs) p s out st := by
  have hstays : ∀ name, p.confirmed.find? name = some generation →
      (p.confirm r generation).confirmed.find? name = some generation := by
    intro name hname
    rw [find?_confirm]
    split
    · rfl
    · exact hname
  refine ⟨h.kept, h.shared_eq, fun path hp => h.nodes path (hnodes path hp),
    fun name hname => h.stays name (hstays name hname), ?_, ?_⟩
  · intro name seen hseen
    rcases h.confirmed name seen hseen with hold | ⟨r', hr', hnew⟩
    · rw [find?_confirm] at hold
      split at hold
      · next hname =>
        cases hold
        exact .inr ⟨r, by simp, hname.2, hname.1, rfl⟩
      · exact .inl hold
    · exact .inr ⟨r', List.mem_cons_of_mem r hr', hnew⟩
  · intro hok r' hr'
    rcases List.mem_cons.mp hr' with rfl | hr'
    · refine ⟨h.nodes _ hr, fun hs => h.stays _ ?_⟩
      rw [find?_confirm, if_pos ⟨hs, rfl⟩]
    · exact h.made hok r' hr'

/-- The visit is broken off at a record. -/
theorem Made.broken (h : Kept used root (generation + 1) (p.confirm r generation) t s')
    (ha : Alike s s') (e : StoreError) (es : List Exchange) :
    Made used root generation t (r :: rs) p s (p.confirm r generation, .error e) ⟨s', t, es⟩ := by
  refine ⟨h, rfl, fun path hp => ha.nodes_eq ▸ hp, ?_, ?_, fun hok => by cases hok⟩
  · intro name hname
    rw [find?_confirm]
    split
    · rfl
    · exact hname
  · intro name seen hseen
    rw [find?_confirm] at hseen
    split at hseen
    · next hname =>
      cases hseen
      exact .inr ⟨r, by simp, hname.2, hname.1, rfl⟩
    · exact .inl hseen

theorem leads_makeMissing (hroot : Path.IsDirectory root) (hd : Distinct used)
    {children : List String} (id : SessionId) (hrs : ∀ r ∈ rs, r ∈ t.desired)
    (h : Kept used root (generation + 1) p t s)
    (hchildren : ∀ name ∈ children, s.nodes.contains (Path.child root name) = true)
    (es : List Exchange) :
    (makeMissing children generation rs p).Leads (Script.Sitting.party id)
      (Made used root generation t rs p s) ⟨s, t, es⟩ := by
  induction rs generalizing p s es with
  | nil =>
      exact Script.leads_done
        ⟨h, rfl, fun _ hp => hp, fun _ hn => hn, fun _ _ hs => .inl hs, by simp⟩
  | cons r rs ih =>
      have hr := hrs r (by simp)
      have hused := h.desired_used r hr
      have hrs' : ∀ r' ∈ rs, r' ∈ t.desired := fun r' hr' => hrs r' (List.mem_cons_of_mem r hr')
      have hconfirm := h.confirm hused
      have hconfirmed : r.isStatic = false →
          (p.confirm r generation).confirmed.contains r.nodeName = true := by
        intro hs
        rw [Dict.contains, find?_confirm, if_pos ⟨hs, rfl⟩]
        rfl
      unfold makeMissing
      dsimp only
      split
      · next hlisted =>
        exact (ih hrs' hconfirm hchildren es).mono fun out st hmade =>
          hmade.cons (fun _ hp => hp) (hchildren _ hlisted)
      · rw [hconfirm.root_eq]
        refine Script.leads_create h.honest.1 ?_ ?_ ?_
        · intro code s' ha hcode
          simp only [StoreError.isNodeExists, hcode, decide_false, Bool.false_eq_true, ↓reduceIte]
          exact Script.leads_done (.broken (hconfirm.alike ha) ha _ _)
        · intro s' ha hhas
          rw [s.has_child hroot.1] at hhas
          simp only [StoreError.isNodeExists, decide_true, ↓reduceIte]
          refine (ih hrs' (hconfirm.alike ha) (fun name hn => ?_) _).mono fun out st hmade =>
            hmade.cons (fun path hp => ha.nodes_eq ▸ hp) (ha.nodes_eq ▸ hhas)
          exact ha.nodes_eq ▸ hchildren name hn
        · intro s' ha hhas
          have hgrow : ∀ path, s.nodes.contains path = true →
              (s'.grow (Path.child root r.nodeName)
                ⟨r.encode, (mode r).owner id⟩).nodes.contains path = true := by
            intro path hp
            simp only [nodes_grow, ha.nodes_eq, Dict.contains, Dict.find?_insert]
            split
            · rfl
            · exact hp
          refine (ih hrs' ((hconfirm.alike ha).grow hd hr hconfirmed)
            (fun name hn => hgrow _ (hchildren name hn)) _).mono fun out st hmade =>
              hmade.cons hgrow ?_
          simp [Dict.contains]

end Making

/-! ### Sweeping -/

/-- What holds when some names were to be swept. -/
structure Swept (used : Record → Prop) (root : String) (next : Nat) (t : Roster)
    (names : List String) (p : Publisher) (s : Store) (out : Publisher × Except StoreError Unit)
    (st : Script.Sitting Roster) : Prop where
  kept : Kept used root next out.1 t st.store
  shared_eq : st.shared = t
  nodes : ∀ path, (∀ name ∈ names, Path.child root name ≠ path) →
    st.store.nodes.find? path = s.nodes.find? path
  swept : out.2 = .ok () → ∀ name, out.1.confirmed.find? name =
    if name ∈ names then none else p.confirmed.find? name

section Sweeping

variable {next : Nat} {t : Roster} {p : Publisher} {s s' : Store} {name : String}
  {names : List String} {out : Publisher × Except StoreError Unit} {st : Script.Sitting Roster}

theorem Swept.cons
    (h : Swept used root next t names { p with confirmed := p.confirmed.erase name } s' out st)
    (hnodes : ∀ path, Path.child root name ≠ path → s'.nodes.find? path = s.nodes.find? path) :
    Swept used root next t (name :: names) p s out st := by
  refine ⟨h.kept, h.shared_eq, ?_, ?_⟩
  · intro path hpath
    rw [h.nodes path fun n hn => hpath n (List.mem_cons_of_mem name hn)]
    exact hnodes path (hpath name (by simp))
  · intro hok n
    rw [h.swept hok n]
    by_cases hn : n ∈ names
    · simp [hn]
    · by_cases hname : name = n
      · simp [hname]
      · simp [hn, hname, Ne.symm hname]

theorem leads_sweep (id : SessionId) (names : List String) (h : Kept used root next p t s)
    (es : List Exchange) :
    (sweep names p).Leads (Script.Sitting.party id) (Swept used root next t names p s)
      ⟨s, t, es⟩ := by
  induction names generalizing p s es with
  | nil => exact Script.leads_done ⟨h, rfl, fun _ _ => rfl, fun _ _ => rfl⟩
  | cons name names ih =>
      unfold sweep
      obtain rfl := h.root_eq
      refine Script.leads_delete h.honest.2 ?_ ?_ ?_
      · intro code s' ha hcode
        simp only [StoreError.isNoNode, hcode, decide_false, Bool.false_eq_true, ↓reduceIte]
        exact Script.leads_done
          ⟨h.alike ha, rfl, fun path _ => by rw [ha.nodes_eq], fun hok => by cases hok⟩
      · intro s' ha hgone
        simp only [StoreError.isNoNode, decide_true, ↓reduceIte]
        have hforget := (h.alike ha).forget (n := name) (by rw [ha.nodes_eq, hgone])
        exact (ih hforget _).mono fun out st hswept =>
          hswept.cons fun path _ => congrArg (Dict.find? · path) ha.nodes_eq
      · intro s' ha _
        have hdrop := ((h.alike ha).drop name).forget (n := name) (by simp [Dict.contains])
        exact (ih hdrop _).mono fun out st hswept =>
          hswept.cons fun path hpath => by simp [hpath, ha.nodes_eq]

end Sweeping

/-! ### Removing static records -/

/-- The deletion of the node of a static record failed. -/
def FailedRemoval (root : String) (e : Exchange) : Prop :=
  ∃ r : Record, ∃ error : StoreError, r.isStatic = true ∧ error.isNoNode = false ∧
    e = ⟨.delete (Path.child root r.nodeName), .error error⟩

/-- What holds when some static records were to be removed. -/
structure Removed (used : Record → Prop) (root : String) (next : Nat) (p : Publisher) (t : Roster)
    (rs : List Record) (s : Store) (es : List Exchange) (st : Script.Sitting Roster) : Prop where
  kept : Kept used root next p st.shared st.store
  desired_eq : st.shared.desired = t.desired
  nodes : ∀ path, (∀ r ∈ rs, Path.child root r.nodeName ≠ path) →
    st.store.nodes.find? path = s.nodes.find? path
  heard : es ⊆ st.heard
  removals : ∀ r ∈ st.shared.removals, r ∈ t.removals
  removed : (∀ e ∈ st.heard, ¬FailedRemoval root e) → ∀ r ∈ rs, r ∉ st.shared.removals

section Removing

variable {next : Nat} {t : Roster} {p : Publisher} {s s' : Store} {r : Record}
  {rs : List Record} {es : List Exchange} {st : Script.Sitting Roster}

theorem Removed.cons {e : Exchange}
    (h : Removed used root next p (t.unqueue r) rs s' (es ++ [e]) st)
    (hnodes : ∀ path, Path.child root r.nodeName ≠ path →
      s'.nodes.find? path = s.nodes.find? path) :
    Removed used root next p t (r :: rs) s es st := by
  refine ⟨h.kept, h.desired_eq, ?_, fun _ he => h.heard (List.mem_append_left _ he), ?_, ?_⟩
  · intro path hpath
    rw [h.nodes path fun r' hr' => hpath r' (List.mem_cons_of_mem r hr')]
    exact hnodes path (hpath r (by simp))
  · exact fun r' hr' => (Roster.mem_drop.mp (h.removals r' hr')).1
  · intro hfail r' hr'
    rcases List.mem_cons.mp hr' with rfl | hr'
    · exact fun hmem => (Roster.mem_drop.mp (h.removals r' hmem)).2 rfl
    · exact h.removed hfail r' hr'

/-- A failed deletion leaves its record to a later visit. -/
theorem Removed.failed {e : Exchange} (h : Removed used root next p t rs s' (es ++ [e]) st)
    (ha : Alike s s') (hfailed : FailedRemoval root e) :
    Removed used root next p t (r :: rs) s es st := by
  refine ⟨h.kept, h.desired_eq, ?_, fun _ he => h.heard (List.mem_append_left _ he), h.removals, ?_⟩
  · intro path hpath
    rw [h.nodes path fun r' hr' => hpath r' (List.mem_cons_of_mem r hr'), ha.nodes_eq]
  · exact fun hnone => absurd hfailed (hnone e (h.heard (by simp)))

theorem leads_removeStatic (id : SessionId) (h : Kept used root next p t s)
    (hrs : ∀ r ∈ rs, r.isStatic = true) (es : List Exchange) :
    (removeStatic root rs).Leads (Script.Sitting.party id)
      (fun _ st => Removed used root next p t rs s es st) ⟨s, t, es⟩ := by
  induction rs generalizing t s es with
  | nil =>
      exact Script.leads_done ⟨h, rfl, fun _ _ => rfl, fun _ he => he, fun _ hr => hr, by simp⟩
  | cons r rs ih =>
      have hrs' : ∀ r' ∈ rs, r'.isStatic = true := fun r' hr' => hrs r' (List.mem_cons_of_mem r hr')
      unfold removeStatic
      refine Script.leads_delete h.honest.2 ?_ ?_ ?_
      · intro code s' ha hcode
        simp only [StoreError.isNoNode, hcode, decide_false, Bool.false_eq_true, ↓reduceIte]
        refine (ih (h.alike ha) hrs' _).mono fun out st hremoved => hremoved.failed ha ?_
        exact ⟨r, ⟨code, _⟩, hrs r (by simp), by simp [StoreError.isNoNode, hcode], rfl⟩
      · intro s' ha hgone
        simp only [StoreError.isNoNode, decide_true, ↓reduceIte]
        have hremoved := (h.alike ha).removed (r := r) (by rw [ha.nodes_eq, hgone])
        refine Script.leads_change ?_
        exact (ih hremoved hrs' _).mono fun out st hremoved =>
          hremoved.cons fun path _ => by rw [ha.nodes_eq]
      · intro s' ha _
        have hremoved := ((h.alike ha).drop r.nodeName).removed (r := r) (by simp [Dict.contains])
        refine Script.leads_change ?_
        exact (ih hremoved hrs' _).mono fun out st hremoved =>
          hremoved.cons fun path hpath => by simp [hpath, ha.nodes_eq]

end Removing

/-! ### A whole visit -/

/-- The nodes of the records of a run are those of the desired ones, and nothing is left to do. -/
structure Settled (used : Record → Prop) (root : String) (p : Publisher) (t : Roster) (s : Store) :
    Prop where
  node_iff : ∀ r, used r → ((node? root s r).isSome = true ↔ r ∈ t.desired)
  removals_eq : t.removals = []
  confirmed : ∀ name seen, p.confirmed.find? name = some seen →
    ∃ r ∈ t.desired, r.isStatic = false ∧ r.nodeName = name

/-- What holds after a visit. -/
structure Visited (used : Record → Prop) (root : String) (generation : Nat) (t : Roster)
    (out : Publisher × Except StoreError Unit) (st : Script.Sitting Roster) : Prop where
  kept : Kept used root (generation + 1) out.1 st.shared st.store
  desired_eq : st.shared.desired = t.desired
  settled : out.2 = .ok () → (∀ e ∈ st.heard, ¬FailedRemoval root e) →
    Settled used root out.1 st.shared st.store

section Visiting

variable {next generation : Nat} {t : Roster} {p : Publisher} {s : Store}

theorem Kept.mono {next' : Nat} (h : Kept used root next p t s) (hle : next ≤ next') :
    Kept used root next' p t s :=
  { h with
    seen := fun name seen hseen =>
      ⟨Nat.lt_of_lt_of_le (h.seen name seen hseen).1 hle, (h.seen name seen hseen).2⟩ }

/-- The three parts of a visit that succeeds settle the nodes. -/
theorem settled_of_parts {p₁ p₂ : Publisher} {st₁ st₂ st₃ : Script.Sitting Roster}
    (hd : Distinct used) (hlater : next ≤ generation) (h : Kept used root next p t s)
    (hmade : Made used root generation t t.desired p s (p₁, .ok ()) st₁)
    (hswept : Swept used root (generation + 1) t (p₁.stale generation) p₁ st₁.store
      (p₂, .ok ()) st₂)
    (hremoved : Removed used root (generation + 1) p₂ t t.removals st₂.store st₂.heard st₃)
    (hfail : ∀ e ∈ st₃.heard, ¬FailedRemoval root e) :
    Settled used root p₂ st₃.shared st₃.store := by
  have hconfirmed : ∀ name seen, p₂.confirmed.find? name = some seen →
      ∃ r ∈ t.desired, r.isStatic = false ∧ r.nodeName = name := by
    intro name seen hseen
    rw [hswept.swept rfl name] at hseen
    split at hseen
    · cases hseen
    · next hfresh =>
      have hgen : seen = generation := by
        apply Classical.byContradiction
        exact fun hne => hfresh (mem_stale_iff.mpr ⟨seen, hseen, hne⟩)
      rcases hmade.confirmed name seen hseen with hold | ⟨r, hr, hname, hs, -⟩
      · have := (h.seen name seen hold).1
        omega
      · exact ⟨r, hr, hs, hname⟩
  have hnone : st₃.shared.removals = [] := by
    refine List.eq_nil_iff_forall_not_mem.mpr fun r hr => ?_
    exact hremoved.removed hfail r (hremoved.removals r hr) hr
  have hthere : ∀ r ∈ t.desired, (node? root st₃.store r).isSome = true := by
    intro r hr
    have hused := h.desired_used r hr
    obtain ⟨hc, hseen⟩ := hmade.made rfl r hr
    have hswept' : ∀ name ∈ p₁.stale generation,
        Path.child root name ≠ Path.child root r.nodeName := by
      rintro name hname hpath
      obtain rfl := Path.child_injective hpath
      obtain ⟨seen, hfind, hne⟩ := mem_stale_iff.mp hname
      cases hs : r.isStatic with
      | false => exact hne (Option.some.inj (hfind.symm.trans (hseen hs)))
      | true =>
          obtain ⟨-, r', hr', hs', hname'⟩ := hmade.kept.seen _ seen hfind
          obtain rfl := hd.injective r' r hr' hused hname'
          exact Bool.noConfusion (hs.symm.trans hs')
    have hremoved' : ∀ r' ∈ t.removals,
        Path.child root r'.nodeName ≠ Path.child root r.nodeName := by
      rintro r' hr' hpath
      obtain ⟨hused', -, hnot⟩ := h.removals_static r' hr'
      obtain rfl := hd.injective r' r hused' hused (Path.child_injective hpath)
      exact hnot hr
    rw [node?, hremoved.nodes _ hremoved', hswept.nodes _ hswept']
    exact hc
  refine ⟨fun r hused => ⟨fun hsome => ?_, fun hr => hthere r (hremoved.desired_eq ▸ hr)⟩, hnone,
    hremoved.desired_eq.symm ▸ hconfirmed⟩
  cases hs : r.isStatic with
  | false =>
      have hc := hremoved.kept.confirmed r hused hs hsome
      obtain ⟨seen, hseen⟩ := Option.isSome_iff_exists.mp hc
      obtain ⟨r', hr', -, hname⟩ := hconfirmed _ seen hseen
      obtain rfl := hd.injective r' r (h.desired_used r' hr') hused hname
      exact hremoved.desired_eq.symm ▸ hr'
  | true =>
      rcases hremoved.kept.accounted r hused hs hsome with hdesired | hremoval
      · exact hdesired
      · rw [hnone] at hremoval
        cases hremoval

theorem leads_visit {id : SessionId} (hroot : Path.IsDirectory root) (hd : Distinct used)
    (hlater : next ≤ generation) (h : Kept used root next p t s) :
    (p.visit (s.children root) generation).Leads (Script.Sitting.party id)
      (Visited used root generation t) ⟨s, t, []⟩ := by
  have hchildren : ∀ name ∈ s.children root, s.nodes.contains (Path.child root name) = true :=
    fun name hn => ((s.mem_children_iff hroot).mp hn).2
  have hmake := leads_makeMissing hroot hd id (fun _ hr => hr)
    (h.mono (Nat.le_succ_of_le hlater)) hchildren []
  refine Script.leads_look (Script.leads_bind (hmake.mono ?_))
  rintro ⟨p₁, result₁⟩ st₁ hmade
  cases result₁ with
  | error e =>
      exact Script.leads_done
        ⟨hmade.shared_eq ▸ hmade.kept, by rw [hmade.shared_eq], fun hok => by cases hok⟩
  | ok _ =>
      obtain ⟨s₁, t₁, es₁⟩ := st₁
      obtain rfl : t₁ = t := hmade.shared_eq
      have hsweep := leads_sweep id (p₁.stale generation) hmade.kept es₁
      refine Script.leads_bind (hsweep.mono ?_)
      rintro ⟨p₂, result₂⟩ st₂ hswept
      cases result₂ with
      | error e =>
          exact Script.leads_done
            ⟨hswept.shared_eq ▸ hswept.kept, by rw [hswept.shared_eq], fun hok => by cases hok⟩
      | ok _ =>
          obtain ⟨s₂, t₂, es₂⟩ := st₂
          obtain rfl : t₂ = t₁ := hswept.shared_eq
          have hstatic : ∀ r ∈ t₂.removals, r.isStatic = true :=
            fun r hr => (h.removals_static r hr).2.1
          have hremove := leads_removeStatic id hswept.kept hstatic es₂
          refine Script.leads_look
            (Script.leads_bind (?_ : Script.Leads _ _ (removeStatic p₂.root t₂.removals) _))
          rw [show p₂.root = root from hswept.kept.root_eq]
          refine hremove.mono ?_
          rintro - st₃ hremoved
          exact Script.leads_done ⟨hremoved.kept, hremoved.desired_eq, fun _ hfail =>
            settled_of_parts hd hlater h hmade hswept hremoved hfail⟩

/-- Where all nodes are listed, records are confirmed and nothing is asked for. -/
theorem makeMissing_of_listed {children : List String} {rs : List Record}
    (h : ∀ r ∈ rs, r.nodeName ∈ children) :
    makeMissing children generation rs p =
      .done (p.confirmAll rs generation, .ok ()) := by
  induction rs generalizing p with
  | nil => rfl
  | cons r rs ih =>
      rw [makeMissing, if_pos (h r (by simp)), ih fun r' hr' => h r' (List.mem_cons_of_mem r hr')]
      rfl

/-- Where everything is settled, a visit over the present children has nothing to ask for. -/
theorem heard_visit_of_settled {id : SessionId} {now : Nat} {ids : IdSource}
    (hroot : Path.IsDirectory root) (hd : Distinct used) (h : Kept used root next p t s)
    (hs : Settled used root p t s) :
    (p.visit (s.children root) generation).heard id now ⟨s, t, ids⟩ = [] := by
  have hlisted : ∀ r ∈ t.desired, r.nodeName ∈ s.children root := by
    intro r hr
    have hused := h.desired_used r hr
    exact (s.mem_children_iff hroot).mpr
      ⟨Record.isName_nodeName (hd.plain r hused), (hs.node_iff r hused).mpr hr⟩
  have hstale : (p.confirmAll t.desired generation).stale generation = [] := by
    refine List.eq_nil_iff_forall_not_mem.mpr fun name hname => ?_
    obtain ⟨seen, hfind, -, hrs⟩ := mem_stale_confirmAll_iff.mp hname
    obtain ⟨r, hr, hstatic, hname'⟩ := hs.confirmed name seen hfind
    exact Bool.noConfusion (hstatic.symm.trans (hrs r hr hname'))
  have hvisit : p.visit (s.children root) generation = .look fun roster =>
      (makeMissing (s.children root) generation roster.desired p).bind _ := rfl
  rw [hvisit, Script.heard, makeMissing_of_listed hlisted, Script.bind]
  dsimp only
  rw [hstale, sweep]
  simp only [Pure.pure, Bind.bind, Script.bind, Script.heard, hs.removals_eq, removeStatic]

end Visiting

end Publisher

end ServiceRegistry
