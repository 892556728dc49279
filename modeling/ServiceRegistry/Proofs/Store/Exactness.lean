import Mathlib.Data.List.Nodup
import Mathlib.Data.List.Sort
import ServiceRegistry.Proofs.Store.Watches

/-! # Watches are exact

A live session that watches the children of a path is told of a change of them by exactly one event,
which ends the watch, and it is told nothing of the path as long as they stay as they are
(`Store.watches_are_exact`). This holds of every deed, also of those that make or drop several nodes
at once, for every path, whether it is well-formed or not.

Two facts about stores that were reached by deeds carry the count (`Store.Orderly`): nobody watches
a path twice, and the root is no node, so that no node is its own parent. What a deed does node by
node is followed by `Store.Reports`: within one deed nodes are only made or only dropped, so the
first change of the children is never taken back. -/

namespace ServiceRegistry

/-! ### Paths that are not the root -/

namespace Path

theorem eq_root_of_parent_eq_self {path : String} (h : parent path = path) : path = root := by
  cases hcut : Text.cutLast '/' path.toList with
  | none => exact h ▸ by simp [parent, hcut]
  | some p =>
      obtain ⟨before, after⟩ := p
      have hjoin := (Text.cutLast_join _ hcut).1
      cases before with
      | nil => exact h ▸ by simp [parent, hcut]
      | cons c cs =>
          have hshort : (parent path).toList = c :: cs := by simp [parent, hcut]
          rw [h, ← hjoin] at hshort
          have := congrArg List.length hshort
          simp at this

theorem elements_ne_empty (path : String) : ∀ e ∈ elements path, e ≠ "" := by
  intro e he
  simp only [elements, List.mem_map, List.mem_filter, decide_eq_true_eq] at he
  obtain ⟨cs, ⟨-, hcs⟩, rfl⟩ := he
  exact fun h => hcs (by simpa using congrArg String.toList h)

theorem ne_root_of_mem_chain {es : List String} (h : ∀ e ∈ es, e ≠ "") {path : String}
    (hp : path ∈ chain es) : path ≠ root := by
  have hgo : ∀ above, path ∈ chain.go above es → path ≠ root := by
    clear hp
    induction es with
    | nil => intro above hp; cases hp
    | cons e es ih =>
        intro above hp
        rcases List.mem_cons.mp hp with rfl | hp
        · exact fun hroot => h e (by simp) (child_eq_root_iff.mp hroot).2
        · exact ih (fun e' he' => h e' (List.mem_cons_of_mem e he')) _ hp
  exact hgo "" hp

end Path

namespace Store

variable {s s' s'' : Store}

/-! ### Orderly stores -/

/-- Nobody watches a path twice, and the root is no node. -/
structure Orderly (s : Store) : Prop where
  once : s.watches.Nodup
  rootless : s.nodes.contains Path.root = false

namespace Orderly

/-- No node is its own parent. -/
theorem parent_ne (h : s.Orderly) {path : String} (hthere : s.nodes.contains path = true) :
    Path.parent path ≠ path := by
  intro heq
  rw [Path.eq_root_of_parent_eq_self heq, h.rootless] at hthere
  cases hthere

theorem of_same (h : s.Orderly) (hwatches : s'.watches = s.watches)
    (hnodes : s'.nodes.contains Path.root = s.nodes.contains Path.root) : s'.Orderly :=
  ⟨hwatches ▸ h.once, hnodes.trans h.rootless⟩

theorem of_alike (h : s.Orderly) (ha : Alike s s') : s'.Orderly :=
  h.of_same ha.watches_eq (by rw [ha.nodes_eq])

theorem watch (h : s.Orderly) (path : String) (id : SessionId) : (s.watch path id).Orderly := by
  refine ⟨?_, by rw [nodes_watch]; exact h.rootless⟩
  unfold Store.watch
  split
  · exact h.once
  · next hnew => exact List.nodup_append.mpr ⟨h.once, by simp, fun w hw v hv => by
      rintro rfl
      exact hnew (List.mem_singleton.mp hv ▸ hw)⟩

theorem grow (h : s.Orderly) {path : String} (hp : path ≠ Path.root) (node : Node) :
    (s.grow path node).Orderly :=
  ⟨h.once.filter _, by simpa [Dict.contains, hp] using h.rootless⟩

theorem drop (h : s.Orderly) (path : String) : (s.drop path).Orderly := by
  refine ⟨h.once.filter _, ?_⟩
  have := h.rootless
  simp only [nodes_drop, Dict.contains, Dict.find?_erase] at this ⊢
  split
  · rfl
  · exact this

theorem ensure (h : s.Orderly) {path : String} (hp : path ≠ Path.root) :
    (s.ensure path).Orderly := by
  unfold Store.ensure
  split
  · exact h
  · exact h.grow hp ⟨[], none⟩

theorem foldl_ensure (h : s.Orderly) {paths : List String} (hp : ∀ p ∈ paths, p ≠ Path.root) :
    (paths.foldl Store.ensure s).Orderly := by
  induction paths generalizing s with
  | nil => exact h
  | cons p ps ih =>
      exact ih (h.ensure (hp p (by simp))) fun p' hp' => hp p' (List.mem_cons_of_mem p hp')

theorem foldl_drop (h : s.Orderly) (paths : List String) : (paths.foldl Store.drop s).Orderly := by
  induction paths generalizing s with
  | nil => exact h
  | cons p ps ih => exact ih (h.drop p)

theorem endSession (h : s.Orderly) (id : SessionId) : (s.endSession id).Orderly := by
  let t : Store := { s with sessions := s.sessions.filter (·.id ≠ id) }
  have hdrops : ((t.ownedBy id).foldl Store.drop t).Orderly :=
    foldl_drop (s := t) ⟨h.once, h.rootless⟩ _
  exact ⟨hdrops.once.filter _, hdrops.rootless⟩

theorem put (h : s.Orderly) (path : String) (data : Bytes) : (s.put path data).Orderly := by
  have hway : ((Path.chain (Path.elements path)).foldl Store.ensure s).Orderly :=
    h.foldl_ensure fun p hp => Path.ne_root_of_mem_chain (Path.elements_ne_empty path) hp
  unfold Store.put
  dsimp only
  split
  · next node hfind =>
    refine hway.of_same rfl ?_
    by_cases hp : path = Path.root
    · simp [Dict.contains, hp, hp ▸ hfind]
    · simp [Dict.contains, hp]
  · exact hway

theorem serve (h : s.Orderly) (id : SessionId) (r : Request) : (s.serve id r).2.Orderly := by
  cases r with
  | list path watching =>
      rcases s.list_cases id path watching with ⟨_, s', hs, ha⟩ | ⟨s', hs, ha, -⟩
      · rw [Store.serve, hs]
        exact h.of_alike ha
      · rw [Store.serve, hs]
        cases watching with
        | false => exact h.of_alike ha
        | true => exact (h.of_alike ha).watch path id
  | beginRead path =>
      rcases s.beginRead_cases id path with ⟨_, s', hs, ha, -⟩ | ⟨s', hs, ha, -⟩
      all_goals
        rw [Store.serve, hs]
        exact h.of_alike ha
  | finishRead path => exact h
  | probe path =>
      rcases s.probe_cases id path with ⟨_, s', hs, ha⟩ | ⟨s', hs, ha, -⟩
      all_goals
        rw [Store.serve, hs]
        exact h.of_alike ha
  | create path data mode =>
      rcases s.create_cases id path data mode with ⟨_, s', hs, ha, -⟩ | ⟨s', hs, ha, hfree, -⟩
      · rw [Store.serve, hs]
        exact h.of_alike ha
      · rw [Store.serve, hs]
        refine (h.of_alike ha).grow ?_ _
        rintro rfl
        simp [has] at hfree
  | delete path =>
      rcases s.delete_cases id path with ⟨_, s', hs, ha, -⟩ | ⟨s', hs, ha, -⟩
      · rw [Store.serve, hs]
        exact h.of_alike ha
      · rw [Store.serve, hs]
        exact (h.of_alike ha).drop path

theorem perform (h : s.Orderly) (d : Deed) : (s.perform d).Orderly := by
  have hsetConnected : ∀ id on, (s.setConnected id on).Orderly := by
    intro id on
    unfold setConnected
    split
    · exact h.of_same rfl rfl
    · exact h
  cases d with
  | put path data => exact h.put path data
  | remove path =>
      simp only [Store.perform, remove]
      split
      · exact h.drop path
      · exact h
  | failNext call code => exact h.of_same rfl rfl
  | delayReads ms => exact h.of_same rfl rfl
  | connect =>
      rcases s.connect_cases with ⟨_, s', hs, ha, -⟩ | hs
      · rw [Store.perform, hs]
        exact h.of_alike ha
      · rw [Store.perform, hs]
        exact h.of_same rfl rfl
  | close id =>
      simp only [Store.perform, close]
      split
      · exact h.endSession id
      · exact h
  | expire id =>
      simp only [Store.perform, expire]
      split
      · exact (h.of_same rfl rfl : (s.post id _).Orderly).endSession id
      · exact h
  | disconnect id => exact hsetConnected id false
  | reconnect id => exact hsetConnected id true
  | serve id r => exact h.serve id r
  | takeEvents id => exact h.of_same rfl rfl

end Orderly

/-- A store that was reached by deeds from the empty one is orderly. -/
theorem ByDeeds.orderly {p : Deed → Prop} (h : ByDeeds p {} s) : s.Orderly :=
  h.invariant (fun _ d _ hs => hs.perform d) ⟨List.nodup_nil, rfl⟩

/-! ### Children that changed -/

/-- If nodes are only made, one of them right below a path, there are more children of the path. -/
theorem length_children_lt {path child : String}
    (hmono : ∀ p, s.nodes.contains p = true → s'.nodes.contains p = true)
    (hne : child ≠ path) (hparent : Path.parent child = path)
    (hbefore : s.nodes.contains child = false) (hafter : s'.nodes.contains child = true) :
    (s.children path).length < (s'.children path).length := by
  have hnew : child ∉ s.childPaths path := by
    rw [mem_childPaths_iff, hbefore]
    exact fun h => Bool.noConfusion h.1
  have hnodup : (child :: s.childPaths path).Nodup :=
    List.nodup_cons.mpr ⟨hnew, (s.ascending_childPaths path).nodup⟩
  have hsub : child :: s.childPaths path ⊆ s'.childPaths path := by
    intro p hp
    rcases List.mem_cons.mp hp with rfl | hp
    · exact s'.mem_childPaths_iff.mpr ⟨hafter, hne, hparent⟩
    · obtain ⟨hc, hrest⟩ := s.mem_childPaths_iff.mp hp
      exact s'.mem_childPaths_iff.mpr ⟨hmono p hc, hrest⟩
  have hlength := (List.subperm_of_subset hnodup hsub).length_le
  rw [children, children, List.length_map, List.length_map]
  exact hlength

/-! ### What a deed reports node by node -/

/-- The events about a path. -/
def about (path : String) (es : List Event) : List Event := es.filter (·.path = some path)

@[simp] theorem about_nil (path : String) : about path [] = [] := rfl

@[simp] theorem about_append (path : String) (es es' : List Event) :
    about path (es ++ es') = about path es ++ about path es' := List.filter_append _ _

@[simp] theorem about_childrenChanged (path : String) :
    about path [childrenChanged path] = [childrenChanged path] := by
  simp [about, childrenChanged]

theorem about_childrenChanged_of_ne {path path' : String} (h : path' ≠ path) :
    about path [childrenChanged path'] = [] := by
  simp [about, childrenChanged, h]

theorem about_of_path_eq_none {es : List Event} (h : ∀ e ∈ es, e.path = none) (path : String) :
    about path es = [] := by
  refine List.filter_eq_nil_iff.mpr fun e he => ?_
  simp [h e he]

/-- Telling the watchers of a path puts one event into the inbox of each live one. -/
theorem inbox_notify (s : Store) (path : String) (id : SessionId) (once : s.watches.Nodup)
    (live : (s.session? id).isSome = true) :
    (s.notify path).inbox id =
      s.inbox id ++ if (path, id) ∈ s.watches then [childrenChanged path] else [] := by
  have hwatchers : (s.watchers path).Nodup := by
    refine List.Nodup.map_on ?_ (once.filter _)
    intro w hw v hv hsame
    have hw' := (List.mem_filter.mp hw).2
    have hv' := (List.mem_filter.mp hv).2
    simp only [decide_eq_true_eq] at hw' hv'
    exact Prod.ext (hw'.trans hv'.symm) hsame
  have hmem : id ∈ (s.watchers path).filter (fun i => (s.session? i).isSome) ↔
      (path, id) ∈ s.watches := by
    simp [watchers, live]
  have hcount := (hwatchers.filter fun i => (s.session? i).isSome).count (a := id)
  simp only [inbox, notify, List.filter_append, List.map_append, List.filter_map, List.map_map]
  congr 1
  have hsame : ((fun w : SessionId × Event => decide (w.1 = id)) ∘
      fun i => (i, childrenChanged path)) = fun i => decide (i = id) := rfl
  rw [hsame, List.filter_eq, hcount, List.map_replicate]
  by_cases h : (path, id) ∈ s.watches
  · rw [if_pos (hmem.mpr h), if_pos h]
    rfl
  · rw [if_neg fun hm => h (hmem.mp hm), if_neg h]
    rfl

/-- What becomes of the children of a path, and what a session is told of them. -/
inductive Outcome (there : Bool) (path : String) (id : SessionId) (s s' : Store) : Prop
  /-- Nothing became of them, and nothing was told. -/
  | silent (news : List Event) (inbox_eq : s'.inbox id = s.inbox id ++ news)
      (nodes : ∀ p, p ≠ path → Path.parent p = path →
        s'.nodes.contains p = s.nodes.contains p)
      (about_eq : about path news = [])
      (watching : (path, id) ∈ s'.watches ↔ (path, id) ∈ s.watches)
  /-- One of them came or went; this was told to those who watched, and nobody watches any more. -/
  | told (news : List Event) (inbox_eq : s'.inbox id = s.inbox id ++ news) (child : String)
      (ne : child ≠ path) (parent_eq : Path.parent child = path)
      (before : s.nodes.contains child = !there) (after : s'.nodes.contains child = there)
      (about_eq : about path news = if (path, id) ∈ s.watches then [childrenChanged path] else [])
      (unwatched : (path, id) ∉ s'.watches)

/-- A deed in progress, by which nodes are only made, if `there`, or only dropped. -/
structure Reports (there : Bool) (path : String) (id : SessionId) (s s' : Store) : Prop where
  sessions_eq : s'.sessions = s.sessions
  mono : ∀ p, s.nodes.contains p = there → s'.nodes.contains p = there
  outcome : Outcome there path id s s'

namespace Reports

variable {there : Bool} {path : String} {id : SessionId}

/-- Nothing is reported where nodes stay and nobody is told or stops to watch. -/
theorem of_same (hsessions : s'.sessions = s.sessions)
    (hnodes : ∀ p, s'.nodes.contains p = s.nodes.contains p) (hinboxes : s'.inboxes = s.inboxes)
    (hwatches : s'.watches = s.watches) : Reports there path id s s' where
  sessions_eq := hsessions
  mono p hp := (hnodes p).trans hp
  outcome := .silent [] (by rw [List.append_nil, inbox, inbox, hinboxes]) (fun p _ _ => hnodes p)
    rfl (by rw [hwatches])

theorem refl (s : Store) : Reports there path id s s := of_same rfl (fun _ => rfl) rfl rfl

theorem of_alike (h : Alike s s') : Reports there path id s s' :=
  of_same h.sessions_eq (fun p => by rw [h.nodes_eq]) h.inboxes_eq h.watches_eq

theorem trans (h : Reports there path id s s') (h' : Reports there path id s' s'') :
    Reports there path id s s'' := by
  refine ⟨h'.sessions_eq.trans h.sessions_eq, fun p hp => h'.mono p (h.mono p hp), ?_⟩
  cases h.outcome with
  | silent news hinbox hnodes habout hwatching =>
      cases h'.outcome with
      | silent news' hinbox' hnodes' habout' hwatching' =>
          exact .silent (news ++ news') (by rw [hinbox', hinbox, List.append_assoc])
            (fun p hne hparent => (hnodes' p hne hparent).trans (hnodes p hne hparent))
            (by rw [about_append, habout, habout', List.append_nil]) (hwatching'.trans hwatching)
      | told news' hinbox' child hne hparent hbefore hafter habout' hover =>
          refine .told (news ++ news') (by rw [hinbox', hinbox, List.append_assoc]) child hne
            hparent ((hnodes child hne hparent).symm.trans hbefore) hafter ?_ hover
          simp only [about_append, habout, habout', hwatching, List.nil_append]
  | told news hinbox child hne hparent hbefore hafter habout hover =>
      -- The watch is over, so that no later step can tell of the path again.
      have hrest : ∃ news', s''.inbox id = s'.inbox id ++ news' ∧ about path news' = [] ∧
          (path, id) ∉ s''.watches := by
        cases h'.outcome with
        | silent news' hinbox' _ habout' hwatching' =>
            exact ⟨news', hinbox', habout', fun hmem => hover (hwatching'.mp hmem)⟩
        | told news' hinbox' _ _ _ _ _ habout' hover' =>
            exact ⟨news', hinbox', habout'.trans (if_neg hover), hover'⟩
      obtain ⟨news', hinbox', habout', hover'⟩ := hrest
      exact .told (news ++ news') (by rw [hinbox', hinbox, List.append_assoc]) child hne hparent
        hbefore (h'.mono child hafter)
        (by rw [about_append, habout, habout', List.append_nil]) hover'

/-- One node is made or dropped, and the watchers of its parent are told. -/
theorem of_notify {nodes : Dict Node} {node : String} (h : s.Orderly)
    (live : (s.session? id).isSome = true) (hroot : node ≠ Path.root)
    (hothers : ∀ p, p ≠ node → nodes.contains p = s.nodes.contains p)
    (hbefore : s.nodes.contains node = !there) (hafter : nodes.contains node = there) :
    Reports there path id s (notify { s with nodes } (Path.parent node)) := by
  have hinbox := inbox_notify { s with nodes } (Path.parent node) id h.once live
  refine ⟨rfl, fun p hp => ?_, ?_⟩
  · by_cases hne : p = node
    · exact hne ▸ hafter
    · exact (hothers p hne).trans hp
  · by_cases hparent : Path.parent node = path
    · subst hparent
      refine .told _ hinbox node (fun hself => hroot (Path.eq_root_of_parent_eq_self hself.symm))
        rfl hbefore hafter ?_ ?_
      · split <;> simp
      · simp [notify]
    · refine .silent _ hinbox (fun p _ hp => hothers p ?_) ?_ ?_
      · rintro rfl
        exact hparent hp
      · split
        · exact about_childrenChanged_of_ne hparent
        · rfl
      · simp [notify, Ne.symm hparent]

theorem of_grow (h : s.Orderly) (live : (s.session? id).isSome = true) {node : String}
    (hroot : node ≠ Path.root) (hfree : s.nodes.contains node = false) (value : Node) :
    Reports true path id s (s.grow node value) :=
  of_notify h live hroot (fun p hp => by simp [Dict.contains, Ne.symm hp]) hfree
    (by simp [Dict.contains])

theorem of_drop (h : s.Orderly) (live : (s.session? id).isSome = true) {node : String}
    (hthere : s.nodes.contains node = true) : Reports false path id s (s.drop node) := by
  refine of_notify h live ?_ (fun p hp => by simp [Dict.contains, Ne.symm hp]) hthere
    (by simp [Dict.contains])
  rintro rfl
  exact Bool.noConfusion (h.rootless.symm.trans hthere)

theorem foldl_ensure (h : s.Orderly) (live : (s.session? id).isSome = true) {paths : List String}
    (hp : ∀ p ∈ paths, p ≠ Path.root) : Reports true path id s (paths.foldl ensure s) := by
  induction paths generalizing s with
  | nil => exact .refl s
  | cons p ps ih =>
      have hroot := hp p (by simp)
      have hfirst : Reports true path id s (s.ensure p) := by
        unfold ensure
        split
        · exact .refl s
        · next hfree => exact of_grow h live hroot (by simpa using hfree) ⟨[], none⟩
      refine hfirst.trans (ih (h.ensure hroot) ?_ fun p' hp' => hp p' (List.mem_cons_of_mem p hp'))
      rw [session?_congr s id hfirst.sessions_eq]
      exact live

/-- Different nodes that are there are dropped. -/
theorem foldl_drop (h : s.Orderly) (live : (s.session? id).isSome = true) {paths : List String}
    (hnodup : paths.Nodup) (hthere : ∀ p ∈ paths, s.nodes.contains p = true) :
    Reports false path id s (paths.foldl drop s) := by
  induction paths generalizing s with
  | nil => exact .refl s
  | cons p ps ih =>
      obtain ⟨hnew, hnodup⟩ := List.nodup_cons.mp hnodup
      have hfirst : Reports false path id s (s.drop p) := of_drop h live (hthere p (by simp))
      refine hfirst.trans (ih (h.drop p) live hnodup fun p' hp' => ?_)
      have hne : p ≠ p' := fun heq => hnew (heq ▸ hp')
      simpa [Dict.contains, hne] using hthere p' (List.mem_cons_of_mem p hp')

theorem put (h : s.Orderly) (live : (s.session? id).isSome = true) (node : String) (data : Bytes) :
    Reports true path id s (s.put node data) := by
  have hway : Reports true path id s ((Path.chain (Path.elements node)).foldl ensure s) :=
    foldl_ensure h live fun p hp => Path.ne_root_of_mem_chain (Path.elements_ne_empty node) hp
  refine hway.trans ?_
  unfold Store.put
  dsimp only
  split
  · next old hfind =>
    refine of_same rfl (fun p => ?_) rfl rfl
    by_cases hp : node = p
    · simp [Dict.contains, ← hp, hfind]
    · simp [Dict.contains, hp]
  · exact .refl _

end Reports

/-! ### Every deed -/

/-- From one store to the next a session that watches the children of a path is told of a change of
them once, which ends the watch, and of nothing else that concerns the path. -/
def IsExact (path : String) (id : SessionId) (s s' : Store) : Prop :=
  ∃ news, s'.inbox id = s.inbox id ++ news ∧
    if s'.children path = s.children path then about path news = [] ∧ (path, id) ∈ s'.watches
    else about path news = [childrenChanged path] ∧ (path, id) ∉ s'.watches

namespace IsExact

variable {path : String} {id : SessionId}

theorem of_reports {there : Bool} (h : Reports there path id s s')
    (watching : (path, id) ∈ s.watches) : IsExact path id s s' := by
  cases h.outcome with
  | silent news hinbox hnodes habout hwatching =>
      refine ⟨news, hinbox, ?_⟩
      rw [if_pos (children_congr hnodes)]
      exact ⟨habout, hwatching.mpr watching⟩
  | told news hinbox child hne hparent hbefore hafter habout hover =>
      have hchanged : (s'.children path).length ≠ (s.children path).length := by
        cases there with
        | true => exact (length_children_lt h.mono hne hparent hbefore hafter).ne'
        | false =>
            refine (length_children_lt (fun p hp => ?_) hne hparent hafter hbefore).ne
            cases hc : s.nodes.contains p with
            | true => rfl
            | false => exact Bool.noConfusion ((h.mono p hc).symm.trans hp)
      refine ⟨news, hinbox, ?_⟩
      rw [if_neg fun heq => hchanged (by rw [heq]), habout, if_pos watching]
      exact ⟨rfl, hover⟩

/-- Nodes stay, and the session is told at most of its connection. -/
theorem of_posts (news : List Event) (hnodes : s'.nodes = s.nodes)
    (hinbox : s'.inbox id = s.inbox id ++ news) (hnews : ∀ e ∈ news, e.path = none)
    (watching : (path, id) ∈ s'.watches) : IsExact path id s s' := by
  refine ⟨news, hinbox, ?_⟩
  rw [if_pos (children_congr fun p _ _ => by rw [hnodes])]
  exact ⟨about_of_path_eq_none hnews path, watching⟩

theorem of_post {t : Store} {i : SessionId} {e : Event} (hnodes : t.nodes = s.nodes)
    (hinboxes : t.inboxes = s.inboxes) (hwatches : t.watches = s.watches) (he : e.path = none)
    (watching : (path, id) ∈ s.watches) : IsExact path id s (t.post i e) := by
  have hwatching : (path, id) ∈ (t.post i e).watches := by
    rw [show (t.post i e).watches = t.watches from rfl, hwatches]
    exact watching
  have hinbox : t.inbox id = s.inbox id := by rw [inbox, inbox, hinboxes]
  by_cases hi : i = id
  · subst hi
    exact of_posts [e] hnodes (by rw [inbox_post_self, hinbox]) (by simpa using he) hwatching
  · exact of_posts [] hnodes
      (by rw [inbox_post_of_ne _ _ _ hi, hinbox, List.append_nil]) (by simp) hwatching

theorem of_endSession (h : s.Orderly) {i : SessionId} (hi : i ≠ id)
    (live : (s.session? id).isSome = true) (watching : (path, id) ∈ s.watches) :
    IsExact path id s (s.endSession i) := by
  let t : Store := { s with sessions := s.sessions.filter (·.id ≠ i) }
  have hlive : (t.session? id).isSome = true := by
    have hend := s.session?_endSession i id
    rw [if_neg (Ne.symm hi)] at hend
    rw [← hend] at live
    rwa [session?, show (s.endSession i).sessions = t.sessions from sessions_foldl_drop _ _] at live
  have hascending : (t.ownedBy i).Pairwise (· < ·) := by
    rw [ownedBy, List.pairwise_map]
    exact List.Pairwise.filter _ t.nodes.ascending
  have hthere : ∀ p ∈ t.ownedBy i, t.nodes.contains p = true := by
    intro p hp
    obtain ⟨node, hfind, -⟩ := mem_ownedBy_iff.mp hp
    simp [Dict.contains, hfind]
  have hdrops : Reports false path id t ((t.ownedBy i).foldl drop t) :=
    Reports.foldl_drop (s := t) ⟨h.once, h.rootless⟩ hlive hascending.nodup hthere
  obtain ⟨news, hinbox, hexact⟩ := of_reports hdrops watching
  have hkept : (path, id) ∈ (s.endSession i).watches ↔
      (path, id) ∈ ((t.ownedBy i).foldl drop t).watches := by
    rw [show (s.endSession i).watches =
      ((t.ownedBy i).foldl drop t).watches.filter (·.2 ≠ i) from rfl, List.mem_filter]
    simp [Ne.symm hi]
  refine ⟨news, hinbox, ?_⟩
  rw [hkept]
  exact hexact

theorem of_alike (h : Alike s s') (watching : (path, id) ∈ s.watches) : IsExact path id s s' :=
  of_reports (Reports.of_alike h : Reports true path id s s') watching

theorem refl (watching : (path, id) ∈ s.watches) : IsExact path id s s :=
  of_reports (Reports.refl s : Reports true path id s s) watching

theorem of_serve (h : s.Orderly) (live : (s.session? id).isSome = true)
    (watching : (path, id) ∈ s.watches) (i : SessionId) (r : Request) :
    IsExact path id s (s.serve i r).2 := by
  cases r with
  | list p again =>
      rcases s.list_cases i p again with ⟨_, s', hs, ha⟩ | ⟨s', hs, ha, -⟩
      · rw [serve, hs]
        exact of_alike ha watching
      · rw [serve, hs]
        cases again with
        | false => exact of_alike ha watching
        | true =>
            refine of_posts [] ((nodes_watch s' p i).trans ha.nodes_eq) ?_ (by simp) ?_
            · simp only [↓reduceIte, inbox, inboxes_watch, ha.inboxes_eq, List.append_nil]
            · simp [ha.watches_eq, watching]
  | beginRead p =>
      rcases s.beginRead_cases i p with ⟨_, s', hs, ha, -⟩ | ⟨s', hs, ha, -⟩
      all_goals
        rw [serve, hs]
        exact of_alike ha watching
  | finishRead p => exact refl watching
  | probe p =>
      rcases s.probe_cases i p with ⟨_, s', hs, ha⟩ | ⟨s', hs, ha, -⟩
      all_goals
        rw [serve, hs]
        exact of_alike ha watching
  | create p data mode =>
      rcases s.create_cases i p data mode with ⟨_, s', hs, ha, -⟩ | ⟨s', hs, ha, hfree, -⟩
      · rw [serve, hs]
        exact of_alike ha watching
      · rw [serve, hs]
        simp only [has, Bool.or_eq_false_iff, decide_eq_false_iff_not] at hfree
        refine of_reports (.trans (.of_alike ha) (.of_grow (h.of_alike ha) ?_ hfree.1 ?_ _))
          watching
        · rwa [ha.session?_eq]
        · rw [ha.nodes_eq]
          exact hfree.2
  | delete p =>
      rcases s.delete_cases i p with ⟨_, s', hs, ha, -⟩ | ⟨s', hs, ha, hthere, -⟩
      · rw [serve, hs]
        exact of_alike ha watching
      · rw [serve, hs]
        refine of_reports (.trans (.of_alike ha) (.of_drop (h.of_alike ha) ?_ ?_)) watching
        · rwa [ha.session?_eq]
        · rw [ha.nodes_eq]
          exact hthere

end IsExact

/-- Every deed on a store that was reached by deeds is exact for a session that watches the children
of a path and is live before and after it, if it is not that the session takes its events. -/
theorem watches_are_exact (h : ByDeeds (fun _ => True) {} s) {d : Deed} {path : String}
    {id : SessionId} (untaken : d ≠ .takeEvents id) (watching : (path, id) ∈ s.watches)
    (live : (s.session? id).isSome = true) (live' : ((s.perform d).session? id).isSome = true) :
    IsExact path id s (s.perform d) := by
  have horderly := h.orderly
  cases d with
  | put p data => exact .of_reports (.put horderly live p data) watching
  | remove p =>
      simp only [perform, remove]
      split
      · next hthere => exact .of_reports (.of_drop horderly live hthere) watching
      · exact .refl watching
  | failNext call code => exact .of_posts [] rfl (List.append_nil _).symm (by simp) watching
  | delayReads ms => exact .of_posts [] rfl (List.append_nil _).symm (by simp) watching
  | connect =>
      rcases s.connect_cases with ⟨_, s', hs, ha, -⟩ | hs
      · rw [perform, hs]
        exact .of_alike ha watching
      · rw [perform, hs]
        exact .of_post rfl rfl rfl rfl watching
  | close i =>
      have hi : i ≠ id := by
        rintro rfl
        simp [perform, close, live, session?_endSession] at live'
      simp only [perform, close]
      split
      · exact .of_endSession horderly hi live watching
      · exact .refl watching
  | expire i =>
      have hi : i ≠ id := by
        rintro rfl
        simp [perform, expire, live, session?_endSession] at live'
      simp only [perform, expire]
      split
      · have hposted : (s.post i ⟨.expired, .none, none⟩).Orderly := horderly.of_same rfl rfl
        have hend := IsExact.of_endSession hposted hi live watching
        rwa [IsExact, inbox_post_of_ne _ _ _ hi] at hend
      · exact .refl watching
  | disconnect i =>
      simp only [perform, disconnect, setConnected]
      split
      · exact .of_post rfl rfl rfl rfl watching
      · exact .refl watching
  | reconnect i =>
      simp only [perform, reconnect, setConnected]
      split
      · exact .of_post rfl rfl rfl rfl watching
      · exact .refl watching
  | serve i r => exact .of_serve horderly live watching i r
  | takeEvents i =>
      have hi : i ≠ id := fun heq => untaken (heq ▸ rfl)
      refine .of_posts [] rfl ?_ (by simp) watching
      rw [List.append_nil]
      exact s.inbox_clearInbox_of_ne id hi

/-- The first of two sessions watches the children of a path, of which the second owns two. -/
def watchedStore : Store :=
  [Deed.put "/srv" [], .connect, .connect, .serve 2 (.create "/srv/a" [] .ephemeral),
    .serve 2 (.create "/srv/b" [] .ephemeral), .serve 1 (.list "/srv" true)].foldl perform {}

theorem byDeeds_foldl {p : Deed → Prop} {ds : List Deed} (h : ∀ d ∈ ds, p d) (s : Store) :
    ByDeeds p s (ds.foldl perform s) := by
  induction ds generalizing s with
  | nil => exact .refl s
  | cons d ds ih =>
      have hrest := ih (fun d' hd' => h d' (List.mem_cons_of_mem d hd')) (s.perform d)
      exact (ByDeeds.single (h d (by simp)) s).trans hrest

/-- Both nodes go with their session, and one event tells of it. -/
theorem watches_are_exact_of_expiry :
    (("/srv", 1) ∈ watchedStore.watches ∧ watchedStore.children "/srv" = ["a", "b"] ∧
      (watchedStore.perform (.expire 2)).children "/srv" = [] ∧
      (watchedStore.perform (.expire 2)).inbox 1 =
        watchedStore.inbox 1 ++ [childrenChanged "/srv"]) ∧
    IsExact "/srv" 1 watchedStore (watchedStore.perform (.expire 2)) :=
  ⟨by decide, watches_are_exact (byDeeds_foldl (fun _ _ => trivial) {}) (fun h => by cases h)
    (by decide) (by decide) (by decide)⟩

end Store

end ServiceRegistry
