import ServiceRegistry.Proofs.Store.Watches

/-! # Sessions and their nodes

A live session stays live until it is closed or expires, and of its expiry it is told
(`Store.live_or_told`). A session that is not live never comes back. An ephemeral node has a live
owner (`Store.AreOwned.perform`), and a persistent node stays until it is deleted
(`Store.Persists.perform`). -/

namespace ServiceRegistry

namespace Store

variable {s s' : Store} {id : SessionId} {path : String}

/-- The session was opened and has not ended. -/
def IsLive (s : Store) (id : SessionId) : Prop := (s.session? id).isSome = true

/-- What a session is told when it ends from outside. -/
def expired : Event := ⟨.expired, .none, none⟩

/-! ### Sessions under deeds -/

theorem sessions_put (s : Store) (path : String) (data : Bytes) :
    (s.put path data).sessions = s.sessions := by
  have hway : ∀ (paths : List String) (s : Store),
      (paths.foldl ensure s).sessions = s.sessions := by
    intro paths
    induction paths with
    | nil => exact fun _ => rfl
    | cons first paths ih =>
        intro s
        rw [List.foldl_cons, ih, ensure]
        split <;> rfl
  unfold put
  dsimp only
  split
  · exact hway _ s
  · exact hway _ s

theorem sessions_serve (s : Store) (id : SessionId) (r : Request) :
    (s.serve id r).2.sessions = s.sessions := by
  cases r with
  | list path watching =>
      rcases s.list_cases id path watching with ⟨_, s', h, ha⟩ | ⟨s', h, ha, -⟩
      · rw [serve, h]
        exact ha.sessions_eq
      · rw [serve, h]
        cases watching with
        | false => exact ha.sessions_eq
        | true => exact (sessions_watch s' path id).trans ha.sessions_eq
  | beginRead path =>
      rcases s.beginRead_cases id path with ⟨_, s', h, ha, -⟩ | ⟨s', h, ha, -⟩
      all_goals
        rw [serve, h]
        exact ha.sessions_eq
  | finishRead path => rfl
  | probe path =>
      rcases s.probe_cases id path with ⟨_, s', h, ha⟩ | ⟨s', h, ha, -⟩
      all_goals
        rw [serve, h]
        exact ha.sessions_eq
  | create path data mode =>
      rcases s.create_cases id path data mode with ⟨_, s', h, ha, -⟩ | ⟨s', h, ha, -⟩
      all_goals
        rw [serve, h]
        exact ha.sessions_eq
  | delete path =>
      rcases s.delete_cases id path with ⟨_, s', h, ha, -⟩ | ⟨s', h, ha, -⟩
      all_goals
        rw [serve, h]
        exact ha.sessions_eq

theorem IsLive.of_sessions (h : s.IsLive id) (hsessions : s'.sessions = s.sessions) :
    s'.IsLive id := by
  rwa [IsLive, session?_congr s id hsessions]

theorem IsLive.setConnected (h : s.IsLive id) (i : SessionId) (on : Bool) :
    (s.setConnected i on).IsLive id := by
  unfold Store.setConnected
  split
  · have hmap : (fun e : Session => decide (e.id = id)) ∘
        (fun e => if e.id = i then { e with isConnected := on } else e) =
        fun e => decide (e.id = id) := by
      funext e
      simp only [Function.comp_apply]
      split <;> rfl
    rw [IsLive, session?] at h
    simp only [IsLive, session?, post, List.find?_map, Option.isSome_map, hmap]
    exact h
  · exact h

theorem IsLive.connect (h : s.IsLive id) : s.connect.2.IsLive id := by
  rcases s.connect_cases with ⟨_, s', hc, ha, -⟩ | hc
  · rw [hc]
    exact h.of_sessions ha.sessions_eq
  · rw [hc]
    rw [IsLive, session?] at h
    simp only [IsLive, session?, post, List.find?_append, Option.isSome_or, h, Bool.true_or]

/-- A session ends by being closed or by expiry. -/
theorem IsLive.perform (h : s.IsLive id) {d : Deed} (hclose : d ≠ .close id)
    (hexpire : d ≠ .expire id) : (s.perform d).IsLive id := by
  have hend : ∀ {s : Store} {i : SessionId}, i ≠ id → s.IsLive id → (s.endSession i).IsLive id := by
    intro s i hi h
    rw [IsLive, session?_endSession, if_neg (Ne.symm hi)]
    exact h
  cases d with
  | put path data => exact h.of_sessions (s.sessions_put path data)
  | remove path =>
      simp only [Store.perform, remove]
      split
      · exact h
      · exact h
  | failNext call code => exact h
  | delayReads ms => exact h
  | connect => exact h.connect
  | close i =>
      simp only [Store.perform, close]
      split
      · exact hend (fun hi => hclose (hi ▸ rfl)) h
      · exact h
  | expire i =>
      simp only [Store.perform, expire]
      split
      · exact hend (fun hi => hexpire (hi ▸ rfl)) h
      · exact h
  | disconnect i => exact h.setConnected i false
  | reconnect i => exact h.setConnected i true
  | serve i r => exact h.of_sessions (s.sessions_serve i r)
  | takeEvents i => exact h

/-- A session that is not closed stays live, or it is told that it expired. -/
theorem live_or_told (h : s.IsLive id) {d : Deed} (hclose : d ≠ .close id) :
    (s.perform d).IsLive id ∨ expired ∈ (s.perform d).inbox id := by
  by_cases hexpire : d = .expire id
  · subst hexpire
    have htells : Tells "" id (s.post id expired) ((s.post id expired).endSession id) :=
      tells_endSession _ id
    have hperform : s.perform (.expire id) = (s.post id expired).endSession id := if_pos h
    rw [hperform]
    exact .inr (htells.inbox_subset (by simp))
  · exact .inl (h.perform hclose hexpire)

theorem not_isLive_close (s : Store) (id : SessionId) : ¬(s.close id).IsLive id := by
  unfold close
  split
  · simp [IsLive, session?_endSession]
  · assumption

/-- A session that was opened and has ended does not come back. -/
theorem not_isLive_perform (hid : id ≤ s.opened) (h : ¬s.IsLive id) (d : Deed) :
    ¬(s.perform d).IsLive id := by
  by_cases htake : d = .takeEvents id
  · subst htake
    exact h
  · have htells : Tells "" id s (s.perform d) := tells_perform s htake
    exact fun hlive => h (htells.live hid hlive)

/-! ### Nodes under deeds -/

/-- The deed deletes the node at a path. -/
def Deletes (s : Store) (path : String) : Deed → Prop
  | .remove path' => path' = path ∧ s.nodes.contains path = true
  | .serve id (.delete path') => path' = path ∧ (s.delete id path).1 = .ok ()
  | _ => False

/-- What a deed does to the node at a path, if it does not leave it alone. -/
inductive Touched (s : Store) (path : String) (d : Deed) (after : Option Node) : Prop
  | same (after_eq : after = s.nodes.find? path)
  | written {node : Node} {data : Bytes} (there : s.nodes.find? path = some node)
      (after_eq : after = some { node with data })
  | made {node : Node} (absent : s.nodes.find? path = none) (after_eq : after = some node)
      (live : ∀ id, node.owner = some id → s.IsLive id)
  | deleted (deletes : s.Deletes path d) (after_eq : after = none)
  | ended {node : Node} {id : SessionId} (there : s.nodes.find? path = some node)
      (owned : node.owner = some id) (ends : d = .close id ∨ d = .expire id)
      (after_eq : after = none)

theorem touched_put (s : Store) (path path' : String) (data : Bytes) :
    s.Touched path (.put path' data) ((s.put path' data).nodes.find? path) := by
  have hway : ∀ (paths : List String) (s : Store),
      (paths.foldl ensure s).nodes.find? path = s.nodes.find? path ∨
        s.nodes.find? path = none ∧ (paths.foldl ensure s).nodes.find? path = some ⟨[], none⟩ := by
    intro paths
    induction paths with
    | nil => exact fun _ => .inl rfl
    | cons first paths ih =>
        intro s
        rw [List.foldl_cons]
        have hfirst : (s.ensure first).nodes.find? path = s.nodes.find? path ∨
            s.nodes.find? path = none ∧ (s.ensure first).nodes.find? path = some ⟨[], none⟩ := by
          unfold ensure
          split
          · exact .inl rfl
          · next hc =>
            rw [nodes_notify, Dict.find?_insert]
            split
            · next heq => exact .inr ⟨by simpa [Dict.contains, heq] using hc, rfl⟩
            · exact .inl rfl
        rcases ih (s.ensure first) with hrest | ⟨hnone, hrest⟩
        · rw [hrest]
          exact hfirst
        · rcases hfirst with hfirst | ⟨-, hmade⟩
          · exact .inr ⟨hfirst ▸ hnone, hrest⟩
          · cases hnone.symm.trans hmade
  have hsame : s.Touched path (.put path' data)
      (((Path.chain (Path.elements path')).foldl ensure s).nodes.find? path) := by
    rcases hway (Path.chain (Path.elements path')) s with h | ⟨hnone, h⟩
    · exact .same h
    · exact .made hnone h fun id hid => by cases hid
  unfold put
  dsimp only
  split
  · next node hfind =>
    rw [Dict.find?_insert]
    split
    · next heq =>
      subst heq
      rcases hway (Path.chain (Path.elements path')) s with h | ⟨hnone, h⟩
      · exact .written (h ▸ hfind) rfl
      · cases h.symm.trans hfind
        exact .made hnone rfl fun id hid => by cases hid
    · exact hsame
  · exact hsame

theorem touched_serve (s : Store) (path : String) (id : SessionId) (r : Request) :
    s.Touched path (.serve id r) ((s.serve id r).2.nodes.find? path) := by
  cases r with
  | list path' watching =>
      rcases s.list_cases id path' watching with ⟨_, s', h, ha⟩ | ⟨s', h, ha, -⟩
      · rw [serve, h]
        exact .same (by rw [ha.nodes_eq])
      · rw [serve, h]
        cases watching with
        | false => exact .same (by rw [← ha.nodes_eq]; rfl)
        | true => exact .same (by rw [← ha.nodes_eq, if_pos rfl, nodes_watch])
  | beginRead path' =>
      rcases s.beginRead_cases id path' with ⟨_, s', h, ha, -⟩ | ⟨s', h, ha, -⟩
      all_goals
        rw [serve, h]
        exact .same (by rw [ha.nodes_eq])
  | finishRead path' => exact .same rfl
  | probe path' =>
      rcases s.probe_cases id path' with ⟨_, s', h, ha⟩ | ⟨s', h, ha, -⟩
      all_goals
        rw [serve, h]
        exact .same (by rw [ha.nodes_eq])
  | create path' data mode =>
      rcases s.create_cases id path' data mode with
        ⟨_, s', h, ha, -⟩ | ⟨s', h, ha, hhas, -, e, he, -⟩
      · rw [serve, h]
        exact .same (by rw [ha.nodes_eq])
      · rw [serve, h, nodes_grow, Dict.find?_insert, ha.nodes_eq]
        split
        · next heq =>
          subst heq
          simp only [has, Bool.or_eq_false_iff, Dict.contains] at hhas
          refine .made (Option.not_isSome_iff_eq_none.mp (by simp [hhas.2])) rfl fun i hi => ?_
          cases mode with
          | persistent => cases hi
          | ephemeral =>
              cases hi
              rw [IsLive, he]
              rfl
        · exact .same rfl
  | delete path' =>
      rcases s.delete_cases id path' with ⟨_, s', h, ha, -⟩ | ⟨s', h, ha, -⟩
      · rw [serve, h]
        exact .same (by rw [ha.nodes_eq])
      · rw [serve, h, nodes_drop, Dict.find?_erase, ha.nodes_eq]
        split
        · next heq =>
          subst heq
          exact .deleted ⟨rfl, by rw [h]⟩ rfl
        · exact .same rfl

theorem touched_endSession {t : Store} (ht : t.nodes = s.nodes) {d : Deed}
    (hd : d = .close id ∨ d = .expire id) :
    s.Touched path d ((t.endSession id).nodes.find? path) := by
  rw [find?_endSession, ht]
  cases hfind : s.nodes.find? path with
  | none => exact .same hfind.symm
  | some node =>
      by_cases howner : node.owner = some id
      · exact .ended hfind howner hd (by simp [Option.filter, howner])
      · exact .same (by simp [Option.filter, howner, hfind])

/-- What any deed does to a node. -/
theorem touched_perform (s : Store) (path : String) (d : Deed) :
    s.Touched path d ((s.perform d).nodes.find? path) := by
  cases d with
  | put path' data => exact s.touched_put path path' data
  | remove path' =>
      simp only [perform, remove]
      split
      · next hc =>
        rw [nodes_drop, Dict.find?_erase]
        split
        · next heq => exact .deleted ⟨heq, heq ▸ hc⟩ rfl
        · exact .same rfl
      · exact .same rfl
  | failNext call code => exact .same rfl
  | delayReads ms => exact .same rfl
  | connect =>
      rcases s.connect_cases with ⟨_, s', hc, ha, -⟩ | hc
      · exact .same (by rw [perform, hc, ha.nodes_eq])
      · exact .same (by rw [perform, hc]; rfl)
  | close id =>
      simp only [perform, close]
      split
      · exact touched_endSession rfl (.inl rfl)
      · exact .same rfl
  | expire id =>
      simp only [perform, expire]
      split
      · have hpost : (s.post id expired).nodes = s.nodes := rfl
        exact touched_endSession hpost (.inr rfl)
      · exact .same rfl
  | disconnect id =>
      simp only [perform, disconnect, setConnected]
      split
      · exact .same rfl
      · exact .same rfl
  | reconnect id =>
      simp only [perform, reconnect, setConnected]
      split
      · exact .same rfl
      · exact .same rfl
  | serve id r => exact s.touched_serve path id r
  | takeEvents id => exact .same rfl

/-! ### Ephemeral and persistent nodes -/

/-- The owners of ephemeral nodes are live. -/
def AreOwned (s : Store) : Prop :=
  ∀ path node id, s.nodes.find? path = some node → node.owner = some id → s.IsLive id

/-- Whoever ends with a deed owns nothing afterwards. -/
theorem AreOwned.owner_ne (h : s.AreOwned) {d : Deed} (hd : d = .close id ∨ d = .expire id)
    {node : Node} (hfind : (s.perform d).nodes.find? path = some node) : node.owner ≠ some id := by
  have hend : ∀ {t : Store}, (t.endSession id).nodes.find? path = some node →
      node.owner ≠ some id := by
    intro t ht
    rw [find?_endSession] at ht
    simpa using (Option.filter_eq_some_iff.mp ht).2
  rcases hd with rfl | rfl
  · simp only [Store.perform, close] at hfind
    split at hfind
    · exact hend hfind
    · next hdead => exact fun howner => hdead (h path node id hfind howner)
  · simp only [Store.perform, expire] at hfind
    split at hfind
    · exact hend hfind
    · next hdead => exact fun howner => hdead (h path node id hfind howner)

theorem AreOwned.perform (h : s.AreOwned) (d : Deed) : (s.perform d).AreOwned := by
  intro path node id hfind howner
  have hclose : d ≠ .close id := fun hd => h.owner_ne (.inl hd) hfind howner
  have hexpire : d ≠ .expire id := fun hd => h.owner_ne (.inr hd) hfind howner
  refine IsLive.perform ?_ hclose hexpire
  cases s.touched_perform path d with
  | same after_eq => exact h path node id (after_eq.symm.trans hfind) howner
  | written there after_eq =>
      cases after_eq.symm.trans hfind
      exact h path _ id there howner
  | made absent after_eq live =>
      cases after_eq.symm.trans hfind
      exact live id howner
  | deleted deletes after_eq => cases after_eq.symm.trans hfind
  | ended there owned ends after_eq => cases after_eq.symm.trans hfind

theorem areOwned_of_byDeeds {p : Deed → Prop} (h : ByDeeds p {} s) : s.AreOwned :=
  h.invariant (fun _ d _ hs => hs.perform d) fun _ _ _ hfind => by cases hfind

/-- There is a persistent node at the path. -/
def Persists (s : Store) (path : String) : Prop :=
  ∃ node, s.nodes.find? path = some node ∧ node.owner = none

/-- A persistent node stays until it is deleted. -/
theorem Persists.perform (h : s.Persists path) {d : Deed} (hd : ¬s.Deletes path d) :
    (s.perform d).Persists path := by
  obtain ⟨node, hfind, howner⟩ := h
  cases s.touched_perform path d with
  | same after_eq => exact ⟨node, after_eq.trans hfind, howner⟩
  | written there after_eq =>
      cases there.symm.trans hfind
      exact ⟨_, after_eq, howner⟩
  | made absent after_eq live => cases absent.symm.trans hfind
  | deleted deletes after_eq => exact absurd deletes hd
  | ended there owned ends after_eq =>
      cases there.symm.trans hfind
      cases owned.symm.trans howner

/-- A session that makes a persistent node has it there. -/
theorem persists_create (s : Store) (id : SessionId) (path : String) (data : Bytes)
    (h : (s.create id path data .persistent).1 = .ok ()) :
    (s.perform (.serve id (.create path data .persistent))).Persists path := by
  rcases s.create_cases id path data .persistent with ⟨_, s', hc, -⟩ | ⟨s', hc, -⟩
  · rw [hc] at h
    cases h
  · refine ⟨⟨data, none⟩, ?_, rfl⟩
    simp only [perform, serve, hc, nodes_grow, Dict.find?_insert, ↓reduceIte]
    rfl

end Store

end ServiceRegistry
