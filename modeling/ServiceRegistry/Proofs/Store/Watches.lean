import ServiceRegistry.Proofs.Store.Calls

/-! # Watches are kept

A session that watches the children of a directory either goes on watching and the children are the
same, or it has been told of a change, or it has ended (`Store.Tells`). This holds of every deed,
and of any number of them (`tells_perform`, `Tells.trans`), until the session takes its events. -/

namespace ServiceRegistry

namespace Store

variable {s s' s'' : Store} {root : String} {id : SessionId}

/-! ### The list of children -/

theorem ascending_childPaths (s : Store) (directory : String) :
    (s.childPaths directory).Pairwise (· < ·) := by
  refine List.Pairwise.filter _ ?_
  rw [Dict.keys, List.pairwise_map]
  exact s.nodes.ascending

/-- The list of children depends on which nodes there are right below the directory. -/
theorem children_congr (h : ∀ path, path ≠ root → Path.parent path = root →
    s'.nodes.contains path = s.nodes.contains path) : s'.children root = s.children root := by
  have hpaths : s'.childPaths root = s.childPaths root := by
    refine (s'.ascending_childPaths root).eq_of_mem_iff (s.ascending_childPaths root) fun path => ?_
    rw [mem_childPaths_iff, mem_childPaths_iff]
    constructor
    · rintro ⟨hc, hne, hp⟩
      exact ⟨h path hne hp ▸ hc, hne, hp⟩
    · rintro ⟨hc, hne, hp⟩
      exact ⟨(h path hne hp).symm ▸ hc, hne, hp⟩
  rw [children, children, hpaths]

/-! ### Told or undisturbed -/

/-- What a watching session can rely on from one state of the store to a later one, as long as it
does not take its events. -/
structure Tells (root : String) (id : SessionId) (s s' : Store) : Prop where
  opened_le : s.opened ≤ s'.opened
  /-- A session that has ended does not come back. -/
  live : id ≤ s.opened → (s'.session? id).isSome = true → (s.session? id).isSome = true
  inbox_subset : s.inbox id ⊆ s'.inbox id
  watch : id ≤ s.opened → (s'.session? id).isSome = true → (root, id) ∈ s.watches →
    (s'.children root = s.children root ∧ (root, id) ∈ s'.watches) ∨
      childrenChanged root ∈ s'.inbox id

namespace Tells

theorem refl (s : Store) : Tells root id s s :=
  ⟨Nat.le_refl _, fun _ h => h, fun _ h => h, fun _ _ h => .inl ⟨rfl, h⟩⟩

theorem trans (h : Tells root id s s') (h' : Tells root id s' s'') : Tells root id s s'' where
  opened_le := Nat.le_trans h.opened_le h'.opened_le
  live hid hlive := h.live hid (h'.live (Nat.le_trans hid h.opened_le) hlive)
  inbox_subset := fun _ he => h'.inbox_subset (h.inbox_subset he)
  watch hid hlive harmed := by
    have hid' := Nat.le_trans hid h.opened_le
    rcases h.watch hid (h'.live hid' hlive) harmed with ⟨hsame, harmed'⟩ | htold
    · rcases h'.watch hid' hlive harmed' with ⟨hsame', harmed''⟩ | htold
      · exact .inl ⟨hsame'.trans hsame, harmed''⟩
      · exact .inr htold
    · exact .inr (h'.inbox_subset htold)

theorem foldl {α : Type} {f : Store → α → Store} (h : ∀ s a, Tells root id s (f s a)) (as : List α)
    (s : Store) : Tells root id s (as.foldl f s) := by
  induction as generalizing s with
  | nil => exact .refl s
  | cons a as ih => exact (h s a).trans (ih (f s a))

/-- Nothing is told where the nodes below the directory, the sessions and the watches stay. -/
theorem of_same (hopened : s.opened ≤ s'.opened)
    (hlive : id ≤ s.opened → (s'.session? id).isSome = true → (s.session? id).isSome = true)
    (hinbox : s.inbox id ⊆ s'.inbox id)
    (hnodes : ∀ path, path ≠ root → Path.parent path = root →
      s'.nodes.contains path = s.nodes.contains path)
    (hwatches : (s'.session? id).isSome = true → (root, id) ∈ s.watches → (root, id) ∈ s'.watches) :
    Tells root id s s' where
  opened_le := hopened
  live := hlive
  inbox_subset := hinbox
  watch _ hlive harmed := .inl ⟨children_congr hnodes, hwatches hlive harmed⟩

theorem of_alike (h : Alike s s') : Tells root id s s' :=
  of_same h.opened_eq.ge (fun _ hl => h.session?_eq id ▸ hl)
    (fun e he => by rwa [inbox, h.inboxes_eq]) (fun path _ _ => by rw [h.nodes_eq])
    (fun _ hw => h.watches_eq ▸ hw)

end Tells

/-- Telling the watchers of a path whose children changed at one node. -/
theorem tells_notify {nodes : Dict Node} {path : String}
    (h : ∀ p, p ≠ path → nodes.contains p = s.nodes.contains p) :
    Tells root id s (notify { s with nodes } (Path.parent path)) := by
  refine ⟨Nat.le_refl _, fun _ hl => hl, ?_, fun _ hlive harmed => ?_⟩
  · intro e he
    simp only [inbox, notify, List.filter_append, List.map_append, List.mem_append]
    exact .inl he
  · by_cases hp : Path.parent path = root
    · refine .inr ?_
      subst hp
      have htold : id ∈ (watchers { s with nodes } (Path.parent path)).filter
          fun i => (session? { s with nodes } i).isSome := by
        refine List.mem_filter.mpr ⟨?_, hlive⟩
        exact List.mem_map.mpr ⟨(Path.parent path, id), by simpa using harmed, rfl⟩
      simp only [inbox, notify, List.filter_append, List.map_append, List.mem_append]
      refine .inr (List.mem_map.mpr ⟨(id, childrenChanged (Path.parent path)), ?_, rfl⟩)
      exact List.mem_filter.mpr ⟨List.mem_map.mpr ⟨id, htold, rfl⟩, by simp⟩
    · refine .inl ⟨children_congr fun p _ hparent => h p ?_, ?_⟩
      · rintro rfl
        exact hp hparent
      · exact List.mem_filter.mpr ⟨harmed, by simpa using Ne.symm hp⟩

theorem tells_grow (s : Store) (path : String) (node : Node) :
    Tells root id s (s.grow path node) :=
  tells_notify fun p hp => by simp [Dict.contains, Ne.symm hp]

theorem tells_drop (s : Store) (path : String) : Tells root id s (s.drop path) :=
  tells_notify fun p hp => by simp [Dict.contains, Ne.symm hp]

/-! ### Every deed tells -/

theorem tells_ensure (s : Store) (path : String) : Tells root id s (s.ensure path) := by
  unfold ensure
  split
  · exact .refl s
  · exact tells_grow s path ⟨[], none⟩

theorem tells_put (s : Store) (path : String) (data : Bytes) :
    Tells root id s (s.put path data) := by
  have hway : Tells root id s ((Path.chain (Path.elements path)).foldl ensure s) :=
    .foldl (fun s p => tells_ensure s p) _ s
  refine hway.trans ?_
  unfold put
  dsimp only
  split
  · next node hfind =>
    refine .of_same (Nat.le_refl _) (fun _ hl => hl) (fun _ he => he) (fun p _ _ => ?_)
      (fun _ hw => hw)
    by_cases hp : path = p
    · subst hp
      simp [Dict.contains, hfind]
    · simp [Dict.contains, hp]
  · exact .refl _

theorem tells_remove (s : Store) (path : String) : Tells root id s (s.remove path).2 := by
  unfold remove
  split
  · exact tells_drop s path
  · exact .refl s

theorem tells_post (s : Store) (i : SessionId) (e : Event) : Tells root id s (s.post i e) := by
  refine .of_same (Nat.le_refl _) (fun _ hl => hl) ?_ (fun _ _ _ => rfl) (fun _ hw => hw)
  intro e' he
  by_cases hi : i = id
  · subst hi
    rw [inbox_post_self]
    exact List.mem_append_left _ he
  · rwa [inbox_post_of_ne _ _ _ hi]

theorem tells_endSession (s : Store) (i : SessionId) : Tells root id s (s.endSession i) := by
  have hsession := s.session?_endSession i id
  let t : Store := { s with sessions := s.sessions.filter (·.id ≠ i) }
  have ht : t.session? id = (s.endSession i).session? id := by
    simp only [session?, endSession, sessions_foldl_drop, t]
  have hfirst : Tells root id s t := by
    refine .of_same (Nat.le_refl _) (fun _ hl => ?_) (fun _ he => he) (fun _ _ _ => rfl)
      (fun _ hw => hw)
    rw [ht, hsession] at hl
    split at hl
    · simp at hl
    · exact hl
  have hdrops : Tells root id t ((t.ownedBy i).foldl drop t) :=
    .foldl (fun s p => tells_drop s p) _ t
  refine (hfirst.trans hdrops).trans ?_
  refine .of_same (Nat.le_refl _) (fun _ hl => hl) (fun _ he => he) (fun _ _ _ => rfl)
    fun hlive hw => List.mem_filter.mpr ⟨hw, ?_⟩
  by_cases hi : id = i
  · rw [if_pos hi] at hsession
    rw [show session? _ id = none from hsession] at hlive
    simp at hlive
  · simpa using hi

theorem tells_close (s : Store) (i : SessionId) : Tells root id s (s.close i) := by
  unfold close
  split
  · exact tells_endSession s i
  · exact .refl s

theorem tells_expire (s : Store) (i : SessionId) : Tells root id s (s.expire i) := by
  unfold expire
  split
  · exact (tells_post s i _).trans (tells_endSession _ i)
  · exact .refl s

theorem tells_setConnected (s : Store) (i : SessionId) (on : Bool) :
    Tells root id s (s.setConnected i on) := by
  unfold setConnected
  split
  · let t : Store := { s with
      sessions := s.sessions.map fun e => if e.id = i then { e with isConnected := on } else e }
    have ht : Tells root id s t := by
      refine .of_same (Nat.le_refl _) (fun _ hl => ?_) (fun _ he => he) (fun _ _ _ => rfl)
        (fun _ hw => hw)
      simp only [session?, List.find?_map, Option.isSome_map, t] at hl
      refine (congrArg (fun p => (s.sessions.find? p).isSome) ?_).trans hl
      funext e
      simp only [Function.comp_apply]
      split <;> rfl
    exact ht.trans (tells_post t i _)
  · exact .refl s

theorem tells_connect (s : Store) : Tells root id s s.connect.2 := by
  rcases s.connect_cases with ⟨code, s', h, halike, -⟩ | h
  · rw [h]
    exact .of_alike halike
  · rw [h]
    let t : Store := { s.count .connect with
      opened := s.opened + 1, sessions := s.sessions ++ [⟨s.opened + 1, true⟩] }
    have ht : Tells root id s t := by
      refine .of_same (Nat.le_succ _) (fun hid hl => ?_) (fun _ he => he) (fun _ _ _ => rfl)
        (fun _ hw => hw)
      have hne : s.opened + 1 ≠ id := Nat.ne_of_gt (Nat.lt_succ_of_le hid)
      simpa [session?, List.find?_append, hne, t] using hl
    exact ht.trans (tells_post t _ _)

theorem tells_serve (s : Store) (i : SessionId) (r : Request) :
    Tells root id s (s.serve i r).2 := by
  cases r with
  | list path watching =>
      rcases s.list_cases i path watching with ⟨code, s', h, halike⟩ | ⟨s', h, halike, -, -⟩
      · rw [serve, h]
        exact .of_alike halike
      · rw [serve, h]
        refine (Tells.of_alike halike).trans ?_
        cases watching with
        | false => exact .refl s'
        | true =>
            exact .of_same (by simp) (fun _ hl => by simpa [session?] using hl)
              (fun e he => by simpa [inbox] using he) (fun _ _ _ => by simp)
              (fun _ hw => by simp [hw])
  | beginRead path =>
      rcases s.beginRead_cases i path with ⟨code, s', h, halike, -⟩ | ⟨s', h, halike, -⟩
      all_goals
        rw [serve, h]
        exact .of_alike halike
  | finishRead path => exact .refl s
  | probe path =>
      rcases s.probe_cases i path with ⟨code, s', h, halike⟩ | ⟨s', h, halike, -⟩
      all_goals
        rw [serve, h]
        exact .of_alike halike
  | create path data mode =>
      rcases s.create_cases i path data mode with ⟨code, s', h, halike, -⟩ | ⟨s', h, halike, -⟩
      · rw [serve, h]
        exact .of_alike halike
      · rw [serve, h]
        exact (Tells.of_alike halike).trans (tells_grow s' path _)
  | delete path =>
      rcases s.delete_cases i path with ⟨code, s', h, halike, -⟩ | ⟨s', h, halike, -⟩
      · rw [serve, h]
        exact .of_alike halike
      · rw [serve, h]
        exact (Tells.of_alike halike).trans (tells_drop s' path)

theorem tells_clearInbox (s : Store) {i : SessionId} (h : i ≠ id) :
    Tells root id s (s.clearInbox i) :=
  .of_same (Nat.le_refl _) (fun _ hl => hl)
    (fun e he => by rwa [s.inbox_clearInbox_of_ne id h]) (fun _ _ _ => rfl) (fun _ hw => hw)

/-- Whatever is done to the store, the session is told, if it is not its own events that are taken.
-/
theorem tells_perform (s : Store) {d : Deed} (h : d ≠ .takeEvents id) :
    Tells root id s (s.perform d) := by
  cases d with
  | put path data => exact tells_put s path data
  | remove path => exact tells_remove s path
  | failNext call code =>
      exact .of_same (Nat.le_refl _) (fun _ hl => hl) (fun _ he => he) (fun _ _ _ => rfl)
        (fun _ hw => hw)
  | delayReads ms =>
      exact .of_same (Nat.le_refl _) (fun _ hl => hl) (fun _ he => he) (fun _ _ _ => rfl)
        (fun _ hw => hw)
  | connect => exact tells_connect s
  | close i => exact tells_close s i
  | expire i => exact tells_expire s i
  | disconnect i => exact tells_setConnected s i false
  | reconnect i => exact tells_setConnected s i true
  | serve i r => exact tells_serve s i r
  | takeEvents i => exact tells_clearInbox s fun hi => h (hi ▸ rfl)

theorem tells_of_byDeeds {p : Deed → Prop} (h : ByDeeds p s s')
    (hp : ∀ d, p d → d ≠ .takeEvents id) : Tells root id s s' :=
  h.invariant
    (fun s' d hd ht => ht.trans (tells_perform s' (hp d hd))) (.refl s)

theorem opened_le_perform (s : Store) (d : Deed) : s.opened ≤ (s.perform d).opened := by
  by_cases h : d = .takeEvents 0
  · subst h
    exact Nat.le_refl _
  · have : Tells "" 0 s (s.perform d) := tells_perform s h
    exact this.opened_le

theorem ByDeeds.opened_le {p : Deed → Prop} (h : ByDeeds p s s') : s.opened ≤ s'.opened :=
  h.invariant
    (fun t d _ ht => Nat.le_trans ht (opened_le_perform t d)) (Nat.le_refl _)

end Store

end ServiceRegistry
