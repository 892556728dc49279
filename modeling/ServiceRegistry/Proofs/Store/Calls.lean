import Mathlib.Data.List.Sort
import ServiceRegistry.Proofs.Store.Paths
import ServiceRegistry.Script

/-! # What the store does

What each call of a session can come to (`serve_cases`): it fails and leaves the store alone but for
its counters and injected failures (`Alike`), or it is answered from the present tree, and then at
most one node is made or dropped. `Deed` lists whatever can be done to a store, by calls or past
them. -/

namespace ServiceRegistry

namespace Store

variable {s s' s'' : Store}

/-! ### Frames -/

section Frames

variable (s) (path : String) (id : SessionId) (e : Event)

@[simp] theorem nodes_notify : (s.notify path).nodes = s.nodes := rfl

@[simp] theorem nodes_watch : (s.watch path id).nodes = s.nodes := by
  unfold watch
  split <;> rfl

@[simp] theorem sessions_watch : (s.watch path id).sessions = s.sessions := by
  unfold watch
  split <;> rfl

@[simp] theorem inboxes_watch : (s.watch path id).inboxes = s.inboxes := by
  unfold watch
  split <;> rfl

@[simp] theorem opened_watch : (s.watch path id).opened = s.opened := by
  unfold watch
  split <;> rfl

@[simp] theorem failures_watch : (s.watch path id).failures = s.failures := by
  unfold watch
  split <;> rfl

@[simp] theorem readDelay_watch : (s.watch path id).readDelay = s.readDelay := by
  unfold watch
  split <;> rfl

@[simp] theorem mem_watches_watch {w : String × SessionId} :
    w ∈ (s.watch path id).watches ↔ w = (path, id) ∨ w ∈ s.watches := by
  unfold watch
  split
  · next h => exact ⟨.inr, fun hw => hw.elim (fun hw => hw ▸ h) fun hw => hw⟩
  · simp [or_comm]

theorem session?_congr {s' : Store} (h : s'.sessions = s.sessions) :
    s'.session? id = s.session? id := by
  simp [session?, h]

@[simp] theorem inbox_post_self : (s.post id e).inbox id = s.inbox id ++ [e] := by
  simp [inbox, post]

theorem inbox_post_of_ne {id' : SessionId} (h : id' ≠ id) :
    (s.post id' e).inbox id = s.inbox id := by
  simp [inbox, post, h]

theorem inbox_clearInbox_of_ne {id' : SessionId} (h : id' ≠ id) :
    (s.clearInbox id').inbox id = s.inbox id := by
  simp only [inbox, clearInbox, List.filter_filter]
  congr 1
  apply List.filter_congr
  intro p _
  by_cases hp : p.1 = id
  · simp [hp, Ne.symm h]
  · simp [hp]

end Frames

/-! ### Failed calls -/

/-- The stores differ in counters at most, and failures may have been used up. -/
structure Alike (s s' : Store) : Prop where
  nodes_eq : s'.nodes = s.nodes
  sessions_eq : s'.sessions = s.sessions
  watches_eq : s'.watches = s.watches
  inboxes_eq : s'.inboxes = s.inboxes
  opened_eq : s'.opened = s.opened
  readDelay_eq : s'.readDelay = s.readDelay
  failures_subset : s'.failures ⊆ s.failures

theorem alike_count (c : Call) : Alike s (s.count c) :=
  ⟨rfl, rfl, rfl, rfl, rfl, rfl, fun _ h => h⟩

namespace Alike

theorem childPaths_eq (h : Alike s s') (path : String) :
    s'.childPaths path = s.childPaths path := by
  simp [childPaths, h.nodes_eq]

theorem children_eq (h : Alike s s') (path : String) : s'.children path = s.children path := by
  simp [children, h.childPaths_eq]

theorem session?_eq (h : Alike s s') (id : SessionId) : s'.session? id = s.session? id :=
  session?_congr s id h.sessions_eq

end Alike

theorem takeFailure_mem {c : Call} {fs rest : List (Call × StoreError.Code)}
    {code : StoreError.Code} (h : takeFailure c fs = some (code, rest)) :
    (c, code) ∈ fs ∧ rest ⊆ fs := by
  induction fs generalizing rest with
  | nil => simp [takeFailure] at h
  | cons f fs ih =>
      simp only [takeFailure] at h
      split at h
      · next hc =>
        cases h
        exact ⟨hc ▸ List.mem_cons_self, fun _ hx => List.mem_cons_of_mem _ hx⟩
      · simp only [Option.map_eq_some_iff, Prod.mk.injEq, Prod.exists] at h
        obtain ⟨code', rest', hrest, rfl, rfl⟩ := h
        obtain ⟨hmem, hsub⟩ := ih hrest
        exact ⟨List.mem_cons_of_mem _ hmem, List.cons_subset_cons f hsub⟩

/-- Why a call of a session fails before it comes to the tree. -/
def Refuses (s : Store) (id : SessionId) (c : Call) (code : StoreError.Code) : Prop :=
  (s.session? id = none ∧ code = .sessionExpired) ∨
    (∃ e, s.session? id = some e ∧ e.isConnected = false ∧ code = .connectionLoss) ∨
    (c, code) ∈ s.failures

/-- The session is live and connected. -/
def IsConnected (s : Store) (id : SessionId) : Prop :=
  ∃ e, s.session? id = some e ∧ e.isConnected = true

/-- A call of a session fails before it comes to the tree, or it does what it is for. -/
theorem call_cases {α : Type} (s : Store) (c : Call) (id : SessionId) (path : String)
    (next : Store → Except StoreError α × Store) :
    (∃ code s', s.call c id path next = (.error ⟨code, path⟩, s') ∧ Alike s s' ∧
      s.Refuses id c code) ∨
    (s.call c id path next = next (s.count c) ∧
      s.IsConnected id) := by
  have hsession : (s.count c).session? id = s.session? id := rfl
  unfold call
  dsimp only
  rw [hsession]
  cases hs : s.session? id with
  | none => exact .inl ⟨_, _, rfl, alike_count c, .inl ⟨hs, rfl⟩⟩
  | some e =>
      cases he : e.isConnected with
      | false =>
          exact .inl ⟨.connectionLoss, s.count c, by simp [he], alike_count c,
            .inr (.inl ⟨e, hs, he, rfl⟩)⟩
      | true =>
          simp only [he, ↓reduceIte, unlessInjected]
          cases hf : takeFailure c (s.count c).failures with
          | none => exact .inr ⟨rfl, e, hs, he⟩
          | some p =>
              obtain ⟨hmem, hsub⟩ := takeFailure_mem hf
              exact .inl ⟨p.1, _, rfl, ⟨rfl, rfl, rfl, rfl, rfl, rfl, hsub⟩, .inr (.inr hmem)⟩

/-! ### Calls on the tree -/

/-- Make a node, and tell those who watch the children of its parent. -/
def grow (s : Store) (path : String) (node : Node) : Store :=
  notify { s with nodes := s.nodes.insert path node } (Path.parent path)

/-- Who owns a node that a session makes. -/
def Mode.owner (id : SessionId) : Mode → Option SessionId
  | .ephemeral => some id
  | .persistent => none

theorem list_cases (s : Store) (id : SessionId) (path : String) (watching : Bool) :
    (∃ code s', s.list id path watching = (.error ⟨code, path⟩, s') ∧ Alike s s') ∨
    (∃ s', s.list id path watching =
        (.ok (s.children path), if watching then s'.watch path id else s') ∧
      Alike s s' ∧ s.has path = true ∧ s.IsConnected id) := by
  rcases s.call_cases .children id path _ with ⟨code, s', h, halike, -⟩ | ⟨h, he⟩
  · exact .inl ⟨code, s', h, halike⟩
  · cases hhas : (s.count .children).has path with
    | true =>
        refine .inr ⟨s.count .children, h.trans ?_, alike_count _, hhas, he⟩
        rw [hhas]
        rfl
    | false =>
        refine .inl ⟨.noNode, s.count .children, h.trans ?_, alike_count _⟩
        rw [hhas]
        rfl

theorem beginRead_cases (s : Store) (id : SessionId) (path : String) :
    (∃ code s', s.beginRead id path = (.error ⟨code, path⟩, s') ∧ Alike s s' ∧
      s.Refuses id .data code) ∨
    (∃ s', s.beginRead id path = (.ok (if s.readDelay = 0 then none else some s.readDelay), s') ∧
      Alike s s' ∧ s.IsConnected id) := by
  rcases s.call_cases .data id path _ with ⟨code, s', h⟩ | ⟨h, he⟩
  · exact .inl ⟨code, s', h⟩
  · exact .inr ⟨s.count .data, h, alike_count _, he⟩

theorem probe_cases (s : Store) (id : SessionId) (path : String) :
    (∃ code s', s.probe id path = (.error ⟨code, path⟩, s') ∧ Alike s s') ∨
    (∃ s', s.probe id path = (.ok (s.has path), s') ∧ Alike s s' ∧ s.IsConnected id) := by
  rcases s.call_cases .exists id path _ with ⟨code, s', h, halike, -⟩ | ⟨h, he⟩
  · exact .inl ⟨code, s', h, halike⟩
  · exact .inr ⟨s.count .exists, h, alike_count _, he⟩

theorem create_cases (s : Store) (id : SessionId) (path : String) (data : Bytes) (mode : Mode) :
    (∃ code s', s.create id path data mode = (.error ⟨code, path⟩, s') ∧ Alike s s' ∧
      (s.Refuses id .create code ∨ (code = .nodeExists ∧ s.has path = true) ∨
        (code = .noNode ∧ s.has (Path.parent path) = false))) ∨
    (∃ s', s.create id path data mode = (.ok (), s'.grow path ⟨data, mode.owner id⟩) ∧
      Alike s s' ∧ s.has path = false ∧ s.has (Path.parent path) = true ∧ s.IsConnected id) := by
  rcases s.call_cases .create id path _ with ⟨code, s', h, halike, hr⟩ | ⟨h, he⟩
  · exact .inl ⟨code, s', h, halike, .inl hr⟩
  · cases hhas : (s.count .create).has path with
    | true =>
        refine .inl ⟨.nodeExists, s.count .create, h.trans ?_, alike_count _,
          .inr (.inl ⟨rfl, hhas⟩)⟩
        rw [hhas]
        rfl
    | false =>
        cases hparent : (s.count .create).has (Path.parent path) with
        | false =>
            refine .inl ⟨.noNode, s.count .create, h.trans ?_, alike_count _,
              .inr (.inr ⟨rfl, hparent⟩)⟩
            rw [hhas, hparent]
            rfl
        | true =>
            refine .inr ⟨s.count .create, h.trans ?_, alike_count _, hhas, hparent, he⟩
            rw [hhas, hparent]
            cases mode <;> rfl

theorem delete_cases (s : Store) (id : SessionId) (path : String) :
    (∃ code s', s.delete id path = (.error ⟨code, path⟩, s') ∧ Alike s s' ∧
      (s.Refuses id .delete code ∨ (code = .noNode ∧ s.nodes.contains path = false) ∨
        (code = .other "NotEmpty" ∧ s.childPaths path ≠ []))) ∨
    (∃ s', s.delete id path = (.ok (), s'.drop path) ∧ Alike s s' ∧
      s.nodes.contains path = true ∧ s.IsConnected id) := by
  rcases s.call_cases .delete id path _ with ⟨code, s', h, halike, hr⟩ | ⟨h, he⟩
  · exact .inl ⟨code, s', h, halike, .inl hr⟩
  · cases hc : (s.count .delete).nodes.contains path with
    | false =>
        refine .inl ⟨.noNode, s.count .delete, h.trans ?_, alike_count _,
          .inr (.inl ⟨rfl, hc⟩)⟩
        rw [hc]
        rfl
    | true =>
        cases hp : ((s.count .delete).childPaths path).isEmpty with
        | false =>
            refine .inl ⟨.other "NotEmpty", s.count .delete, h.trans ?_, alike_count _,
              .inr (.inr ⟨rfl, fun hn => ?_⟩)⟩
            · rw [hc, hp]
              rfl
            · rw [show (s.count .delete).childPaths path = [] from hn] at hp
              exact Bool.noConfusion hp
        | true =>
            refine .inr ⟨s.count .delete, h.trans ?_, alike_count _, hc, he⟩
            rw [hc, hp]
            rfl

/-! ### The end of sessions -/

@[simp] theorem nodes_drop (s : Store) (path : String) :
    (s.drop path).nodes = s.nodes.erase path := rfl

@[simp] theorem nodes_grow (s : Store) (path : String) (node : Node) :
    (s.grow path node).nodes = s.nodes.insert path node := rfl

theorem sessions_foldl_drop (paths : List String) (s : Store) :
    (paths.foldl drop s).sessions = s.sessions := by
  induction paths generalizing s with
  | nil => rfl
  | cons path paths ih => exact ih (s.drop path)

theorem opened_foldl_drop (paths : List String) (s : Store) :
    (paths.foldl drop s).opened = s.opened := by
  induction paths generalizing s with
  | nil => rfl
  | cons path paths ih => exact ih (s.drop path)

theorem failures_foldl_drop (paths : List String) (s : Store) :
    (paths.foldl drop s).failures = s.failures := by
  induction paths generalizing s with
  | nil => rfl
  | cons path paths ih => exact ih (s.drop path)

theorem readDelay_foldl_drop (paths : List String) (s : Store) :
    (paths.foldl drop s).readDelay = s.readDelay := by
  induction paths generalizing s with
  | nil => rfl
  | cons path paths ih => exact ih (s.drop path)

theorem find?_foldl_drop (paths : List String) (s : Store) (path : String) :
    (paths.foldl drop s).nodes.find? path =
      if path ∈ paths then none else s.nodes.find? path := by
  induction paths generalizing s with
  | nil => rfl
  | cons first paths ih =>
      rw [List.foldl_cons, ih (s.drop first), nodes_drop, Dict.find?_erase]
      by_cases h : path ∈ paths
      · simp [h]
      · by_cases h' : first = path
        · simp [h']
        · simp [h, h', Ne.symm h']

theorem mem_ownedBy_iff {id : SessionId} {path : String} :
    path ∈ s.ownedBy id ↔ ∃ node, s.nodes.find? path = some node ∧ node.owner = some id := by
  simp only [ownedBy, List.mem_map, List.mem_filter, decide_eq_true_eq, Prod.exists]
  constructor
  · rintro ⟨path, node, ⟨hmem, howner⟩, rfl⟩
    exact ⟨node, s.nodes.mem_entries_iff.mp hmem, howner⟩
  · rintro ⟨node, hfind, howner⟩
    exact ⟨path, node, ⟨s.nodes.mem_entries_iff.mpr hfind, howner⟩, rfl⟩

/-- When a session ends, its own nodes go and no others. -/
theorem find?_endSession (s : Store) (id : SessionId) (path : String) :
    (s.endSession id).nodes.find? path =
      (s.nodes.find? path).filter fun node => node.owner ≠ some id := by
  have howned : path ∈ ({ s with sessions := s.sessions.filter (·.id ≠ id) } : Store).ownedBy id ↔
      ∃ node, s.nodes.find? path = some node ∧ node.owner = some id := mem_ownedBy_iff
  simp only [endSession, find?_foldl_drop, howned]
  cases hfind : s.nodes.find? path with
  | none => simp
  | some node => by_cases h : node.owner = some id <;> simp [Option.filter, h]

theorem session?_endSession (s : Store) (id i : SessionId) :
    (s.endSession id).session? i = if i = id then none else s.session? i := by
  have hsessions : (s.endSession id).sessions = s.sessions.filter (·.id ≠ id) :=
    sessions_foldl_drop _ _
  rw [session?, hsessions, List.find?_filter]
  split
  · next h =>
    subst h
    simp
  · next h =>
    rw [session?]
    congr 1
    funext e
    by_cases he : e.id = i
    · simp [he, h]
    · simp [he]

/-! ### Deeds -/

/-- What can be done to a store, past its sessions or by one of them. -/
inductive Deed where
  | put (path : String) (data : Bytes)
  | remove (path : String)
  | failNext (call : Call) (code : StoreError.Code)
  | delayReads (ms : Nat)
  | connect
  | close (id : SessionId)
  | expire (id : SessionId)
  | disconnect (id : SessionId)
  | reconnect (id : SessionId)
  | serve (id : SessionId) (request : Request)
  /-- The holder of a session takes its events. -/
  | takeEvents (id : SessionId)

/-- The store after a deed. -/
def perform (s : Store) : Deed → Store
  | .put path data => s.put path data
  | .remove path => (s.remove path).2
  | .failNext call code => s.failNext call code
  | .delayReads ms => { s with readDelay := ms }
  | .connect => s.connect.2
  | .close id => s.close id
  | .expire id => s.expire id
  | .disconnect id => s.disconnect id
  | .reconnect id => s.reconnect id
  | .serve id request => (s.serve id request).2
  | .takeEvents id => s.clearInbox id

/-- A new session is opened, or nothing but a failure is used up. -/
theorem connect_cases (s : Store) :
    (∃ code s', s.connect = (.error ⟨code, Path.root⟩, s') ∧ Alike s s' ∧
      (Call.connect, code) ∈ s.failures) ∨
    s.connect = (.ok (s.opened + 1),
      post { s.count .connect with
        opened := s.opened + 1
        sessions := s.sessions ++ [⟨s.opened + 1, true⟩] } (s.opened + 1)
        ⟨.syncConnected, .none, none⟩) := by
  unfold connect unlessInjected
  cases hf : takeFailure .connect (s.count .connect).failures with
  | none => exact .inr rfl
  | some p =>
      obtain ⟨hmem, hsub⟩ := takeFailure_mem hf
      exact .inl ⟨p.1, _, rfl, ⟨rfl, rfl, rfl, rfl, rfl, rfl, hsub⟩, hmem⟩

/-- No failure was injected, and reads take as long as before. -/
structure Milder (s s' : Store) : Prop where
  readDelay_eq : s'.readDelay = s.readDelay
  failures_subset : s'.failures ⊆ s.failures

namespace Milder

theorem refl (s : Store) : Milder s s := ⟨rfl, fun _ h => h⟩

theorem trans (h : Milder s s') (h' : Milder s' s'') : Milder s s'' :=
  ⟨h'.readDelay_eq.trans h.readDelay_eq, fun _ hf => h.failures_subset (h'.failures_subset hf)⟩

theorem of_alike (h : Alike s s') : Milder s s' := ⟨h.readDelay_eq, h.failures_subset⟩

theorem of_eq (hr : s'.readDelay = s.readDelay) (hf : s'.failures = s.failures) : Milder s s' :=
  ⟨hr, fun _ h => hf ▸ h⟩

theorem foldl {α : Type} {f : Store → α → Store} (h : ∀ s a, Milder s (f s a)) (as : List α)
    (s : Store) : Milder s (as.foldl f s) := by
  induction as generalizing s with
  | nil => exact .refl s
  | cons a as ih => exact (h s a).trans (ih (f s a))

end Milder

theorem milder_put (s : Store) (path : String) (data : Bytes) : Milder s (s.put path data) := by
  have hensure : ∀ (s : Store) (p : String), Milder s (s.ensure p) := by
    intro s p
    unfold ensure
    split
    · exact .refl s
    · exact .of_eq rfl rfl
  have hway := Milder.foldl hensure (Path.chain (Path.elements path)) s
  refine hway.trans ?_
  unfold put
  dsimp only
  split
  · exact .of_eq rfl rfl
  · exact .refl _

theorem milder_endSession (s : Store) (id : SessionId) : Milder s (s.endSession id) :=
  .of_eq (readDelay_foldl_drop _ _) (failures_foldl_drop _ _)

theorem milder_setConnected (s : Store) (id : SessionId) (on : Bool) :
    Milder s (s.setConnected id on) := by
  unfold setConnected
  split
  · exact .of_eq rfl rfl
  · exact .refl s

theorem milder_serve (s : Store) (id : SessionId) (r : Request) : Milder s (s.serve id r).2 := by
  cases r with
  | list path watching =>
      rcases s.list_cases id path watching with ⟨_, s', h, ha⟩ | ⟨s', h, ha, -⟩
      · rw [serve, h]
        exact .of_alike ha
      · rw [serve, h]
        refine (Milder.of_alike ha).trans ?_
        cases watching with
        | false => exact .refl s'
        | true => exact .of_eq (readDelay_watch s' path id) (failures_watch s' path id)
  | beginRead path =>
      rcases s.beginRead_cases id path with ⟨_, s', h, ha, -⟩ | ⟨s', h, ha, -⟩
      all_goals
        rw [serve, h]
        exact .of_alike ha
  | finishRead path => exact .refl s
  | probe path =>
      rcases s.probe_cases id path with ⟨_, s', h, ha⟩ | ⟨s', h, ha, -⟩
      all_goals
        rw [serve, h]
        exact .of_alike ha
  | create path data mode =>
      rcases s.create_cases id path data mode with ⟨_, s', h, ha, -⟩ | ⟨s', h, ha, -⟩
      · rw [serve, h]
        exact .of_alike ha
      · rw [serve, h]
        exact (Milder.of_alike ha).trans (.of_eq rfl rfl)
  | delete path =>
      rcases s.delete_cases id path with ⟨_, s', h, ha, -⟩ | ⟨s', h, ha, -⟩
      · rw [serve, h]
        exact .of_alike ha
      · rw [serve, h]
        exact (Milder.of_alike ha).trans (.of_eq rfl rfl)

/-- Only deeds made for it inject failures or delay reads. -/
theorem milder_perform (s : Store) {d : Deed} (hf : ∀ call code, d ≠ .failNext call code)
    (hr : ∀ ms, d ≠ .delayReads ms) : Milder s (s.perform d) := by
  cases d with
  | put path data => exact s.milder_put path data
  | remove path =>
      simp only [perform, remove]
      split
      · exact .of_eq rfl rfl
      · exact .refl s
  | failNext call code => exact absurd rfl (hf call code)
  | delayReads ms => exact absurd rfl (hr ms)
  | connect =>
      rcases s.connect_cases with ⟨_, s', hc, ha, -⟩ | hc
      · rw [perform, hc]
        exact .of_alike ha
      · rw [perform, hc]
        exact .of_eq rfl rfl
  | close id =>
      simp only [perform, close]
      split
      · exact s.milder_endSession id
      · exact .refl s
  | expire id =>
      simp only [perform, expire]
      split
      · exact (Milder.of_eq rfl rfl : Milder s (s.post id _)).trans (milder_endSession _ id)
      · exact .refl s
  | disconnect id => exact s.milder_setConnected id false
  | reconnect id => exact s.milder_setConnected id true
  | serve id r => exact s.milder_serve id r
  | takeEvents id => exact .of_eq rfl rfl

theorem failures_perform (s : Store) (d : Deed) {f : Call × StoreError.Code}
    (h : f ∈ (s.perform d).failures) : f ∈ s.failures ∨ d = .failNext f.1 f.2 := by
  by_cases hf : ∃ call code, d = .failNext call code
  · obtain ⟨call, code, rfl⟩ := hf
    rcases List.mem_append.mp h with h | h
    · exact .inl h
    · rw [List.mem_singleton] at h
      exact .inr (h ▸ rfl)
  · by_cases hr : ∃ ms, d = .delayReads ms
    · obtain ⟨ms, rfl⟩ := hr
      exact .inl h
    · have hm := s.milder_perform (fun call code he => hf ⟨call, code, he⟩)
        fun ms he => hr ⟨ms, he⟩
      exact .inl (hm.failures_subset h)

/-- Can the deed make or change nodes? Others can only end sessions, whose nodes then go. -/
def Deed.MayWrite : Deed → Prop
  | .put _ _ => True
  | .remove _ => True
  | .serve _ _ => True
  | _ => False

/-- A deed that makes no node and changes none leaves each node or lets it go. -/
theorem find?_perform_of_not_mayWrite (s : Store) {d : Deed} (h : ¬d.MayWrite) (path : String) :
    (s.perform d).nodes.find? path = s.nodes.find? path ∨
      (s.perform d).nodes.find? path = none := by
  have hend : ∀ (s : Store) (id : SessionId),
      (s.endSession id).nodes.find? path = s.nodes.find? path ∨
        (s.endSession id).nodes.find? path = none := by
    intro s id
    rw [find?_endSession]
    cases s.nodes.find? path with
    | none => exact .inl rfl
    | some node => by_cases ho : node.owner = some id <;> simp [Option.filter, ho]
  cases d with
  | put path data => exact absurd trivial h
  | remove path => exact absurd trivial h
  | serve id r => exact absurd trivial h
  | failNext call code => exact .inl rfl
  | delayReads ms => exact .inl rfl
  | takeEvents id => exact .inl rfl
  | connect =>
      refine .inl ?_
      rcases s.connect_cases with ⟨_, s', hc, ha, -⟩ | hc
      · rw [perform, hc, ha.nodes_eq]
      · rw [perform, hc]
        rfl
  | close id =>
      simp only [perform, close]
      split
      · exact hend s id
      · exact .inl rfl
  | expire id =>
      simp only [perform, expire]
      split
      · exact hend _ id
      · exact .inl rfl
  | disconnect id =>
      refine .inl ?_
      simp only [perform, disconnect, setConnected]
      split <;> rfl
  | reconnect id =>
      refine .inl ?_
      simp only [perform, reconnect, setConnected]
      split <;> rfl

/-- The second store comes from the first by deeds of a kind. -/
inductive ByDeeds (p : Deed → Prop) : Store → Store → Prop
  | refl (s : Store) : ByDeeds p s s
  | step {s s' : Store} {d : Deed} (h : ByDeeds p s s') (hd : p d) : ByDeeds p s (s'.perform d)

namespace ByDeeds

variable {p q : Deed → Prop}

theorem single {d : Deed} (hd : p d) (s : Store) : ByDeeds p s (s.perform d) := .step (.refl s) hd

theorem trans (h : ByDeeds p s s') (h' : ByDeeds p s' s'') : ByDeeds p s s'' := by
  induction h' with
  | refl => exact h
  | step _ hd ih => exact .step ih hd

theorem mono (h : ByDeeds p s s') (hpq : ∀ d, p d → q d) : ByDeeds q s s' := by
  induction h with
  | refl => exact .refl _
  | step _ hd ih => exact .step ih (hpq _ hd)

/-- What every deed of the kind preserves is preserved. -/
theorem invariant {inv : Store → Prop} (h : ByDeeds p s s')
    (hinv : ∀ s d, p d → inv s → inv (s.perform d)) (hs : inv s) : inv s' := by
  induction h with
  | refl => exact hs
  | step _ hd ih => exact hinv _ _ hd ih

end ByDeeds

end Store

/-- The path of the node that a call makes or deletes, if it does one of these. -/
def Request.target? : Request → Option String
  | .create path _ _ => some path
  | .delete path => some path
  | _ => none

/-- A call leaves every node as it is but the one that it makes or deletes. -/
theorem Store.find?_serve_of_ne (s : Store) (id : SessionId) {r : Request} {path : String}
    (h : path ∉ r.target?) : (s.serve id r).2.nodes.find? path = s.nodes.find? path := by
  cases r with
  | list path' watching =>
      rcases s.list_cases id path' watching with ⟨_, s', hserve, ha⟩ | ⟨s', hserve, ha, -⟩
      · rw [serve, hserve, ha.nodes_eq]
      · rw [serve, hserve, ← ha.nodes_eq]
        cases watching with
        | false => rfl
        | true => rw [if_pos rfl, nodes_watch]
  | beginRead path' =>
      rcases s.beginRead_cases id path' with ⟨_, s', hserve, ha, -⟩ | ⟨s', hserve, ha, -⟩
      all_goals rw [serve, hserve, ha.nodes_eq]
  | finishRead path' => rfl
  | probe path' =>
      rcases s.probe_cases id path' with ⟨_, s', hserve, ha⟩ | ⟨s', hserve, ha, -⟩
      all_goals rw [serve, hserve, ha.nodes_eq]
  | create path' data mode =>
      have hne : path' ≠ path := fun heq => h (heq ▸ rfl)
      rcases s.create_cases id path' data mode with ⟨_, s', hserve, ha, -⟩ | ⟨s', hserve, ha, -⟩
      · rw [serve, hserve, ha.nodes_eq]
      · rw [serve, hserve, nodes_grow, Dict.find?_insert, if_neg hne, ha.nodes_eq]
  | delete path' =>
      have hne : path' ≠ path := fun heq => h (heq ▸ rfl)
      rcases s.delete_cases id path' with ⟨_, s', hserve, ha, -⟩ | ⟨s', hserve, ha, -⟩
      · rw [serve, hserve, ha.nodes_eq]
      · rw [serve, hserve, nodes_drop, Dict.find?_erase, if_neg hne, ha.nodes_eq]

end ServiceRegistry
