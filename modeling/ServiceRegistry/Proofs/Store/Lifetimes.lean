import Mathlib.Data.List.Induction
import ServiceRegistry.Proofs.Store.Exactness
import ServiceRegistry.Proofs.Store.Sessions

/-! # What belongs to which session

Sessions come only from being opened, each with a number of its own, and a node gets an owner only
by being made by it. So the owners and the watchers of a store that was reached by deeds are live
sessions, and the end of a session takes away the ephemeral nodes that it made and that are still
there, and no other node (`Store.belongings_go_with_sessions`).

`Store.HasMade` tells from the deeds alone what a session made; the owners that the store keeps at
its nodes say the same (`Store.ownerAt?_eq_some_iff`). -/

namespace ServiceRegistry

namespace Store

variable {s : Store} {id : SessionId} {path : String} {ds : List Deed}

/-! ### Owners -/

/-- The owner of the node at a path, if there is one and it is ephemeral. -/
def ownerAt? (s : Store) (path : String) : Option SessionId := (s.nodes.find? path).bind (·.owner)

theorem ownerAt?_eq_some {s : Store} {path : String} {id : SessionId} :
    s.ownerAt? path = some id ↔
      ∃ node, s.nodes.find? path = some node ∧ node.owner = some id := Option.bind_eq_some_iff

/-- By the deed a session makes an ephemeral node at a path. -/
def Makes (s : Store) (id : SessionId) (path : String) (d : Deed) : Prop :=
  ∃ data, d = .serve id (.create path data .ephemeral) ∧
    (s.create id path data .ephemeral).1 = .ok ()

theorem ownerAt?_ensure (s : Store) (path path' : String) :
    (s.ensure path').ownerAt? path = s.ownerAt? path := by
  unfold ensure
  split
  · rfl
  · next hfree =>
    rw [ownerAt?, nodes_notify, Dict.find?_insert, ownerAt?]
    split
    · next heq =>
      subst heq
      have hnone : s.nodes.find? path' = none := by simpa [Dict.contains] using hfree
      rw [hnone]
      rfl
    · rfl

/-- Writing past all sessions makes persistent nodes only, and leaves the owners of others. -/
theorem ownerAt?_put (s : Store) (path path' : String) (data : Bytes) :
    (s.put path' data).ownerAt? path = s.ownerAt? path := by
  have hway : ∀ (paths : List String) (s : Store),
      (paths.foldl ensure s).ownerAt? path = s.ownerAt? path := by
    intro paths
    induction paths with
    | nil => exact fun _ => rfl
    | cons first paths ih => exact fun s => (ih _).trans (s.ownerAt?_ensure path first)
  refine Eq.trans ?_ (hway (Path.chain (Path.elements path')) s)
  unfold put
  dsimp only
  split
  · next node hfind =>
    rw [ownerAt?, Dict.find?_insert, ownerAt?]
    split
    · next heq =>
      subst heq
      rw [hfind]
      rfl
    · rfl
  · rfl

/-- A call gives no node an owner unless it makes it. -/
theorem ownerAt?_serve {i : SessionId} {r : Request}
    (h : (s.serve i r).2.ownerAt? path = some id) :
    s.Makes id path (.serve i r) ∨ s.ownerAt? path = some id := by
  by_cases htarget : path ∈ r.target?
  · cases r with
    | create path' data mode =>
        cases htarget
        rcases s.create_cases i path data mode with ⟨_, s', hc, ha, -⟩ | ⟨s', hc, -⟩
        · rw [serve, hc, ownerAt?, ha.nodes_eq] at h
          exact .inr h
        · have hok : (s.create i path data mode).1 = .ok () := by rw [hc]
          rw [serve, hc, ownerAt?, nodes_grow, Dict.find?_insert, if_pos rfl] at h
          cases mode with
          | persistent => cases h
          | ephemeral =>
              cases h
              exact .inl ⟨data, rfl, hok⟩
    | delete path' =>
        cases htarget
        rcases s.delete_cases i path with ⟨_, s', hd, ha, -⟩ | ⟨s', hd, -⟩
        · rw [serve, hd, ownerAt?, ha.nodes_eq] at h
          exact .inr h
        · rw [serve, hd, ownerAt?, nodes_drop, Dict.find?_erase, if_pos rfl] at h
          cases h
    | list _ _ => cases htarget
    | beginRead _ => cases htarget
    | finishRead _ => cases htarget
    | probe _ => cases htarget
  · rw [ownerAt?, s.find?_serve_of_ne i htarget] at h
    exact .inr h

/-- Who owns a node has made it by this deed or owned it before. -/
theorem ownerAt?_of_perform {d : Deed} (h : (s.perform d).ownerAt? path = some id) :
    s.Makes id path d ∨ s.ownerAt? path = some id := by
  by_cases hwrite : d.MayWrite
  · cases d with
    | put path' data => exact .inr ((s.ownerAt?_put path path' data).symm.trans h)
    | remove path' =>
        refine .inr ?_
        simp only [perform, remove] at h
        split at h
        · rw [ownerAt?, nodes_drop, Dict.find?_erase] at h
          split at h
          · cases h
          · exact h
        · exact h
    | serve i r => exact ownerAt?_serve h
    | _ => exact hwrite.elim
  · rcases s.find?_perform_of_not_mayWrite hwrite path with hfind | hfind
    · rw [ownerAt?, hfind] at h
      exact .inr h
    · rw [ownerAt?, hfind] at h
      cases h

/-- A session owns the node at a path after a deed if it made it by the deed, or owned it before and
it is still there. -/
theorem ownerAt?_perform_iff {d : Deed} : (s.perform d).ownerAt? path = some id ↔
    s.Makes id path d ∨
      s.ownerAt? path = some id ∧ (s.perform d).nodes.contains path = true := by
  constructor
  · intro h
    obtain ⟨node, hfind, -⟩ := ownerAt?_eq_some.mp h
    exact (ownerAt?_of_perform h).imp_right fun howner => ⟨howner, by simp [Dict.contains, hfind]⟩
  · rintro (⟨data, rfl, hok⟩ | ⟨howner, hthere⟩)
    · rcases s.create_cases id path data .ephemeral with ⟨_, s', hc, -⟩ | ⟨s', hc, -⟩
      · rw [hc] at hok
        cases hok
      · rw [perform, serve, hc, ownerAt?, nodes_grow, Dict.find?_insert, if_pos rfl]
        rfl
    · obtain ⟨node, hfind, howner⟩ := ownerAt?_eq_some.mp howner
      cases s.touched_perform path d with
      | same after_eq => exact ownerAt?_eq_some.mpr ⟨node, after_eq.trans hfind, howner⟩
      | written there after_eq =>
          cases there.symm.trans hfind
          exact ownerAt?_eq_some.mpr ⟨_, after_eq, howner⟩
      | made absent after_eq live => cases absent.symm.trans hfind
      | deleted deletes after_eq => simp [Dict.contains, after_eq] at hthere
      | ended there owned ends after_eq => simp [Dict.contains, after_eq] at hthere

/-! ### Sessions -/

theorem isLive_congr {s' : Store} (h : s'.sessions = s.sessions) : s'.IsLive id ↔ s.IsLive id := by
  rw [IsLive, IsLive, session?_congr s id h]

theorem isLive_setConnected (s : Store) (id i : SessionId) (on : Bool) :
    (s.setConnected i on).IsLive id ↔ s.IsLive id := by
  refine ⟨fun h => ?_, fun h => h.setConnected i on⟩
  unfold setConnected at h
  split at h
  · have hmap : (fun e : Session => decide (e.id = id)) ∘
        (fun e => if e.id = i then { e with isConnected := on } else e) =
        fun e => decide (e.id = id) := by
      funext e
      simp only [Function.comp_apply]
      split <;> rfl
    simp only [IsLive, session?, post, List.find?_map, Option.isSome_map, hmap] at h
    rw [IsLive, session?]
    exact h
  · exact h

/-- A session comes into being only by being opened. -/
theorem isLive_of_perform {d : Deed} (h : (s.perform d).IsLive id) :
    s.IsLive id ∨ d = .connect ∧ s.connect.1 = .ok id := by
  have hend : ∀ {s : Store} {i : SessionId}, (s.endSession i).IsLive id → s.IsLive id := by
    intro s i h
    rw [IsLive, session?_endSession] at h
    split at h
    · cases h
    · exact h
  cases d with
  | put path data => exact .inl ((isLive_congr (s.sessions_put path data)).mp h)
  | remove path =>
      refine .inl ?_
      simp only [perform, remove] at h
      split at h <;> exact h
  | failNext call code => exact .inl h
  | delayReads ms => exact .inl h
  | connect =>
      rcases s.connect_cases with ⟨_, s', hc, ha, -⟩ | hc
      · rw [perform, hc] at h
        exact .inl ((isLive_congr ha.sessions_eq).mp h)
      · rw [hc]
        simp only [perform, hc, IsLive, session?, post, List.find?_append, Option.isSome_or,
          Bool.or_eq_true] at h
        refine h.imp_right fun hnew => ⟨rfl, ?_⟩
        obtain ⟨e, he⟩ := Option.isSome_iff_exists.mp hnew
        obtain rfl := List.mem_singleton.mp (List.mem_of_find?_eq_some he)
        simpa using List.find?_some he
  | close i =>
      refine .inl ?_
      simp only [perform, close] at h
      split at h
      · exact hend h
      · exact h
  | expire i =>
      refine .inl ?_
      simp only [perform, expire] at h
      split at h
      · have hposted := hend h
        exact hposted
      · exact h
  | disconnect i => exact .inl ((s.isLive_setConnected id i false).mp h)
  | reconnect i => exact .inl ((s.isLive_setConnected id i true).mp h)
  | serve i r => exact .inl ((isLive_congr (s.sessions_serve i r)).mp h)
  | takeEvents i => exact .inl h

/-- The session that is opened by a deed, if one is. -/
def grants (s : Store) : Deed → Option SessionId
  | .connect => s.connect.1.toOption
  | _ => none

/-- The sessions that are opened by some deeds, in order. -/
def granted (s : Store) : List Deed → List SessionId
  | [] => []
  | d :: ds => (s.grants d).toList ++ granted (s.perform d) ds

theorem eq_of_grants {d : Deed} (h : s.grants d = some id) :
    id = s.opened + 1 ∧ (s.perform d).opened = s.opened + 1 := by
  cases d with
  | connect =>
      rw [grants] at h
      rcases s.connect_cases with ⟨_, s', hc, -⟩ | hc
      · rw [hc] at h
        cases h
      · rw [perform, hc]
        rw [hc] at h
        cases h
        exact ⟨rfl, rfl⟩
  | _ => cases h

/-- Numbers are given out in ascending order. -/
theorem ascending_granted (s : Store) (ds : List Deed) :
    (granted s ds).Pairwise (· < ·) ∧ ∀ id ∈ granted s ds, s.opened < id := by
  induction ds generalizing s with
  | nil => exact ⟨.nil, fun id hid => by cases hid⟩
  | cons d ds ih =>
      obtain ⟨hascending, habove⟩ := ih (s.perform d)
      have hle := opened_le_perform s d
      rw [granted]
      cases hd : s.grants d with
      | none => exact ⟨hascending, fun id hid => Nat.lt_of_le_of_lt hle (habove id hid)⟩
      | some first =>
          obtain ⟨rfl, hopened⟩ := eq_of_grants hd
          rw [hopened] at habove
          refine ⟨List.pairwise_cons.mpr ⟨habove, hascending⟩, fun id hid => ?_⟩
          rcases List.mem_cons.mp hid with rfl | hid
          · exact Nat.lt_succ_self _
          · exact Nat.lt_of_succ_lt (habove id hid)

theorem mem_granted_of_isLive {ds : List Deed} (h : (ds.foldl perform s).IsLive id) :
    s.IsLive id ∨ id ∈ granted s ds := by
  induction ds generalizing s with
  | nil => exact .inl h
  | cons d ds ih =>
      rw [granted]
      rcases ih h with hlive | hmem
      · rcases isLive_of_perform hlive with hlive | ⟨rfl, hok⟩
        · exact .inl hlive
        · exact .inr (List.mem_append_left _ (by simp [grants, hok, Except.toOption]))
      · exact .inr (List.mem_append_right _ hmem)

theorem IsLive.le_opened {p : Deed → Prop} (hs : ByDeeds p {} s) (h : s.IsLive id) :
    id ≤ s.opened := by
  have hstep : ∀ (s : Store) d, p d → (∀ id, s.IsLive id → id ≤ s.opened) →
      ∀ id, (s.perform d).IsLive id → id ≤ (s.perform d).opened := by
    intro s d _ hle id hlive
    rcases isLive_of_perform hlive with hlive | ⟨rfl, hok⟩
    · exact Nat.le_trans (hle id hlive) (opened_le_perform s d)
    · have hgrants : s.grants .connect = some id := by rw [grants, hok, Except.toOption]
      obtain ⟨rfl, hopened⟩ := eq_of_grants hgrants
      exact Nat.le_of_eq hopened.symm
  exact hs.invariant hstep (fun _ hlive => by cases hlive) id h

/-! ### Watchers -/

/-- Whoever watches is live. -/
def WatchersLive (s : Store) : Prop := ∀ path id, (path, id) ∈ s.watches → s.IsLive id

theorem watches_drop_subset (s : Store) (path : String) : (s.drop path).watches ⊆ s.watches :=
  fun _ h => (List.mem_filter.mp h).1

theorem watches_put_subset (s : Store) (path : String) (data : Bytes) :
    (s.put path data).watches ⊆ s.watches := by
  have hway : ∀ (paths : List String) (s : Store),
      (paths.foldl ensure s).watches ⊆ s.watches := by
    intro paths
    induction paths with
    | nil => exact fun _ _ h => h
    | cons first paths ih =>
        intro s w hw
        have hfirst := ih (s.ensure first) hw
        unfold ensure at hfirst
        split at hfirst
        · exact hfirst
        · exact (List.mem_filter.mp hfirst).1
  unfold put
  dsimp only
  split
  · exact hway _ s
  · exact hway _ s

/-- A watch was there before, or the session that lists the children is connected. -/
theorem watches_serve {i : SessionId} {r : Request} {w : String × SessionId}
    (h : w ∈ (s.serve i r).2.watches) : w ∈ s.watches ∨ w.2 = i ∧ s.IsLive i := by
  cases r with
  | list path watching =>
      rcases s.list_cases i path watching with ⟨_, s', hs, ha⟩ | ⟨s', hs, ha, -, e, he, -⟩
      · rw [serve, hs, ha.watches_eq] at h
        exact .inl h
      · rw [← ha.watches_eq]
        rw [serve, hs] at h
        cases watching with
        | false => exact .inl h
        | true =>
            rcases (mem_watches_watch s' path i).mp h with rfl | h
            · exact .inr ⟨rfl, by rw [IsLive, he]; rfl⟩
            · exact .inl h
  | beginRead path =>
      rcases s.beginRead_cases i path with ⟨_, s', hs, ha, -⟩ | ⟨s', hs, ha, -⟩
      all_goals
        rw [serve, hs, ha.watches_eq] at h
        exact .inl h
  | finishRead path => exact .inl h
  | probe path =>
      rcases s.probe_cases i path with ⟨_, s', hs, ha⟩ | ⟨s', hs, ha, -⟩
      all_goals
        rw [serve, hs, ha.watches_eq] at h
        exact .inl h
  | create path data mode =>
      rcases s.create_cases i path data mode with ⟨_, s', hs, ha, -⟩ | ⟨s', hs, ha, -⟩
      · rw [serve, hs, ha.watches_eq] at h
        exact .inl h
      · rw [serve, hs] at h
        exact .inl (ha.watches_eq ▸ (List.mem_filter.mp h).1)
  | delete path =>
      rcases s.delete_cases i path with ⟨_, s', hs, ha, -⟩ | ⟨s', hs, ha, -⟩
      · rw [serve, hs, ha.watches_eq] at h
        exact .inl h
      · rw [serve, hs] at h
        exact .inl (ha.watches_eq ▸ (List.mem_filter.mp h).1)

theorem mem_watches_endSession {i : SessionId} {w : String × SessionId}
    (h : w ∈ (s.endSession i).watches) : w ∈ s.watches ∧ w.2 ≠ i := by
  obtain ⟨hdrops, hne⟩ := List.mem_filter.mp h
  have hway : ∀ (paths : List String) (s : Store), (paths.foldl drop s).watches ⊆ s.watches := by
    intro paths
    induction paths with
    | nil => exact fun _ _ h => h
    | cons first paths ih => exact fun s w hw => s.watches_drop_subset first (ih (s.drop first) hw)
  exact ⟨by simpa using hway _ _ hdrops, by simpa using hne⟩

/-- Who watches after a deed watched before, or lists children by it on a live session. -/
theorem watches_perform {d : Deed} {w : String × SessionId} (h : w ∈ (s.perform d).watches) :
    w ∈ s.watches ∨ s.IsLive w.2 := by
  cases d with
  | put path data => exact .inl (s.watches_put_subset path data h)
  | remove path =>
      simp only [perform, remove] at h
      split at h
      · exact .inl (s.watches_drop_subset path h)
      · exact .inl h
  | failNext call code => exact .inl h
  | delayReads ms => exact .inl h
  | connect =>
      rcases s.connect_cases with ⟨_, s', hc, ha, -⟩ | hc
      · rw [perform, hc, ha.watches_eq] at h
        exact .inl h
      · rw [perform, hc] at h
        exact .inl h
  | close i =>
      simp only [perform, close] at h
      split at h
      · exact .inl (mem_watches_endSession h).1
      · exact .inl h
  | expire i =>
      simp only [perform, expire] at h
      split at h
      · exact .inl (mem_watches_endSession h).1
      · exact .inl h
  | disconnect i =>
      simp only [perform, disconnect, setConnected] at h
      split at h <;> exact .inl h
  | reconnect i =>
      simp only [perform, reconnect, setConnected] at h
      split at h <;> exact .inl h
  | serve i r =>
      rcases watches_serve h with h | ⟨rfl, hlive⟩
      · exact .inl h
      · exact .inr hlive
  | takeEvents i => exact .inl h

/-- Whoever ends with a deed watches nothing afterwards. -/
theorem WatchersLive.ne_of_mem (h : s.WatchersLive) {d : Deed}
    (hd : d = .close id ∨ d = .expire id) : (path, id) ∉ (s.perform d).watches := by
  intro hmem
  rcases hd with rfl | rfl
  · simp only [Store.perform, close] at hmem
    split at hmem
    · exact (mem_watches_endSession hmem).2 rfl
    · next hdead => exact hdead (h path id hmem)
  · simp only [Store.perform, expire] at hmem
    split at hmem
    · exact (mem_watches_endSession hmem).2 rfl
    · next hdead => exact hdead (h path id hmem)

theorem WatchersLive.perform (h : s.WatchersLive) (d : Deed) : (s.perform d).WatchersLive := by
  intro path id hmem
  have hlive : s.IsLive id := (watches_perform hmem).elim (h path id) fun hlive => hlive
  refine hlive.perform (fun hclose => ?_) fun hexpire => ?_
  · exact h.ne_of_mem (.inl hclose) hmem
  · exact h.ne_of_mem (.inr hexpire) hmem

/-! ### What deeds made -/

/-- The store after some deeds. -/
def after (ds : List Deed) : Store := ds.foldl perform {}

theorem after_concat (ds : List Deed) (d : Deed) : after (ds ++ [d]) = (after ds).perform d := by
  simp [after]

/-- One of the deeds did something to the store, and since then it has been in some way. -/
def Since (does : Store → Deed → Prop) (is : Store → Prop) (ds : List Deed) : Prop :=
  ∃ before d later, ds = before ++ d :: later ∧ does (after before) d ∧
    ∀ ds', ds' <+: later → is (after (before ++ d :: ds'))

/-- With one deed more, this deed did it, or one before and the store is still so. -/
theorem since_concat_iff {does : Store → Deed → Prop} {is : Store → Prop}
    {d : Deed} (hdoes : does (after ds) d → is ((after ds).perform d)) :
    Since does is (ds ++ [d]) ↔
      does (after ds) d ∨ Since does is ds ∧ is ((after ds).perform d) := by
  constructor
  · rintro ⟨before, first, later, hds, hfirst, hsince⟩
    rcases List.eq_nil_or_concat' later with rfl | ⟨later, last, rfl⟩
    · obtain ⟨rfl, hsame⟩ := List.append_inj' hds rfl
      cases hsame
      exact .inl hfirst
    · have hcut : ds ++ [d] = (before ++ first :: later) ++ [last] := by simpa using hds
      obtain ⟨rfl, hsame⟩ := List.append_inj' hcut rfl
      cases hsame
      refine .inr ⟨⟨before, first, later, rfl, hfirst, fun ds' hds' => hsince ds' ?_⟩, ?_⟩
      · exact hds'.trans (List.prefix_append _ _)
      · have hlast := hsince _ List.prefix_rfl
        rwa [← List.cons_append, ← List.append_assoc, after_concat] at hlast
  · rintro (hlast | ⟨⟨before, first, later, rfl, hfirst, hsince⟩, hlast⟩)
    · refine ⟨ds, d, [], rfl, hlast, fun ds' hds' => ?_⟩
      rw [List.prefix_nil.mp hds', after_concat]
      exact hdoes hlast
    · refine ⟨before, first, later ++ [d], by simp, hfirst, fun ds' hds' => ?_⟩
      rcases List.prefix_concat_iff.mp hds' with rfl | hds'
      · rwa [← List.cons_append, ← List.append_assoc, after_concat]
      · exact hsince ds' hds'

/-- Nothing has been done for as long as nothing was done at all. -/
theorem not_since_nil {does : Store → Deed → Prop} {is : Store → Prop} : ¬Since does is [] := by
  rintro ⟨before, d, later, hds, -⟩
  simp at hds

/-- A session made an ephemeral node at a path, and it has been there since. -/
def HasMade (ds : List Deed) (id : SessionId) (path : String) : Prop :=
  ∃ before d later, ds = before ++ d :: later ∧ (after before).Makes id path d ∧
    ∀ ds', ds' <+: later → (after (before ++ d :: ds')).nodes.contains path = true

theorem Makes.contains {d : Deed} (h : s.Makes id path d) :
    (s.perform d).nodes.contains path = true := by
  obtain ⟨node, hfind, -⟩ := ownerAt?_eq_some.mp (ownerAt?_perform_iff.mpr (.inl h))
  simp [Dict.contains, hfind]

theorem hasMade_iff_since : HasMade ds id path ↔
    Since (fun s => s.Makes id path) (fun s => s.nodes.contains path = true) ds := Iff.rfl

/-- The owners that are kept tell who made what. -/
theorem ownerAt?_eq_some_iff : (after ds).ownerAt? path = some id ↔ HasMade ds id path := by
  rw [hasMade_iff_since]
  induction ds using List.reverseRecOn with
  | nil => exact ⟨fun h => (by cases h), fun h => absurd h not_since_nil⟩
  | append_singleton ds d ih =>
      rw [since_concat_iff Makes.contains, after_concat, ownerAt?_perform_iff, ih]

/-! ### Belongings -/

/-- How nodes and watches belong to sessions after some deeds. -/
structure Belongs (ds : List Deed) : Prop where
  /-- An ephemeral node has a live owner. -/
  owners : ∀ path node id, (after ds).nodes.find? path = some node → node.owner = some id →
    (after ds).IsLive id
  watchers : ∀ path id, (path, id) ∈ (after ds).watches → (after ds).IsLive id
  /-- No number was given out twice, and live sessions have numbers that were given out. -/
  once : (granted {} ds).Nodup
  known : ∀ id, (after ds).IsLive id → id ∈ granted {} ds
  /-- When a session ends by one more deed, what it made goes. -/
  taken : ∀ d id path, (after ds).IsLive id → ¬((after ds).perform d).IsLive id →
    HasMade ds id path → ((after ds).perform d).nodes.find? path = none
  /-- All other nodes stay as they are. -/
  kept : ∀ d id path, (after ds).IsLive id → ¬((after ds).perform d).IsLive id →
    ¬HasMade ds id path →
      ((after ds).perform d).nodes.find? path = (after ds).nodes.find? path

/-- A live session ends only by being closed or by expiry, and its own nodes go. -/
theorem find?_of_end {d : Deed} (h : s.IsLive id) (hend : ¬(s.perform d).IsLive id)
    (path : String) :
    (s.perform d).nodes.find? path =
      (s.nodes.find? path).filter fun node => node.owner ≠ some id := by
  have hsome : (s.session? id).isSome = true := h
  have hd : d = .close id ∨ d = .expire id := by
    by_contra hother
    rw [not_or] at hother
    exact hend (h.perform hother.1 hother.2)
  rcases hd with rfl | rfl
  · rw [perform, close, if_pos hsome, find?_endSession]
  · rw [perform, expire, if_pos hsome, find?_endSession]
    rfl

/-- Whatever was done to a store, nodes and watches belong to live sessions, and the end of a
session takes away what it made and nothing else. -/
theorem belongings_go_with_sessions (ds : List Deed) : Belongs ds := by
  have hdeeds : ByDeeds (fun _ => True) {} (after ds) := byDeeds_foldl (fun _ _ => trivial) {}
  refine ⟨areOwned_of_byDeeds hdeeds, ?_, ?_, ?_, ?_, ?_⟩
  · have hstart : WatchersLive {} := fun _ _ hmem => by cases hmem
    have hstep : ∀ s d, True → WatchersLive s → WatchersLive (s.perform d) :=
      fun _ d _ hs => hs.perform d
    exact hdeeds.invariant hstep hstart
  · exact (ascending_granted {} ds).1.imp Nat.ne_of_lt
  · exact fun id hlive => (mem_granted_of_isLive hlive).resolve_left fun h => by cases h
  · intro d id path hlive hend hmade
    obtain ⟨node, hfind, howner⟩ := ownerAt?_eq_some.mp (ownerAt?_eq_some_iff.mpr hmade)
    rw [find?_of_end hlive hend, hfind]
    simp [Option.filter, howner]
  · intro d id path hlive hend hmade
    rw [← ownerAt?_eq_some_iff, ownerAt?] at hmade
    rw [find?_of_end hlive hend]
    cases hfind : (after ds).nodes.find? path with
    | none => rfl
    | some node =>
        have howner : node.owner ≠ some id := by simpa [hfind] using hmade
        simp [Option.filter, howner]

end Store

end ServiceRegistry
