import Mathlib.Logic.Relation
import ServiceRegistry.Proofs.Announcing.Visits
import ServiceRegistry.Proofs.Record.RoundTrip

/-! # Publishing converges

A season is the life of one publisher: its roster is changed, sessions come and go, visits are made
under ascending generations, and all of these may fail or be broken off. Nobody else writes the
nodes of its records. After every visit that succeeds and in which no deletion of a static record
failed, these nodes are exactly those of the desired records, and a visit right after it asks for
nothing (`visits_converge`). -/

namespace ServiceRegistry

namespace Roster

variable {t : Roster} {r x : Record}

theorem mem_foldl_add {rs init : List Record} :
    r ∈ rs.foldl (fun rs r => add r rs) init ↔ r ∈ init ∨ r ∈ rs := by
  induction rs generalizing init with
  | nil => simp
  | cons r' rs ih =>
      rw [List.foldl_cons, ih, mem_add, List.mem_cons]
      tauto

theorem mem_removals_queue :
    x ∈ (t.queue r).removals ↔ (x = r ∧ r.isStatic = true) ∨ x ∈ t.removals := by
  simp only [queue]
  split
  · next hs => simp [hs]
  · next hs => simp [hs]

theorem mem_removals_withdraw :
    x ∈ (t.withdraw r).removals ↔ (x = r ∧ r.isStatic = true) ∨ x ∈ t.removals :=
  mem_removals_queue

theorem mem_removals_withdrawAll :
    x ∈ t.withdrawAll.removals ↔ x ∈ t.removals ∨ (x ∈ t.desired ∧ x.isStatic = true) := by
  rw [withdrawAll, mem_foldl_add, List.mem_filter]

/-- The records of a roster are records of a run; those that should be removed are static and not
desired. -/
structure IsOrderly (used : Record → Prop) (t : Roster) : Prop where
  desired_used : ∀ r ∈ t.desired, used r
  removals_static : ∀ r ∈ t.removals, used r ∧ r.isStatic = true ∧ r ∉ t.desired

namespace IsOrderly

variable {used : Record → Prop}

theorem announce (h : t.IsOrderly used) (hr : used r) : (t.announce r).IsOrderly used where
  desired_used r' hr' := by
    rcases mem_add.mp hr' with rfl | hr'
    · exact hr
    · exact h.desired_used r' hr'
  removals_static r' hr' := by
    obtain ⟨hremoval, hne⟩ := mem_drop.mp hr'
    obtain ⟨hused, hs, hnot⟩ := h.removals_static r' hremoval
    exact ⟨hused, hs, fun hmem => (mem_add.mp hmem).elim hne hnot⟩

theorem withdraw (h : t.IsOrderly used) (hr : used r) : (t.withdraw r).IsOrderly used where
  desired_used r' hr' := h.desired_used r' (mem_drop.mp hr').1
  removals_static r' hr' := by
    rcases mem_removals_withdraw.mp hr' with ⟨rfl, hs⟩ | hremoval
    · exact ⟨hr, hs, fun hmem => (mem_drop.mp hmem).2 rfl⟩
    · obtain ⟨hused, hs, hnot⟩ := h.removals_static r' hremoval
      exact ⟨hused, hs, fun hmem => hnot (mem_drop.mp hmem).1⟩

theorem withdrawAll (h : t.IsOrderly used) : t.withdrawAll.IsOrderly used where
  desired_used r' hr' := by cases hr'
  removals_static r' hr' := by
    rcases mem_removals_withdrawAll.mp hr' with hremoval | ⟨hdesired, hs⟩
    · obtain ⟨hused, hs, -⟩ := h.removals_static r' hremoval
      exact ⟨hused, hs, fun hmem => by cases hmem⟩
    · exact ⟨h.desired_used r' hdesired, hs, fun hmem => by cases hmem⟩

theorem unqueue (h : t.IsOrderly used) (r : Record) : (t.unqueue r).IsOrderly used :=
  ⟨h.desired_used, fun r' hr' => h.removals_static r' (mem_drop.mp hr').1⟩

end IsOrderly

end Roster

namespace Publisher

open Store

/-! ### Seasons -/

/-- A publisher with its roster over a store, between two visits. -/
structure Season where
  publisher : Publisher
  roster : Roster := {}
  store : Store
  /-- The visits so far had generations below this one. -/
  next : Nat := 0

/-- A deed of others leaves the nodes of the records, though it may end sessions, and injects no
failure that says that a node is there already, or that it is gone. -/
def Spares (used : Record → Prop) (root : String) (s : Store) (d : Deed) : Prop :=
  (d.MayWrite → ∀ r, used r → node? root (s.perform d) r = node? root s r) ∧
    d ≠ .failNext .create .nodeExists ∧ d ≠ .failNext .delete .noNode

section Sparing

variable {used : Record → Prop} {root : String} {s : Store} {d : Deed}

theorem Spares.isHonest (hd : Spares used root s d) (h : s.IsHonest) : (s.perform d).IsHonest :=
  ⟨fun hf => (s.failures_perform d hf).elim h.1 hd.2.1,
    fun hf => (s.failures_perform d hf).elim h.2 hd.2.2⟩

theorem Spares.node?_eq_or (hd : Spares used root s d) {r : Record} (hr : used r) :
    node? root (s.perform d) r = node? root s r ∨ node? root (s.perform d) r = none := by
  by_cases hw : d.MayWrite
  · exact .inl (hd.1 hw r hr)
  · exact s.find?_perform_of_not_mayWrite hw _

end Sparing

/-- How a season goes on. -/
inductive Season.Step (used : Record → Prop) (root : String) : Season → Season → Prop
  | announce (c : Season) {r : Record} (hr : used r) :
      Step used root c { c with roster := c.roster.announce r }
  | withdraw (c : Season) {r : Record} (hr : used r) :
      Step used root c { c with roster := c.roster.withdraw r }
  | withdrawAll (c : Season) : Step used root c { c with roster := c.roster.withdrawAll }
  | deed (c : Season) {d : Deed} (spares : Spares used root c.store d) :
      Step used root c { c with store := c.store.perform d }
  /-- A visit for any session, over the present children of the root. -/
  | visit {c : Season} {id : SessionId} {now generation : Nat} {ids : IdSource} {p : Publisher}
      {result : Except StoreError Unit} {scene : Script.Scene Roster} (later : c.next ≤ generation)
      (run : (c.publisher.visit (c.store.children root) generation).run id now
        ⟨c.store, c.roster, ids⟩ = (.finished (p, result), scene)) :
      Step used root c ⟨p, scene.shared, scene.store, generation + 1⟩

/-- A season is reached from the start of a publisher over a store. -/
def Season.Reachable (used : Record → Prop) (root : String) (s : Store) (c : Season) : Prop :=
  Relation.ReflTransGen (Step used root) { publisher := { root }, store := s } c

/-- A visit, with what it leaves. -/
def Season.visited (c : Season) (root : String) (id : SessionId) (generation : Nat) : Season :=
  match (c.publisher.visit (c.store.children root) generation).run id 0
    ⟨c.store, c.roster, {}⟩ with
  | (.finished (publisher, _), scene) => ⟨publisher, scene.shared, scene.store, generation + 1⟩
  | (.waiting _ _, _) => c

variable {used : Record → Prop} {root : String}

theorem Season.reachable_visited {s : Store} {c : Season} (h : Reachable used root s c)
    (id : SessionId) {generation : Nat} (later : c.next ≤ generation) :
    Reachable used root s (c.visited root id generation) := by
  unfold visited
  split
  · next run => exact h.tail (.visit later run)
  · exact h

/-! ### Changes of the roster -/

namespace Kept

variable {next : Nat} {p : Publisher} {t : Roster} {s : Store}

theorem orderly (h : Kept used root next p t s) : t.IsOrderly used :=
  ⟨h.desired_used, h.removals_static⟩

/-- Another orderly roster may take the place, if static nodes are accounted for in it. -/
theorem of_orderly {t' : Roster} (h : Kept used root next p t s) (ht : t'.IsOrderly used)
    (accounted : ∀ r, used r → r.isStatic = true → r ∈ t.desired ∨ r ∈ t.removals →
      r ∈ t'.desired ∨ r ∈ t'.removals) : Kept used root next p t' s :=
  { h with
    accounted := fun r hr hs hthere => accounted r hr hs (h.accounted r hr hs hthere)
    desired_used := ht.desired_used
    removals_static := ht.removals_static }

theorem announce (h : Kept used root next p t s) {r : Record} (hr : used r) :
    Kept used root next p (t.announce r) s := by
  refine h.of_orderly (h.orderly.announce hr) fun r' _ _ hr' => ?_
  by_cases heq : r' = r
  · exact .inl (Roster.mem_add.mpr (.inl heq))
  · rcases hr' with hdesired | hremoval
    · exact .inl (Roster.mem_add.mpr (.inr hdesired))
    · exact .inr (Roster.mem_drop.mpr ⟨hremoval, heq⟩)

theorem withdraw (h : Kept used root next p t s) {r : Record} (hr : used r) :
    Kept used root next p (t.withdraw r) s := by
  refine h.of_orderly (h.orderly.withdraw hr) fun r' _ hs hr' => ?_
  by_cases heq : r' = r
  · exact .inr (Roster.mem_removals_withdraw.mpr (.inl ⟨heq, heq ▸ hs⟩))
  · rcases hr' with hdesired | hremoval
    · exact .inl (Roster.mem_drop.mpr ⟨hdesired, heq⟩)
    · exact .inr (Roster.mem_removals_withdraw.mpr (.inr hremoval))

theorem withdrawAll (h : Kept used root next p t s) :
    Kept used root next p t.withdrawAll s := by
  refine h.of_orderly h.orderly.withdrawAll fun r' _ hs hr' => ?_
  rcases hr' with hdesired | hremoval
  · exact .inr (Roster.mem_removals_withdrawAll.mpr (.inr ⟨hdesired, hs⟩))
  · exact .inr (Roster.mem_removals_withdrawAll.mpr (.inl hremoval))

theorem perform (h : Kept used root next p t s) {d : Deed} (hd : Spares used root s d) :
    Kept used root next p t (s.perform d) :=
  h.of_nodes (hd.isHonest h.honest) fun _ hr => hd.node?_eq_or hr

end Kept

/-! ### The invariant of a season -/

variable {s : Store} {c : Season}

theorem Season.Step.kept {d : Season} (hroot : Path.IsDirectory root) (hd : Distinct used)
    (hstep : Step used root c d) (h : Kept used root c.next c.publisher c.roster c.store) :
    Kept used root d.next d.publisher d.roster d.store := by
  cases hstep with
  | announce hr => exact h.announce hr
  | withdraw hr => exact h.withdraw hr
  | withdrawAll => exact h.withdrawAll
  | deed spares => exact h.perform spares
  | visit later run => exact (Script.leads_run (leads_visit hroot hd later h) run).kept

theorem Season.Reachable.kept (hroot : Path.IsDirectory root) (hd : Distinct used)
    (honest : s.IsHonest) (without : ∀ r, used r → node? root s r = none)
    (h : Reachable used root s c) : Kept used root c.next c.publisher c.roster c.store := by
  induction h with
  | refl =>
      exact {
        root_eq := rfl
        honest := honest
        holds := fun r hr node hnode => by simp [without r hr] at hnode
        confirmed := fun r hr _ hthere => by simp [without r hr] at hthere
        accounted := fun r hr _ hthere => by simp [without r hr] at hthere
        seen := fun name seen hseen => by cases hseen
        desired_used := fun r hr => by cases hr
        removals_static := fun r hr => by cases hr }
  | tail _ hstep ih => exact hstep.kept hroot hd ih

/-- The nodes of the records of a run show what a roster wants, and nothing is left to do. -/
structure Converged (used : Record → Prop) (root : String) (c : Season) : Prop where
  present : ∀ r, used r →
    (c.store.has (Path.child root r.nodeName) = true ↔ r ∈ c.roster.desired)
  lasting : ∀ r ∈ c.roster.desired,
    (c.store.isEphemeral (Path.child root r.nodeName) = true ↔ r.isStatic = false)
  payload : ∀ r ∈ c.roster.desired, ∃ data,
    c.store.data? (Path.child root r.nodeName) = some data ∧
      ∀ fresh, Record.decode fresh data = .ok r
  noRemovals : c.roster.removals = []
  /-- The next visit, if it comes before anything else, makes no call at all. -/
  restful : ∀ (id : SessionId) (now generation : Nat) (ids : IdSource),
    (c.publisher.visit (c.store.children root) generation).heard id now
      ⟨c.store, c.roster, ids⟩ = []

/-- After every visit that succeeds and in which no deletion of a static record failed, the nodes of
the records are those of the desired ones, and the next visit has nothing to do. -/
theorem visits_converge (hroot : Path.IsDirectory root) (hd : Distinct used) (honest : s.IsHonest)
    (without : ∀ r, used r → node? root s r = none) (h : Season.Reachable used root s c)
    {id : SessionId} {now generation : Nat} {ids : IdSource} {p : Publisher}
    {scene : Script.Scene Roster} (later : c.next ≤ generation)
    (run : (c.publisher.visit (c.store.children root) generation).run id now
      ⟨c.store, c.roster, ids⟩ = (.finished (p, .ok ()), scene))
    (removed : ∀ e ∈ (c.publisher.visit (c.store.children root) generation).heard id now
      ⟨c.store, c.roster, ids⟩, ¬FailedRemoval root e) :
    Converged used root ⟨p, scene.shared, scene.store, generation + 1⟩ := by
  have hkept := h.kept hroot hd honest without
  have hvisited := Script.leads_run (leads_visit hroot hd later hkept) run
  have hsettled := hvisited.settled rfl removed
  have hnode : ∀ r ∈ scene.shared.desired, ∃ node, node? root scene.store r = some node :=
    fun r hr => Option.isSome_iff_exists.mp
      ((hsettled.node_iff r (hvisited.kept.desired_used r hr)).mpr hr)
  constructor
  · intro r hr
    rw [scene.store.has_child hroot.1]
    exact hsettled.node_iff r hr
  · intro r hr
    obtain ⟨node, hfind⟩ := hnode r hr
    have howner := (hvisited.kept.holds r (hvisited.kept.desired_used r hr) node hfind).2
    rw [node?] at hfind
    simp [isEphemeral, hfind, howner]
  · intro r hr
    obtain ⟨node, hfind⟩ := hnode r hr
    have hdata := (hvisited.kept.holds r (hvisited.kept.desired_used r hr) node hfind).1
    rw [node?] at hfind
    refine ⟨r.encode, by simp [data?, hfind, hdata], fun fresh => Record.decode_encode fresh r⟩
  · exact hsettled.removals_eq
  · intro id now generation ids
    exact heard_visit_of_settled hroot hd hvisited.kept hsettled

/-! ### A season with two records -/

/-- An instance that is announced as long as a session lives. -/
def webRecord : Record := ⟨"web", some "http", .ofDigits [], .empty, false, by decide⟩

/-- A static instance. -/
def queueRecord : Record := ⟨"queue", none, .ofDigits [], .empty, true, by decide⟩

/-- The two of them. -/
def IsWebOrQueue (r : Record) : Prop := r = webRecord ∨ r = queueRecord

theorem distinct_isWebOrQueue : Distinct IsWebOrQueue where
  plain r hr := by
    rcases hr with rfl | rfl
    · exact ⟨by decide, fun kind hk => by cases hk; decide⟩
    · exact ⟨by decide, fun kind hk => by cases hk⟩
  injective r r' hr hr' hname := by
    rcases hr with rfl | rfl <;> rcases hr' with rfl | rfl
    · rfl
    · exact absurd hname (by decide)
    · exact absurd hname (by decide)
    · rfl

/-- Both records are announced, before the first visit. -/
def announcedSeason : Season where
  publisher := { root := "/srv" }
  roster := (({} : Roster).announce webRecord).announce queueRecord
  store := (({} : Store).put "/srv" []).perform .connect

/-- Both nodes were made; then the session ended, and the static record was withdrawn. -/
def withdrawnSeason : Season :=
  let c := announcedSeason.visited "/srv" 1 1
  { c with
    roster := c.roster.withdraw queueRecord
    store := (c.store.perform (.expire 1)).perform .connect }

theorem reachable_withdrawnSeason :
    Season.Reachable IsWebOrQueue "/srv" (({} : Store).put "/srv" []) withdrawnSeason := by
  have spares : ∀ s d, ¬d.MayWrite → (∀ call code, d ≠ .failNext call code) →
      Spares IsWebOrQueue "/srv" s d :=
    fun s d hw hf => ⟨fun h => absurd h hw, hf _ _, hf _ _⟩
  have hstart : Season.Reachable IsWebOrQueue "/srv" (({} : Store).put "/srv" [])
      { publisher := { root := "/srv" }, store := ({} : Store).put "/srv" [] } := .refl
  have hconnect := hstart.tail (.deed _ (spares _ .connect (fun h => h) (by simp)))
  have hannounced : Season.Reachable IsWebOrQueue "/srv" (({} : Store).put "/srv" [])
      announcedSeason :=
    (hconnect.tail (.announce _ (.inl rfl))).tail (.announce _ (.inr rfl))
  have hvisited := Season.reachable_visited hannounced 1 (Nat.zero_le 1)
  have hexpired := hvisited.tail (.deed _ (spares _ (.expire 1) (fun h => h) (by simp)))
  have hconnected := hexpired.tail (.deed _ (spares _ .connect (fun h => h) (by simp)))
  exact hconnected.tail (.withdraw _ (.inr rfl))

theorem visits_converge_of_two_records : ∃ p scene,
    (withdrawnSeason.publisher.visit (withdrawnSeason.store.children "/srv") 2).run 2 0
      ⟨withdrawnSeason.store, withdrawnSeason.roster, {}⟩ = (.finished (p, .ok ()), scene) ∧
    Converged IsWebOrQueue "/srv" ⟨p, scene.shared, scene.store, 3⟩ ∧
    scene.shared.desired = [webRecord] := by
  obtain ⟨p, scene, hrun, hdesired⟩ : ∃ p scene,
      (withdrawnSeason.publisher.visit (withdrawnSeason.store.children "/srv") 2).run 2 0
        ⟨withdrawnSeason.store, withdrawnSeason.roster, {}⟩ = (.finished (p, .ok ()), scene) ∧
      scene.shared.desired = [webRecord] := ⟨_, _, rfl, rfl⟩
  have hheard : (withdrawnSeason.publisher.visit (withdrawnSeason.store.children "/srv") 2).heard
      2 0 ⟨withdrawnSeason.store, withdrawnSeason.roster, {}⟩ =
      [⟨.create (Path.child "/srv" webRecord.nodeName) webRecord.encode .ephemeral, .ok ()⟩,
        ⟨.delete (Path.child "/srv" queueRecord.nodeName), .ok ()⟩] := rfl
  refine ⟨p, scene, hrun, ?_, hdesired⟩
  refine visits_converge (by decide) distinct_isWebOrQueue (by decide) ?_
    reachable_withdrawnSeason (by decide) hrun ?_
  · rintro r (rfl | rfl) <;> decide
  · rw [hheard]
    rintro e he ⟨r, error, -, -, rfl⟩
    simp at he

end Publisher

end ServiceRegistry
