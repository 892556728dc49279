import ServiceRegistry.Directory.Follower
import ServiceRegistry.Proofs.Announcing.Visits
import ServiceRegistry.Proofs.Record.RoundTrip
import ServiceRegistry.Proofs.Store.Watches

/-! # Directories of records

A directory is tidy if every node right below it holds one of the records of a run under the name of
that record (`Store.Tidy`). Any deed keeps it so that makes no other node there
(`Store.Tidy.perform`).

The children of a tidy directory are the names of some records (`Store.Tidy.exists_records`). As
long as they stay the same, no other node can have been made, and what is read of a node is its
record (`Store.Tidy.create_of_unlisted`, `Store.Tidy.finishRead_of_listed`). -/

namespace ServiceRegistry

namespace Store

open Publisher (Distinct)

variable {used : Record → Prop} {root : String} {s s' : Store}

/-! ### Deeds -/

/-- Every node below the root holds its record, no failure is injected and reads take no time. -/
structure Tidy (used : Record → Prop) (root : String) (s : Store) : Prop where
  nodes : ∀ path node, s.nodes.find? path = some node → Path.parent path = root →
    ∃ r, used r ∧ path = Path.child root r.nodeName ∧ node.data = r.encode
  failures_eq : s.failures = []
  readDelay_eq : s.readDelay = 0

/-- The deed makes no node below the root but for one of the records, and it neither injects
failures nor delays reads. -/
def Deed.Suits (used : Record → Prop) (root : String) : Deed → Prop
  | .put path _ => ∀ p ∈ path :: Path.chain (Path.elements path), Path.parent p ≠ root
  | .failNext _ _ => False
  | .delayReads _ => False
  | .serve _ (.create path data _) =>
      ∃ r, used r ∧ path = Path.child root r.nodeName ∧ data = r.encode
  | _ => True

/-- A put reaches no nodes but those on the way to its path. -/
theorem find?_put_of_not_mem (s : Store) {path : String} {data : Bytes} {p : String}
    (h : p ∉ path :: Path.chain (Path.elements path)) :
    (s.put path data).nodes.find? p = s.nodes.find? p := by
  have hway : ∀ (paths : List String) (s : Store), p ∉ paths →
      (paths.foldl ensure s).nodes.find? p = s.nodes.find? p := by
    intro paths
    induction paths with
    | nil => exact fun s _ => rfl
    | cons first paths ih =>
        intro s hp
        obtain ⟨hne, hp⟩ := List.ne_and_not_mem_of_not_mem_cons hp
        rw [List.foldl_cons, ih _ hp, ensure]
        split
        · rfl
        · simp [Ne.symm hne]
  obtain ⟨hne, hp⟩ := List.ne_and_not_mem_of_not_mem_cons h
  unfold put
  dsimp only
  split
  · rw [Dict.find?_insert, if_neg (Ne.symm hne)]
    exact hway _ s hp
  · exact hway _ s hp

namespace Tidy

/-- Nodes below the root may go. -/
theorem of_nodes (h : Tidy used root s) (hm : Milder s s')
    (hnodes : ∀ path, Path.parent path = root →
      s'.nodes.find? path = s.nodes.find? path ∨ s'.nodes.find? path = none) :
    Tidy used root s' where
  nodes path node hfind hp := by
    rcases hnodes path hp with hsame | hnone
    · exact h.nodes path node (hsame ▸ hfind) hp
    · cases hnone.symm.trans hfind
  failures_eq := List.eq_nil_of_subset_nil (h.failures_eq ▸ hm.failures_subset)
  readDelay_eq := hm.readDelay_eq.trans h.readDelay_eq

theorem alike (h : Tidy used root s) (ha : Alike s s') : Tidy used root s' :=
  h.of_nodes (.of_alike ha) fun path _ => .inl (by rw [ha.nodes_eq])

theorem drop (h : Tidy used root s) (path : String) : Tidy used root (s.drop path) := by
  refine h.of_nodes (.of_eq rfl rfl) fun p _ => ?_
  rw [nodes_drop, Dict.find?_erase]
  split
  · exact .inr rfl
  · exact .inl rfl

theorem serve (h : Tidy used root s) {id : SessionId} {r : Request}
    (hr : (Deed.serve id r).Suits used root) : Tidy used root (s.serve id r).2 := by
  cases r with
  | list path watching =>
      refine h.of_nodes (s.milder_serve id _) fun p _ => .inl ?_
      rcases s.list_cases id path watching with ⟨_, s', hc, ha⟩ | ⟨s', hc, ha, -⟩
      · rw [Store.serve, hc, ha.nodes_eq]
      · rw [Store.serve, hc]
        cases watching with
        | false => exact ha.nodes_eq ▸ rfl
        | true => simp [ha.nodes_eq]
  | beginRead path =>
      rcases s.beginRead_cases id path with ⟨_, s', hc, ha, -⟩ | ⟨s', hc, ha, -⟩
      all_goals
        rw [Store.serve, hc]
        exact h.alike ha
  | finishRead path => exact h
  | probe path =>
      rcases s.probe_cases id path with ⟨_, s', hc, ha⟩ | ⟨s', hc, ha, -⟩
      all_goals
        rw [Store.serve, hc]
        exact h.alike ha
  | create path data mode =>
      rcases s.create_cases id path data mode with ⟨_, s', hc, ha, -⟩ | ⟨s', hc, ha, -⟩
      · rw [Store.serve, hc]
        exact h.alike ha
      · rw [Store.serve, hc]
        have hs' := h.alike ha
        refine ⟨fun p node hfind hp => ?_, hs'.failures_eq, hs'.readDelay_eq⟩
        rw [nodes_grow, Dict.find?_insert] at hfind
        split at hfind
        · next hpath =>
          obtain ⟨r, hused, hr, hdata⟩ := hr
          cases hfind
          exact ⟨r, hused, hpath ▸ hr, hdata⟩
        · exact hs'.nodes p node hfind hp
  | delete path =>
      rcases s.delete_cases id path with ⟨_, s', hc, ha, -⟩ | ⟨s', hc, ha, -⟩
      · rw [Store.serve, hc]
        exact h.alike ha
      · rw [Store.serve, hc]
        exact (h.alike ha).drop path

theorem perform (h : Tidy used root s) {d : Deed} (hd : d.Suits used root) :
    Tidy used root (s.perform d) := by
  by_cases hw : d.MayWrite
  · cases d with
    | put path data =>
        refine h.of_nodes (s.milder_put path data) fun p hp => .inl ?_
        exact s.find?_put_of_not_mem fun hmem => hd p hmem hp
    | remove path =>
        simp only [Store.perform, remove]
        split
        · exact h.drop path
        · exact h
    | serve id r => exact h.serve hd
    | _ => exact hw.elim
  · refine h.of_nodes (s.milder_perform ?_ ?_) fun p _ => s.find?_perform_of_not_mayWrite hw p
    · rintro call code rfl
      exact hd
    · rintro ms rfl
      exact hd

theorem byDeeds (h : Tidy used root s) {p : Deed → Prop} (hdeeds : ByDeeds p s s')
    (hp : ∀ d, p d → d.Suits used root) : Tidy used root s' :=
  hdeeds.invariant (fun _ d hd ht => ht.perform (hp d hd)) h

/-! ### Children -/

variable (h : Tidy used root s) (hroot : Path.IsDirectory root)
include h hroot

/-- The children of a tidy directory are the names of some records. -/
theorem exists_records : ∃ rs : List Record, s.children root = rs.map (·.nodeName) ∧
    ∀ r ∈ rs, used r ∧ s.data? (Path.child root r.nodeName) = some r.encode := by
  have hnames : ∀ name ∈ s.children root, ∃ r, r.nodeName = name ∧ used r ∧
      s.data? (Path.child root r.nodeName) = some r.encode := by
    intro name hname
    obtain ⟨hn, hc⟩ := (s.mem_children_iff hroot).mp hname
    obtain ⟨node, hfind⟩ := Option.isSome_iff_exists.mp hc
    obtain ⟨r, hused, hpath, hdata⟩ := h.nodes _ node hfind (Path.parent_child hroot.1 hn)
    obtain rfl := Path.child_injective hpath
    exact ⟨r, rfl, hused, by simp [data?, hfind, hdata]⟩
  generalize s.children root = names at hnames
  induction names with
  | nil => exact ⟨[], rfl, fun r hr => by cases hr⟩
  | cons name names ih =>
      obtain ⟨r, rfl, hr⟩ := hnames name (by simp)
      obtain ⟨rs, rfl, hrs⟩ := ih fun name hname => hnames name (List.mem_cons_of_mem _ hname)
      refine ⟨r :: rs, rfl, fun r' hr' => ?_⟩
      rcases List.mem_cons.mp hr' with rfl | hr'
      · exact hr
      · exact hrs r' hr'

omit hroot in
/-- The payload of a node below the root is that of a record. -/
theorem encode_of_data? {path : String} (hp : Path.parent path = root) {data : Bytes}
    (hdata : s.data? path = some data) :
    ∃ r, used r ∧ path = Path.child root r.nodeName ∧ data = r.encode := by
  simp only [data?, Option.map_eq_some_iff] at hdata
  obtain ⟨node, hfind, rfl⟩ := hdata
  exact h.nodes path node hfind hp

/-- A listed node holds its record. -/
theorem data?_of_listed (hd : Distinct used) {r : Record} (hr : used r)
    (hlisted : r.nodeName ∈ s.children root) :
    s.data? (Path.child root r.nodeName) = some r.encode := by
  obtain ⟨hn, hc⟩ := (s.mem_children_iff hroot).mp hlisted
  obtain ⟨node, hfind⟩ := Option.isSome_iff_exists.mp hc
  have hdata : s.data? (Path.child root r.nodeName) = some node.data := by simp [data?, hfind]
  obtain ⟨r', hused, hpath, hdata'⟩ := h.encode_of_data? (Path.parent_child hroot.1 hn) hdata
  have hr' : r = r' := hd.injective r r' hr hused (Path.child_injective hpath)
  rw [hdata, hdata', hr']

/-- A listed node is read as its record. -/
theorem finishRead_of_listed (hd : Distinct used) {r : Record} (hr : used r)
    (hlisted : r.nodeName ∈ s.children root) :
    s.finishRead (Path.child root r.nodeName) = .ok r.encode := by
  rw [finishRead, h.data?_of_listed hroot hd hr hlisted]

/-- A node that is not listed is made, which changes the list, or the call fails. -/
theorem create_of_unlisted {id : SessionId} {name : String} (hn : Path.IsName name) {data : Bytes}
    {mode : Mode} (hlisted : name ∉ s.children root)
    (hsame : (s.create id (Path.child root name) data mode).2.children root = s.children root) :
    ∃ e, (s.create id (Path.child root name) data mode).1 = .error e ∧ e.isNodeExists = false := by
  have hhas : s.has (Path.child root name) = false := by
    rw [s.mem_children_iff_has hroot hn] at hlisted
    exact Bool.eq_false_iff.mpr hlisted
  rcases s.create_cases id (Path.child root name) data mode with
    ⟨code, s', hc, -, hwhy⟩ | ⟨s', hc, -, -⟩
  · refine ⟨⟨code, Path.child root name⟩, by rw [hc], ?_⟩
    rcases hwhy with hrefuses | ⟨-, hthere⟩ | ⟨rfl, -⟩
    · rcases hrefuses with ⟨-, rfl⟩ | ⟨-, -, -, rfl⟩ | hinjected
      · rfl
      · rfl
      · rw [h.failures_eq] at hinjected
        cases hinjected
    · cases hhas.symm.trans hthere
    · rfl
  · rw [hc] at hsame
    refine absurd ?_ hlisted
    rw [← hsame]
    exact (mem_children_iff _ hroot).mpr ⟨hn, by simp [Dict.contains]⟩

omit hroot in
/-- Reads take no time, and none fails but with its session. -/
theorem beginRead_answer (id : SessionId) (path : String) :
    (s.beginRead id path).1 = .ok none ∨
      ∃ e, (s.beginRead id path).1 = .error e ∧ Follower.isFatal e = true := by
  rcases s.beginRead_cases id path with ⟨code, s', hc, -, hwhy⟩ | ⟨s', hc, -⟩
  · refine .inr ⟨⟨code, path⟩, by rw [hc], ?_⟩
    rcases hwhy with ⟨-, rfl⟩ | ⟨-, -, -, rfl⟩ | hinjected
    · rfl
    · rfl
    · rw [h.failures_eq] at hinjected
      cases hinjected
  · rw [hc]
    exact .inl (by simp [h.readDelay_eq])

end Tidy

end Store

end ServiceRegistry
