import ServiceRegistry.Proofs.Catalog.Partition
import ServiceRegistry.Proofs.Client.Pinning
import ServiceRegistry.Proofs.Directory.Republishing

/-! # What lookups find

A lookup succeeds exactly if the service has a pool and the pool has a ring for the request, its own
or one that stands in (`Pool.HasRing`). Then the instance that is found was read under the name of
the service, and has the type that the request asks for, as far as there is one
(`Client.lookups_are_exact`).

This rests on what visits leave in a catalogue: the pools of the records that the last visit read
that succeeded, whatever came before (`Follower.Visited`). No such pool has an empty ring, so what a
ring without records would answer is never seen. -/

namespace ServiceRegistry

/-! ### Visits -/

/-- A catalogue after visits of followers, with the answers that the last visit got that
succeeded. -/
inductive Follower.Visited (layout : Ring.Layout) : List Exchange → Catalog → Prop
  | start (isOpen : Bool) : Visited layout [] { isOpen }
  | published {f f' : Follower} {children : List String} {es es' : List Exchange} {c c' : Catalog}
      (before : Visited layout es c) (same : f.layout = layout)
      (visit : (f.visit children).Ends c es' (f', .ok ()) c') : Visited layout es' c'
  | failed {f f' : Follower} {children : List String} {es es' : List Exchange} {c c' : Catalog}
      {e : StoreError} (before : Visited layout es c)
      (visit : (f.visit children).Ends c es' (f', .error e) c') : Visited layout es c'

/-- The catalogue shows what was read, and its pools are built of it. -/
theorem Follower.Visited.spec {layout : Ring.Layout} {es : List Exchange} {c : Catalog}
    (h : Visited layout es c) : c.IsBuilt layout ∧ ∃ rs, Record.Read es rs ∧ c.Shows rs := by
  induction h with
  | start isOpen =>
      refine ⟨fun _ _ hpool => (by cases hpool), [], .nil, fun service => ?_, fun _ _ hpool => ?_⟩
      · exact ⟨fun hsome => (by cases hsome), fun ⟨_, hr, _⟩ => (by cases hr)⟩
      · cases hpool
  | published _ same visit ih =>
      obtain ⟨rs, hread, rfl⟩ := publishes_of_ends visit
      refine ⟨?_, rs, hread, Catalog.shows_publish _ _ rs⟩
      exact same ▸ Catalog.isBuilt_publish (same ▸ ih.1) rs
  | failed _ visit ih =>
      cases visit with
      | clock now _ rest =>
          rw [(visits_of_ends rest).2.2 _ rfl]
          exact ih

/-! ### Rings -/

namespace Pool

variable {layout : Ring.Layout} {rs : List Record} {pool : Pool} {kind : Option String}

/-- Does the pool have a ring for a request? For a type, its own or the one without type; for no
type, the one without type or any. -/
def HasRing (pool : Pool) : Option String → Prop
  | some t => (pool.typed.find? t).isSome ∨ pool.untyped.isSome
  | none => pool.untyped.isSome ∨ pool.typed.entries ≠ []

/-- A pool has a ring for a request exactly if some of its records serve the request. -/
theorem IsOf.hasRing_iff (h : IsOf layout rs pool) : pool.HasRing kind ↔ ∃ k, Serves rs kind k := by
  have hring : ∀ k, (pool.ofType? k).isSome = true ↔ ofKind k rs ≠ [] := by
    intro k
    rw [h.ofType?_eq k]
    split <;> simp [*]
  have huntyped : pool.untyped.isSome = true ↔ ofKind none rs ≠ [] := hring none
  cases kind with
  | some t =>
      have htyped : (pool.typed.find? t).isSome = true ↔ ofKind (some t) rs ≠ [] := hring (some t)
      rw [HasRing, htyped, huntyped]
      constructor
      · intro hhas
        by_cases hown : ofKind (some t) rs = []
        · exact ⟨none, hhas.resolve_left fun hne => hne hown, .inr ⟨hown, .inr rfl⟩⟩
        · exact ⟨some t, hown, .inl rfl⟩
      · rintro ⟨k, hthere, rfl | ⟨-, hkind | rfl⟩⟩
        · exact .inl hthere
        · cases hkind
        · exact .inr hthere
  | none =>
      have htyped : pool.typed.entries ≠ [] ↔ ∃ t, ofKind (some t) rs ≠ [] := by
        constructor
        · intro hne
          obtain ⟨⟨t, ring⟩, hentry⟩ := List.exists_mem_of_ne_nil _ hne
          refine ⟨t, (hring (some t)).mp ?_⟩
          rw [ofType?, pool.typed.mem_entries_iff.mp hentry]
          rfl
        · rintro ⟨t, hne⟩ hnil
          obtain ⟨ring, hfind⟩ := Option.isSome_iff_exists.mp ((hring (some t)).mpr hne)
          have hentry := pool.typed.mem_entries_iff.mpr hfind
          rw [hnil] at hentry
          cases hentry
      rw [HasRing, huntyped, htyped]
      constructor
      · intro hhas
        by_cases hown : ofKind none rs = []
        · obtain ⟨t, ht⟩ := hhas.resolve_left fun hne => hne hown
          exact ⟨some t, ht, .inr ⟨hown, .inl rfl⟩⟩
        · exact ⟨none, hown, .inl rfl⟩
      · rintro ⟨_ | t, hthere, -⟩
        · exact .inl hthere
        · exact .inr ⟨t, hthere⟩

end Pool

/-! ### Lookups -/

namespace Client

open Pool (Serves)

variable {c : Client} {rs : List Record} {service : String} {kind : Option String} {draw : Draw}
  {n : Nat}

section

variable (hbuilt : c.catalog.IsBuilt c.layout) (hshows : c.catalog.Shows rs)
include hbuilt hshows

/-- A service is known by a pool of its records, unless it has none. -/
theorem pool_of_shows (service : String) :
    (∃ pool own, c.catalog.pool? service = some pool ∧ Pool.IsOf c.layout own pool ∧
        ∀ r, r ∈ own ↔ r ∈ rs.filter (·.name = service)) ∨
      c.catalog.pool? service = none ∧ rs.filter (·.name = service) = [] := by
  cases hpool : c.catalog.pool? service with
  | some pool =>
      obtain ⟨own, hbuild⟩ := hbuilt service pool hpool
      have hof := Pool.isOf_build hbuild
      refine .inl ⟨pool, own, rfl, hof, fun r => ?_⟩
      rw [← hof.records_perm.mem_iff, hshows.mem_iff service pool hpool]
      simp
  | none =>
      refine .inr ⟨rfl, List.filter_eq_nil_iff.mpr fun r hr hname => ?_⟩
      have hsome := (hshows.knows_iff service).mpr ⟨r, hr, of_decide_eq_true hname⟩
      rw [hpool] at hsome
      cases hsome

theorem hasRing_iff_serves : (∃ pool, c.catalog.pool? service = some pool ∧ pool.HasRing kind) ↔
    ∃ k, Serves (rs.filter (·.name = service)) kind k := by
  rcases pool_of_shows hbuilt hshows service with ⟨pool, own, hpool, hof, hsame⟩ | ⟨hpool, hnil⟩
  · simp only [hpool, Option.some.injEq, exists_eq_left', hof.hasRing_iff]
    exact exists_congr fun k =>
      ⟨fun hs => hs.congr hsame, fun hs => hs.congr fun r => (hsame r).symm⟩
  · rw [hpool, hnil]
    constructor
    · rintro ⟨_, hpool, -⟩
      cases hpool
    · rintro ⟨k, hs⟩
      exact absurd rfl hs.there

/-- A request leads to a ring of records of the service that serve it, if there are any. -/
theorem ring?_cases (hdraw : n ∈ c.ringDraws service) (kind : Option String) :
    (∃ k own, Serves (rs.filter (·.name = service)) kind k ∧
        (∀ r, r ∈ own ↔ r ∈ rs.filter (·.name = service)) ∧ Pool.ofKind k own ≠ [] ∧
        c.ring? service kind n = some (.build c.layout (Pool.ofKind k own))) ∨
      (∀ k, ¬Serves (rs.filter (·.name = service)) kind k) ∧ c.ring? service kind n = none := by
  rcases pool_of_shows hbuilt hshows service with ⟨pool, own, hpool, hof, hsame⟩ | ⟨hpool, hnil⟩
  · have hlt : n < max 1 own.length := by
      rw [ringDraws, hpool] at hdraw
      simpa [hof.size_eq] using hdraw
    rcases hof.ring?_cases hlt kind with ⟨k, hs, hring⟩ | ⟨hring, hnone⟩
    · have hsize : (Ring.build c.layout (Pool.ofKind k own)).size ≠ 0 := fun hzero =>
        hs.there ((Ring.records_build_eq_nil_iff _ _).mp (List.length_eq_zero_iff.mp hzero))
      refine .inl ⟨k, own, hs.congr hsame, hsame, hs.there, ?_⟩
      rw [ring?, hpool, Option.bind_some, hring, Option.filter_some, if_pos (by simpa using hsize)]
    · refine .inr ⟨fun k hs => hnone k (hs.congr fun r => (hsame r).symm), ?_⟩
      rw [ring?, hpool, Option.bind_some, hring]
      rfl
  · refine .inr ⟨fun k hs => hs.there (by rw [hnil]; rfl), ?_⟩
    rw [ring?, hpool]
    rfl

theorem findAllOfKind_eq_nil_iff (hdraw : n ∈ c.ringDraws service) :
    c.findAllOfKind service kind n = [] ↔ ∀ k, ¬Serves (rs.filter (·.name = service)) kind k := by
  rcases ring?_cases hbuilt hshows hdraw kind with ⟨k, own, hs, -, hne, hring⟩ | ⟨hnone, hring⟩
  · rw [findAllOfKind, hring]
    exact iff_of_false (fun hnil => hne ((Ring.records_build_eq_nil_iff _ _).mp hnil))
      fun hnone => hnone k hs
  · rw [findAllOfKind, hring]
    exact iff_of_true rfl hnone

variable (hoffsets : c.layout.offsets ≠ [])
include hoffsets

/-- A lookup finds a record of the service that serves the request, or says that there is none. -/
theorem find_cases_of_shows (hdraw : draw.ring ∈ c.ringDraws service) (kind : Option String)
    (hints : List Hint) :
    (∃ r ∈ rs, r.name = service ∧ Serves (rs.filter (·.name = service)) kind r.kind ∧
        c.find service kind hints draw = .ok r) ∨
      (∀ k, ¬Serves (rs.filter (·.name = service)) kind k) ∧
        c.find service kind hints draw = .error (.notFound (Record.describe service kind)) := by
  rcases ring?_cases hbuilt hshows hdraw kind with ⟨k, own, hs, hsame, hne, hring⟩ | ⟨hnone, hring⟩
  · obtain ⟨r, hr, hget⟩ := Ring.exists_get_build hoffsets hne ((hashKey? hints).getD draw.key)
    obtain ⟨hown, rfl⟩ := Pool.mem_ofKind.mp hr
    obtain ⟨hmem, hname⟩ := List.mem_filter.mp ((hsame r).mp hown)
    refine .inl ⟨r, hmem, of_decide_eq_true hname, hs, ?_⟩
    simp only [find, hring, hget]
  · refine .inr ⟨hnone, ?_⟩
    rw [find, hring]

omit hshows in
/-- No ring of a pool is empty, so each serves every key. -/
theorem get_ne_error {pool : Pool} (hpool : c.catalog.pool? service = some pool) {ring : Ring}
    (hring : ring ∈ pool.rings) (key : String) : ring.get c.layout key ≠ .error .empty := by
  obtain ⟨own, hbuild⟩ := hbuilt service pool hpool
  obtain ⟨k, hne, rfl⟩ := (Pool.isOf_build hbuild).mem_rings_iff.mp hring
  obtain ⟨r, -, hget⟩ := Ring.exists_get_build hoffsets hne key
  rw [hget]
  exact fun heq => by cases heq

end

/-- After any visits a lookup succeeds exactly if the service is known by a pool that has a ring for
the request. What it finds was read under the name of the service by the last visit that succeeded,
and it is of the type asked for; or without a type, if none is of that type; or of any type, if none
was asked for and no instance is without. It fails in one way only, and then, and only then, no
instances are listed for the request. -/
theorem lookups_are_exact {es : List Exchange}
    (hvisited : Follower.Visited c.layout es c.catalog) (hoffsets : c.layout.offsets ≠ []) :
    ∃ rs, Record.Read es rs ∧ ∀ service kind hints, ∀ draw : Draw,
      draw.ring ∈ c.ringDraws service →
      ((∃ r, c.find service kind hints draw = .ok r) ↔
        ∃ pool, c.catalog.pool? service = some pool ∧ pool.HasRing kind) ∧
      (∀ r, c.find service kind hints draw = .ok r →
        r ∈ rs ∧ r.name = service ∧ Serves (rs.filter (·.name = service)) kind r.kind) ∧
      (∀ e, c.find service kind hints draw = .error e →
        e = .notFound (Record.describe service kind)) ∧
      (∀ pool, c.catalog.pool? service = some pool → ∀ ring ∈ pool.rings, ∀ key,
        ring.get c.layout key ≠ .error .empty) ∧
      ∀ n ∈ c.ringDraws service,
        c.findAllOfKind service kind n = [] ↔ ∃ e, c.find service kind hints draw = .error e := by
  obtain ⟨hbuilt, rs, hread, hshows⟩ := hvisited.spec
  refine ⟨rs, hread, fun service kind hints draw hdraw => ?_⟩
  rw [hasRing_iff_serves hbuilt hshows]
  have hnever : ∀ pool, c.catalog.pool? service = some pool → ∀ ring ∈ pool.rings, ∀ key,
      ring.get c.layout key ≠ .error .empty := fun pool hpool ring hring key =>
    get_ne_error hbuilt hoffsets hpool hring key
  have hlist : ∀ n ∈ c.ringDraws service, c.findAllOfKind service kind n = [] ↔ _ := fun n hn =>
    findAllOfKind_eq_nil_iff hbuilt hshows hn
  rcases find_cases_of_shows hbuilt hshows hoffsets hdraw kind hints with
    ⟨r, hr, hname, hs, hfind⟩ | ⟨hnone, hfind⟩
  · refine ⟨⟨fun _ => ⟨_, hs⟩, fun _ => ⟨r, hfind⟩⟩, ?_, ?_, hnever, fun n hn => ?_⟩
    · rintro r' hfind'
      obtain rfl := Except.ok.inj (hfind.symm.trans hfind')
      exact ⟨hr, hname, hs⟩
    · intro e herror
      cases hfind.symm.trans herror
    · rw [hlist n hn]
      refine iff_of_false (fun hnone => hnone _ hs) ?_
      rintro ⟨e, herror⟩
      cases hfind.symm.trans herror
  · refine ⟨iff_of_false ?_ fun ⟨k, hs⟩ => hnone k hs, ?_, ?_, hnever, fun n hn => ?_⟩
    · rintro ⟨r, hok⟩
      cases hfind.symm.trans hok
    · intro r hok
      cases hfind.symm.trans hok
    · intro e herror
      exact (Except.error.inj (hfind.symm.trans herror)).symm
    · rw [hlist n hn]
      exact iff_of_true hnone ⟨_, hfind⟩

/-- One of two instances has no type, so it stands in for a type that none has. -/
theorem lookups_are_exact_of_two :
    let c := knowing [queueOver (some "amqp") [], queueOver none [1]]
    ∃ r, c.find "queue" (some "mqtt") [] { ring := 1 } = .ok r ∧ r.name = "queue" ∧
      c.findAllOfKind "queue" (some "mqtt") 0 ≠ [] := by
  intro c
  let nodes := [("a", queueOver (some "amqp") []), ("b", queueOver none [1])]
  have hvisited : Follower.Visited c.layout _ c.catalog :=
    .published (.start false) rfl (Follower.ends_visit Follower.reader rfl nodes {})
  have hshows : c.catalog.Shows (nodes.map (·.2)) := Catalog.shows_publish _ _ _
  have hdraws : c.ringDraws "queue" = [0, 1] := ringDraws_knowing (by decide)
  obtain ⟨rs, -, h⟩ := lookups_are_exact hvisited (List.cons_ne_nil _ _)
  obtain ⟨hok, hfound, -, -, hlist⟩ :=
    h "queue" (some "mqtt") [] { ring := 1 } (by rw [hdraws]; decide)
  obtain ⟨r, hfind⟩ := hok.mpr ((hasRing_iff_serves (isBuilt_knowing _) hshows).mpr
    ⟨none, by decide, .inr ⟨by decide, .inr rfl⟩⟩)
  refine ⟨r, hfind, (hfound r hfind).2.1, fun hnil => ?_⟩
  obtain ⟨e, herror⟩ := (hlist 0 (by rw [hdraws]; decide)).mp hnil
  cases hfind.symm.trans herror

end Client

end ServiceRegistry
