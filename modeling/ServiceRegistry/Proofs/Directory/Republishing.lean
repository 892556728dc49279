import ServiceRegistry.Proofs.Catalog.Reuse
import ServiceRegistry.Proofs.Directory.Reading

/-! # Reuse and rebuilding

A visit that succeeds publishes the records that its payloads hold, in the order in which they were
taken (`Follower.publishes_of_ends`). So what it publishes stands in for the pools that would be
built of these records, whatever was published before (`Follower.visit_stands_in_for_rebuilding`).

It is not the same in all: a pool that is carried over counts a record that now stands under two
names only once, and it goes on to ask the twin that it asked before
(`Follower.carried_over_pool_differs`). -/

namespace ServiceRegistry

namespace Follower

variable {c c' : Catalog} {es : List Exchange} {penalty : Nat}

/-! ### Nodes that hold records -/

/-- The answers when a node is read that holds a record. -/
def answersOf (root : String) (node : String × Record) : List Exchange :=
  [⟨.beginRead (Path.child root node.1), .ok none⟩,
    ⟨.finishRead (Path.child root node.1), .ok node.2.encode⟩]

theorem read_answersOf (root : String) (nodes : List (String × Record)) :
    Record.Read (nodes.flatMap (answersOf root)) (nodes.map (·.2)) := by
  induction nodes with
  | nil => exact .nil
  | cons node nodes ih =>
      have hdecode := Record.decode_encode default node.2
      exact .other (fun data hdata => by cases hdata) (.record rfl hdecode ih)

theorem ends_begin (penalty : Nat) (root : String) (nodes : List (String × Record)) (h : Harvest)
    (c : Catalog) :
    (begin' penalty (nodes.map fun node => Path.child root node.1) [] h).Ends c
      (nodes.flatMap (answersOf root))
      ({ h with records := h.records ++ nodes.map (·.2) }, .ok []) c := by
  induction nodes generalizing h with
  | nil =>
      simp only [List.map_nil, List.append_nil]
      exact .done _ c
  | cons node nodes ih =>
      have hnode : (collect penalty (Path.child root node.1) h).Ends c
          [⟨.finishRead (Path.child root node.1), .ok node.2.encode⟩]
          ({ h with records := h.records ++ [node.2] }, .ok ()) c := by
        refine .call (.finishRead _) _ (.ok node.2.encode) ?_
        dsimp only
        rw [reap_encode]
        exact .fresh default _ (.done _ c)
      have hrest := ih { h with records := h.records ++ [node.2] }
      rw [List.append_assoc] at hrest
      exact .call (.beginRead _) _ (.ok none) (hnode.bind hrest)

/-- A visit to nodes that hold records publishes them. -/
theorem ends_visit (f : Follower) (hquarantine : f.quarantine = .empty)
    (nodes : List (String × Record)) (c : Catalog) :
    (f.visit (nodes.map (·.1))).Ends c (nodes.flatMap (answersOf f.root)) (f, .ok ())
      (c.publish f.layout (nodes.map (·.2))) := by
  have hpaths : (((nodes.map (·.1)).map (Path.child f.root)).filter
      fun p => !f.isQuarantined 0 p) = nodes.map fun node => Path.child f.root node.1 := by
    rw [List.filter_eq_self.mpr, List.map_map]
    · rfl
    · intro path _
      simp [isQuarantined, hquarantine]
  have hserving : (f.quarantine.filter fun _ until' => 0 < until') = .empty := by
    rw [hquarantine]
    rfl
  have hself : { f with quarantine := Dict.empty } = f := by rw [← hquarantine]
  refine .clock 0 _ ?_
  unfold visitAt
  dsimp only
  rw [hpaths, hserving]
  have hbegin := ends_begin f.penalty f.root nodes { quarantine := .empty } c
  rw [← List.append_nil (nodes.flatMap _)]
  refine hbegin.bind ?_
  refine .change _ _ ?_
  dsimp only
  rw [hself]
  exact .done _ _

/-! ### Reuse and rebuilding -/

/-- Whatever was published before, what a visit publishes stands in for the pools that would be
built of the records that it read; where no record is repeated and none has a twin they are the
same. -/
theorem visit_stands_in_for_rebuilding {f f' : Follower} {children : List String}
    (hc : c.IsBuilt f.layout) (hends : (f.visit children).Ends c es (f', .ok ()) c') :
    ∃ rs, Record.Read es rs ∧ c'.IsBuilt f.layout ∧ ∀ service,
      Option.Rel (Pool.StandsInFor f.layout) (c'.pool? service)
        (Catalog.rebuilt? f.layout rs service) ∧
      ((∀ pool, c.pool? service = some pool → pool.records.Nodup) →
        (rs.filter (·.name = service)).Nodup →
        (∀ kind, Ring.NoTwins (Pool.ofKind kind (rs.filter (·.name = service)))) →
        c'.pool? service = Catalog.rebuilt? f.layout rs service) := by
  obtain ⟨rs, hread, rfl⟩ := publishes_of_ends hends
  refine ⟨rs, hread, Catalog.isBuilt_publish hc rs, fun service => ⟨?_, ?_⟩⟩
  · exact Catalog.standsInFor_publish hc rs service
  · exact Catalog.pool?_publish hc

/-- Two services are read that were published before, in the other order. -/
theorem visit_stands_in_for_rebuilding_of_two :
    let a := queueAt "10.0.0.1"
    let b := { queueAt "10.0.0.2" with name := "topic", name_ne := by decide }
    let c := Catalog.publish .standard {} [b, a]
    ∃ es rs, (reader.visit ["a", "b"]).Ends c es (reader, .ok ()) (c.publish .standard [a, b]) ∧
      Record.Read es rs ∧ ∀ service, Option.Rel (Pool.StandsInFor .standard)
        ((c.publish .standard [a, b]).pool? service) (Catalog.rebuilt? .standard rs service) := by
  intro a b c
  have hends := ends_visit reader rfl [("a", a), ("b", b)] c
  obtain ⟨rs, hread, -, hstands⟩ := visit_stands_in_for_rebuilding
    (Catalog.isBuilt_publish (Catalog.isBuilt_empty reader.layout) [b, a]) hends
  exact ⟨_, rs, hends, hread, fun service => (hstands service).1⟩

/-- A record that now stands under two names is still counted once, and after twins changed places
every key leads to the one that it led to before. -/
theorem carried_over_pool_differs :
    (let a := queueAt "10.0.0.1"
      let c := Catalog.publish .standard {} [a]
      let c' := c.publish .standard [a, a]
      c.IsBuilt .standard ∧
        (∃ es, (reader.visit ["a", "b"]).Ends c es (reader, .ok ()) c' ∧ Record.Read es [a, a]) ∧
        (c'.pool? "queue").map (·.size) = some 1 ∧
        (Catalog.rebuilt? .standard [a, a] "queue").map (·.size) = some 2) ∧
    (let a := queueAt "10.0.0.1"
      let b := queueAt "10.0.0.2"
      let c := Catalog.publish .standard {} [b, a]
      let c' := c.publish .standard [a, b]
      let asked (pool : Pool) := (pool.ring? none 0).map fun ring => ring.get .standard "key"
      c.IsBuilt .standard ∧
        (∃ es, (reader.visit ["a", "b"]).Ends c es (reader, .ok ()) c' ∧ Record.Read es [a, b]) ∧
        (c'.pool? "queue").bind asked = some (.ok a) ∧
        (Catalog.rebuilt? .standard [a, b] "queue").bind asked = some (.ok b)) := by
  have hbuilt := fun rs => Catalog.isBuilt_publish (Catalog.isBuilt_empty .standard) rs
  have hfirst : ∀ rs : List Record, rs ≠ [] → (∀ r ∈ rs, r.name = "queue" ∧ r.kind = none) →
      (Catalog.publish .standard {} rs).pool? "queue" =
        some ⟨some "queue", some (.build .standard rs), .empty, rs.length⟩ := fun rs hne h =>
    (Catalog.pool?_publish_empty .standard rs "queue").trans
      (Catalog.rebuilt?_untyped .standard hne h)
  have hoffsets : Ring.Layout.standard.offsets ≠ [] := List.cons_ne_nil _ _
  refine ⟨?_, ?_⟩
  · intro a c c'
    have hold := hfirst [a] (by simp) (by simp [a, queueAt])
    have hsame : c'.pool? "queue" = _ := Catalog.pool?_publish_of_same hold (by simp [a, queueAt])
      fun r => by simp [Pool.records, Pool.rings, Ring.mem_records_build, Dict.empty, a, queueAt]
    refine ⟨hbuilt [a], ⟨_, ends_visit reader rfl [("a", a), ("b", a)] c,
      read_answersOf _ [("a", a), ("b", a)]⟩, by rw [hsame]; rfl, ?_⟩
    rw [Catalog.rebuilt?_untyped .standard (by simp) (by simp [a, queueAt])]
    rfl
  · intro a b c c' asked
    have hid : a.id = b.id := rfl
    have hold := hfirst [b, a] (by simp) (by simp [a, b, queueAt])
    have hsame : c'.pool? "queue" = _ := Catalog.pool?_publish_of_same hold
      (by simp [a, b, queueAt]) fun r => by
        simp [Pool.records, Pool.rings, Ring.mem_records_build, Dict.empty, a, b, queueAt, or_comm]
    refine ⟨hbuilt [b, a], ⟨_, ends_visit reader rfl [("a", a), ("b", b)] c,
      read_answersOf _ [("a", a), ("b", b)]⟩, ?_, ?_⟩
    · rw [hsame]
      exact congrArg some (Ring.get_build_of_twins hid.symm hoffsets "key")
    · rw [Catalog.rebuilt?_untyped .standard (by simp) (by simp [a, b, queueAt])]
      exact congrArg some (Ring.get_build_of_twins hid hoffsets "key")

end Follower

end ServiceRegistry
