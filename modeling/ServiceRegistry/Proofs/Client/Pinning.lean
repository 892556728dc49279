import ServiceRegistry.Client
import ServiceRegistry.Proofs.Catalog.Serving
import ServiceRegistry.Proofs.Ring.Removal

/-! # Lookups with a hash hint

A lookup with a hash hint leaves nothing but the ring to the draws (`Client.find_cases`). So unless
the request is for no type and the instances leave a choice of types, all clients that know the same
instances give the same answer, whatever they draw (`Client.find_of_hash_hint`). If there is a
choice, the draw decides for one of the types, and the answer is that to a request for this type. -/

namespace ServiceRegistry.Client

open Pool (Serves LeavesChoice)

variable {c c' : Client} {service : String} {kind k : Option String} {hints : List Hint}
  {key : String} {draw draw' : Draw} {r : Record}

theorem exists_hashKey (h : ∃ key, Hint.hash key ∈ hints) : ∃ key, hashKey? hints = some key := by
  obtain ⟨key, hkey⟩ := h
  rw [← Option.isSome_iff_exists, hashKey?, List.findSome?_isSome_iff]
  exact ⟨.hash key, hkey, rfl⟩

/-! ### One client -/

section

variable (hbuilt : c.catalog.IsBuilt c.layout) (htwins : Ring.NoTwins (c.findAll service))
  (hoffsets : c.layout.offsets ≠ []) (hkey : hashKey? hints = some key)

include hbuilt in
/-- A service is known by a pool of its instances, unless it has none. -/
theorem pool_cases (service : String) :
    (∃ pool rs, c.catalog.pool? service = some pool ∧ Pool.IsOf c.layout rs pool ∧
        ∀ r, r ∈ rs ↔ r ∈ c.findAll service) ∨
      c.catalog.pool? service = none ∧ c.findAll service = [] := by
  rw [findAll]
  cases hpool : c.catalog.pool? service with
  | none => exact .inr ⟨rfl, rfl⟩
  | some pool =>
      obtain ⟨rs, hbuild⟩ := hbuilt service pool hpool
      have hof := Pool.isOf_build hbuild
      exact .inl ⟨pool, rs, rfl, hof, fun r => hof.records_perm.mem_iff.symm⟩

include htwins hoffsets hkey

/-- A ring of instances that serve a request has one that serves the key. -/
theorem find_of_ring? (hs : Serves (c.findAll service) kind k) {pool : Pool} {rs : List Record}
    (hpool : c.catalog.pool? service = some pool) (hsame : ∀ r, r ∈ rs ↔ r ∈ c.findAll service)
    (hring : pool.ring? kind draw.ring = some (.build c.layout (Pool.ofKind k rs))) :
    ∃ r, (Ring.build c.layout (Pool.ofKind k (c.findAll service))).get c.layout key = .ok r ∧
      r.kind = k ∧ c.find service kind hints draw = .ok r := by
  have hget := Pool.get_ofKind_eq c.layout hsame htwins k key
  obtain ⟨r, hr, hserved⟩ := Ring.exists_get_build hoffsets hs.there key
  have hsize : (Ring.build c.layout (Pool.ofKind k rs)).size ≠ 0 := by
    have hmem : r ∈ Pool.ofKind k rs := by
      rw [Pool.mem_ofKind] at hr ⊢
      exact ⟨(hsame r).mpr hr.1, hr.2⟩
    exact Nat.ne_of_gt (List.length_pos_of_mem ((Ring.mem_records_build _ _ r).mpr hmem))
  refine ⟨r, hserved, (Pool.mem_ofKind.mp hr).2, ?_⟩
  rw [find, ring?, hpool, Option.bind_some, hring, Option.filter_some,
    if_pos (by simpa using hsize)]
  simp only [hkey, Option.getD_some, hget, hserved]

include hbuilt

/-- A request is answered with who serves the key among instances that serve the request; it fails
if there are none. -/
theorem find_cases (hdraw : draw.ring ∈ c.ringDraws service) (kind : Option String) :
    (∃ k r, Serves (c.findAll service) kind k ∧
        (Ring.build c.layout (Pool.ofKind k (c.findAll service))).get c.layout key = .ok r ∧
        r.kind = k ∧ c.find service kind hints draw = .ok r) ∨
      (∀ k, ¬Serves (c.findAll service) kind k) ∧
        c.find service kind hints draw = .error (.notFound (Record.describe service kind)) := by
  rcases pool_cases hbuilt service with ⟨pool, rs, hpool, hof, hsame⟩ | ⟨hpool, hnil⟩
  · have hlt : draw.ring < max 1 rs.length := by
      rw [ringDraws, hpool] at hdraw
      simpa [hof.size_eq] using hdraw
    rcases hof.ring?_cases hlt kind with ⟨k, hs, hring⟩ | ⟨hring, hnone⟩
    · have hs := hs.congr hsame
      obtain ⟨r, hserved, hkind, hfind⟩ :=
        find_of_ring? htwins hoffsets hkey hs hpool hsame hring
      exact .inl ⟨k, r, hs, hserved, hkind, hfind⟩
    · refine .inr ⟨fun k hs => hnone k (hs.congr fun r => (hsame r).symm), ?_⟩
      rw [find, ring?, hpool, Option.bind_some, hring]
      rfl
  · refine .inr ⟨fun k hs => hs.there (by rw [hnil]; rfl), ?_⟩
    rw [find, ring?, hpool]
    rfl

/-- Some draw leads to each type of instances that serve a request. -/
theorem exists_draw (hs : Serves (c.findAll service) kind k) :
    ∃ draw : Draw, draw.ring ∈ c.ringDraws service ∧
      ∃ r, (Ring.build c.layout (Pool.ofKind k (c.findAll service))).get c.layout key = .ok r ∧
        r.kind = k ∧ c.find service kind hints draw = .ok r := by
  rcases pool_cases hbuilt service with ⟨pool, rs, hpool, hof, hsame⟩ | ⟨hpool, hnil⟩
  · obtain ⟨n, hlt, hring⟩ := hof.exists_draw (hs.congr fun r => (hsame r).symm)
    refine ⟨{ ring := n }, ?_, find_of_ring? htwins hoffsets hkey hs hpool hsame hring⟩
    rw [ringDraws, hpool]
    simpa [hof.size_eq] using hlt
  · exact absurd (by rw [hnil]; rfl) hs.there

end

/-! ### Two clients -/

section

variable (hlayout : c'.layout = c.layout) (hoffsets : c.layout.offsets ≠ [])
  (hbuilt : c.catalog.IsBuilt c.layout) (hbuilt' : c'.catalog.IsBuilt c'.layout)
  (hsame : ∀ r, r ∈ c.findAll service ↔ r ∈ c'.findAll service)
  (htwins : Ring.NoTwins (c.findAll service)) (hkey : hashKey? hints = some key)

include hsame htwins in
theorem noTwins_of_same : Ring.NoTwins (c'.findAll service) := fun a ha b hb =>
  htwins a ((hsame a).mpr ha) b ((hsame b).mpr hb)

include hlayout hoffsets hbuilt hbuilt' hsame htwins hkey

/-- What two clients may answer differs in the type of the instance at most. -/
theorem find_eq_of_serves (hdraw : draw.ring ∈ c.ringDraws service)
    (hdraw' : draw'.ring ∈ c'.ringDraws service)
    (h : ∀ k k', Serves (c.findAll service) kind k → Serves (c.findAll service) kind k' → k = k') :
    c.find service kind hints draw = c'.find service kind hints draw' := by
  have hcases := find_cases hbuilt htwins hoffsets hkey hdraw kind
  have hcases' := find_cases hbuilt' (noTwins_of_same hsame htwins) (hlayout ▸ hoffsets) hkey
    hdraw' kind
  rcases hcases with ⟨k, r, hs, hserved, -, hfind⟩ | ⟨hnone, hfind⟩
  · rcases hcases' with ⟨k', r', hs', hserved', -, hfind'⟩ | ⟨hnone', -⟩
    · obtain rfl := h k k' hs (hs'.congr fun r => (hsame r).symm)
      rw [hlayout, ← Pool.get_ofKind_eq c.layout hsame (noTwins_of_same hsame htwins), hserved]
        at hserved'
      rw [hfind, hfind', Except.ok.inj hserved']
    · exact absurd (hs.congr hsame) (hnone' k)
  · rcases hcases' with ⟨k', r', hs', -, -, -⟩ | ⟨-, hfind'⟩
    · exact absurd (hs'.congr fun r => (hsame r).symm) (hnone k')
    · rw [hfind, hfind']

/-- Where there is a choice of types the draw decides for one of them. -/
theorem find_of_leavesChoice (hchoice : LeavesChoice (c.findAll service) kind)
    (hdraw : draw.ring ∈ c.ringDraws service) :
    ∃ t, (∃ r ∈ c.findAll service, r.kind = some t) ∧
      ∀ draw' : Draw, draw'.ring ∈ c'.ringDraws service →
        c.find service kind hints draw = c'.find service (some t) hints draw' := by
  rcases find_cases hbuilt htwins hoffsets hkey hdraw kind with
    ⟨k, r, hs, hserved, -, hfind⟩ | ⟨hnone, -⟩
  · obtain ⟨a, ha, rfl⟩ := Pool.ofKind_ne_nil_iff.mp hs.there
    obtain ⟨t, ht⟩ := Option.ne_none_iff_exists'.mp (hchoice.2.1 a ha)
    rw [ht] at hs hserved
    refine ⟨t, ⟨a, ha, ht⟩, fun draw' hdraw' => ?_⟩
    -- The instances of the type serve a request for it, and no others do.
    have hown : Serves (c.findAll service) (some t) (some t) := ⟨hs.there, .inl rfl⟩
    rcases find_cases hbuilt' (noTwins_of_same hsame htwins) (hlayout ▸ hoffsets) hkey hdraw'
      (some t) with ⟨k', r', hs', hserved', -, hfind'⟩ | ⟨hnone, -⟩
    · obtain rfl := hs'.unique (hown.congr hsame) fun h => by cases h.1
      rw [hlayout, ← Pool.get_ofKind_eq c.layout hsame (noTwins_of_same hsame htwins), hserved]
        at hserved'
      rw [hfind, hfind', Except.ok.inj hserved']
    · exact absurd (hown.congr hsame) (hnone _)
  · obtain ⟨-, -, a, ha, -⟩ := id hchoice
    exact absurd (Pool.serves_of_leavesChoice hchoice ha) (hnone _)

end

/-- Where there is a choice of types two draws come to different instances. -/
theorem exists_draws_of_leavesChoice (hbuilt : c.catalog.IsBuilt c.layout)
    (htwins : Ring.NoTwins (c.findAll service)) (hoffsets : c.layout.offsets ≠ [])
    (hkey : hashKey? hints = some key) (hchoice : LeavesChoice (c.findAll service) kind) :
    ∃ draw draw' : Draw, draw.ring ∈ c.ringDraws service ∧ draw'.ring ∈ c.ringDraws service ∧
      c.find service kind hints draw ≠ c.find service kind hints draw' := by
  obtain ⟨-, -, a, ha, b, hb, hne⟩ := id hchoice
  obtain ⟨draw, hdraw, r, -, hr, hfind⟩ := exists_draw hbuilt htwins hoffsets hkey
    (Pool.serves_of_leavesChoice hchoice ha)
  obtain ⟨draw', hdraw', r', -, hr', hfind'⟩ := exists_draw hbuilt htwins hoffsets hkey
    (Pool.serves_of_leavesChoice hchoice hb)
  refine ⟨draw, draw', hdraw, hdraw', fun heq => hne ?_⟩
  rw [hfind, hfind'] at heq
  rw [← hr, ← hr', Except.ok.inj heq]

/-- Two clients that know the same instances, no two of them under one identity, answer a request
with a hash hint alike, whatever they draw, exactly if it leaves no choice of types. If it does, the
draw decides for a type, and the answer is the one to a request for that type. -/
theorem find_of_hash_hint (hlayout : c'.layout = c.layout) (hoffsets : c.layout.offsets ≠ [])
    (hbuilt : c.catalog.IsBuilt c.layout) (hbuilt' : c'.catalog.IsBuilt c'.layout)
    (hsame : ∀ r, r ∈ c.findAll service ↔ r ∈ c'.findAll service)
    (htwins : Ring.NoTwins (c.findAll service)) (hhint : ∃ key, Hint.hash key ∈ hints) :
    ((∀ draw draw' : Draw, draw.ring ∈ c.ringDraws service → draw'.ring ∈ c'.ringDraws service →
        c.find service kind hints draw = c'.find service kind hints draw') ↔
      ¬LeavesChoice (c.findAll service) kind) ∧
    (LeavesChoice (c.findAll service) kind → ∀ draw : Draw, draw.ring ∈ c.ringDraws service →
      ∃ t, (∃ r ∈ c.findAll service, r.kind = some t) ∧
        ∀ draw' : Draw, draw'.ring ∈ c'.ringDraws service →
          c.find service kind hints draw = c'.find service (some t) hints draw') := by
  obtain ⟨key, hkey⟩ := exists_hashKey hhint
  refine ⟨⟨fun heq hchoice => ?_, fun hchoice draw draw' hdraw hdraw' => ?_⟩, ?_⟩
  · obtain ⟨draw, draw', hdraw, hdraw', hne⟩ :=
      exists_draws_of_leavesChoice hbuilt htwins hoffsets hkey hchoice
    have hany : (0 : Nat) ∈ c'.ringDraws service := by
      rw [ringDraws, List.mem_range]
      omega
    exact hne ((heq draw {} hdraw hany).trans (heq draw' {} hdraw' hany).symm)
  · exact find_eq_of_serves hlayout hoffsets hbuilt hbuilt' hsame htwins hkey hdraw hdraw'
      fun k k' hs hs' => hs.unique hs' hchoice
  · exact fun hchoice draw =>
      find_of_leavesChoice hlayout hoffsets hbuilt hbuilt' hsame htwins hkey hchoice

/-! ### Instances of one service -/

/-- A client that knows these records. -/
def knowing (rs : List Record) : Client :=
  let client := make { enabled := true } false
  { client with shared := { client.shared with
      catalog := ({} : Catalog).publish client.layout rs } }

theorem isBuilt_knowing (rs : List Record) : (knowing rs).catalog.IsBuilt (knowing rs).layout :=
  Catalog.isBuilt_publish (Catalog.isBuilt_empty _) rs

section

variable {rs : List Record} (h : ∀ r ∈ rs, r.name = service)
include h

theorem mem_findAll_knowing : r ∈ (knowing rs).findAll service ↔ r ∈ rs := by
  have hshows : Catalog.Shows rs (knowing rs).catalog := Catalog.shows_publish _ _ _
  rw [findAll]
  cases hpool : (knowing rs).catalog.pool? service with
  | some pool =>
      have hmem := hshows.mem_iff service pool hpool r
      exact hmem.trans (and_iff_left_of_imp (h r))
  | none =>
      constructor
      · exact fun hr => by cases hr
      · intro hr
        have hsome := (hshows.knows_iff service).mpr ⟨r, hr, h r hr⟩
        rw [hpool] at hsome
        cases hsome

theorem ringDraws_knowing : (knowing rs).ringDraws service = List.range (max 1 rs.length) := by
  have hown : rs.filter (·.name = service) = rs :=
    List.filter_eq_self.mpr fun r hr => by simp [h r hr]
  have hpool : (knowing rs).catalog.pool? service = Catalog.rebuilt? .standard rs service :=
    Catalog.pool?_publish_empty _ rs service
  rw [ringDraws, hpool, Catalog.rebuilt?, hown]
  split
  · next hnil =>
    rw [hnil]
    rfl
  · obtain ⟨pool, hbuild⟩ : ∃ pool, Pool.build .standard rs = .ok pool :=
      Pool.build_of_same_name fun r hr r' hr' => (h r hr).trans (h r' hr').symm
    rw [hbuild, ← (Pool.isOf_build hbuild).size_eq]
    rfl

end

/-- An instance of the service `queue`. -/
def queueOver (kind : Option String) (digits : List (Fin 16)) : Record where
  name := "queue"
  kind := kind
  id := .ofDigits digits
  properties := .empty
  isStatic := false
  name_ne := Record.written_name_ne "queue"

/-- One of two instances has no type, so a request for none leaves no choice. -/
theorem find_of_hash_hint_of_two :
    let a := queueOver none []
    let b := queueOver (some "amqp") [1]
    (knowing [a, b]).find "queue" none [.version 2, .hash "session-1234"] { ring := 1 } =
      (knowing [b, a]).find "queue" none [.version 2, .hash "session-1234"] {} := by
  intro a b
  have hname : ∀ r ∈ [a, b], r.name = "queue" := by decide
  have hname' : ∀ r ∈ [b, a], r.name = "queue" := by decide
  have htwins : Ring.NoTwins [a, b] := by decide
  have hmem : ∀ r, r ∈ (knowing [a, b]).findAll "queue" ↔ r ∈ [a, b] :=
    fun r => mem_findAll_knowing hname
  have hsame : ∀ r, r ∈ (knowing [a, b]).findAll "queue" ↔
      r ∈ (knowing [b, a]).findAll "queue" := by
    intro r
    rw [hmem, mem_findAll_knowing hname']
    exact (List.Perm.swap b a []).mem_iff
  have hlayout : (knowing [b, a]).layout = (knowing [a, b]).layout := rfl
  have hdraw : 1 ∈ (knowing [a, b]).ringDraws "queue" := by
    rw [ringDraws_knowing hname]
    decide
  have hdraw' : 0 ∈ (knowing [b, a]).ringDraws "queue" := by
    rw [ringDraws_knowing hname']
    decide
  refine (find_of_hash_hint hlayout (List.cons_ne_nil _ _) (isBuilt_knowing [a, b])
    (isBuilt_knowing [b, a]) hsame ?_ ⟨"session-1234", by decide⟩).1.mpr ?_ _ _ hdraw hdraw'
  · exact fun r hr r' hr' => htwins r ((hmem r).mp hr) r' ((hmem r').mp hr')
  · exact fun hchoice => hchoice.2.1 a ((hmem a).mpr List.mem_cons_self) rfl

/-- Two instances of different types, and a request for none: the draw decides. -/
theorem draws_decide_between_types :
    let c := knowing [queueOver (some "amqp") [], queueOver (some "mqtt") [1]]
    ¬∀ draw draw' : Draw, draw.ring ∈ c.ringDraws "queue" → draw'.ring ∈ c.ringDraws "queue" →
      c.find "queue" none [.hash "session-1234"] draw =
        c.find "queue" none [.hash "session-1234"] draw' := by
  intro c heq
  let a := queueOver (some "amqp") []
  let b := queueOver (some "mqtt") [1]
  have hmem : ∀ r, r ∈ c.findAll "queue" ↔ r ∈ [a, b] :=
    fun r => mem_findAll_knowing (by decide)
  have htwins : Ring.NoTwins [a, b] := by decide
  have htyped : ∀ r ∈ [a, b], r.kind ≠ none := by decide
  have hchoice : LeavesChoice (c.findAll "queue") none :=
    ⟨rfl, fun r hr => htyped r ((hmem r).mp hr), a, (hmem a).mpr (by decide), b,
      (hmem b).mpr (by decide), by decide⟩
  obtain ⟨draw, draw', hdraw, hdraw', hne⟩ := exists_draws_of_leavesChoice
    (isBuilt_knowing [a, b])
    (fun r hr r' hr' => htwins r ((hmem r).mp hr) r' ((hmem r').mp hr')) (List.cons_ne_nil _ _)
    (rfl : hashKey? [.hash "session-1234"] = some "session-1234") hchoice
  exact hne (heq draw draw' hdraw hdraw')

end ServiceRegistry.Client
