import ServiceRegistry.Directory.Follower
import ServiceRegistry.Proofs.Catalog.Editions
import ServiceRegistry.Proofs.Record.RoundTrip
import ServiceRegistry.Proofs.Script.Executions

/-! # What a visit reads and publishes

A visit publishes what it read, or nothing (`Follower.visit_publishes_what_it_read_or_nothing`). It
begins to read every listed node that is not in quarantine, and of these reads the ones count that
end within the time limit (`Follower.Begins`, `Follower.Finishes`). If none of them brought a fatal
error, the records that their payloads hold (`Record.Read`) are published as one edition. -/

namespace ServiceRegistry

/-! ### The records that are read -/

/-- The payload that an answer brought. -/
def Exchange.payload? : Exchange → Option Bytes
  | ⟨.finishRead _, .ok data⟩ => some data
  | _ => none

namespace Record

variable {data : Bytes}

/-- Whether a record can be made of what was read does not depend on the fresh identity. -/
theorem exists_finish {d : Draft} {fresh : InstanceId} {r : Record} (h : d.finish fresh = .ok r)
    (fresh' : InstanceId) : ∃ r', d.finish fresh' = .ok r' := by
  unfold Draft.finish at h ⊢
  cases hname : d.name with
  | none =>
      rw [hname] at h
      cases h
  | some name =>
      rw [hname] at h
      dsimp only at h ⊢
      have hne : name ≠ "" := by
        intro hempty
        rw [make_eq_error_iff (e := .emptyName).mpr hempty] at h
        cases h
      rw [make, dif_neg hne]
      exact ⟨_, rfl⟩

/-- What is left of decoding after the parts of a record were read. -/
theorem exists_of_read {read : Except DecodeError (Draft × Bytes)} {fresh : InstanceId} {r : Record}
    (h : (do
      let (d, rest) ← read
      let r ← d.finish fresh
      match Json.skipBlanks rest with
      | [] => return r
      | _ :: _ => .error (.text .malformed)) = .ok r) (fresh' : InstanceId) :
    ∃ r', (do
      let (d, rest) ← read
      let r ← d.finish fresh'
      match Json.skipBlanks rest with
      | [] => return r
      | _ :: _ => .error (.text .malformed)) = .ok r' := by
  rcases read with e | ⟨d, rest⟩
  · cases h
  · cases hfinish : d.finish fresh with
    | error e =>
        simp only [bind, Except.bind, hfinish] at h
        cases h
    | ok r₁ =>
        obtain ⟨r', hfinish'⟩ := exists_finish hfinish fresh'
        simp only [bind, Except.bind, hfinish, hfinish'] at h ⊢
        split at h
        · exact ⟨r', rfl⟩
        · cases h

theorem exists_decode {fresh : InstanceId} {r : Record} (h : decode fresh data = .ok r)
    (fresh' : InstanceId) : ∃ r', decode fresh' data = .ok r' := by
  unfold decode at h ⊢
  cases hblank : Json.skipBlanks data with
  | nil =>
      rw [hblank] at h
      cases h
  | cons b rest =>
      simp only [hblank] at h ⊢
      by_cases hobject : b = 0x7b
      · simp only [if_pos hobject] at h ⊢
        exact exists_of_read h fresh'
      · by_cases harray : b = 0x5b
        · simp only [if_neg hobject, if_pos harray] at h ⊢
          exact exists_of_read h fresh'
        · simp only [if_neg hobject, if_neg harray] at h
          cases h

theorem decode_nil (fresh : InstanceId) (r : Record) : decode fresh [] ≠ .ok r := by
  intro h
  cases h

/-- The records that the payloads among some answers hold, in order; a record that came without an
identity has been given one. -/
inductive Read : List Exchange → List Record → Prop
  | nil : Read [] []
  | record {e : Exchange} {es : List Exchange} {data : Bytes} {fresh : InstanceId} {r : Record}
      {rs : List Record} (payload : e.payload? = some data) (decoded : decode fresh data = .ok r)
      (rest : Read es rs) : Read (e :: es) (r :: rs)
  | other {e : Exchange} {es : List Exchange} {rs : List Record}
      (none_held : ∀ data, e.payload? = some data → ∀ fresh r, decode fresh data ≠ .ok r)
      (rest : Read es rs) : Read (e :: es) rs

theorem Read.append {es es' : List Exchange} {rs rs' : List Record} (h : Read es rs)
    (h' : Read es' rs') : Read (es ++ es') (rs ++ rs') := by
  induction h with
  | nil => exact h'
  | record payload decoded _ ih => exact .record payload decoded ih
  | other none_held _ ih => exact .other none_held ih

end Record

/-! ### The reads of a visit -/

/-- A read that came to its end, with what it brought. -/
def Exchange.read? : Exchange → Option (String × Except StoreError Bytes)
  | ⟨.beginRead path, .error e⟩ => some (path, .error e)
  | ⟨.finishRead path, answer⟩ => some (path, answer)
  | _ => none

/-- A read that was begun, with the time that it takes. -/
def Exchange.begun? : Exchange → Option (String × Nat)
  | ⟨.beginRead path, .ok (some ms)⟩ => some (path, ms)
  | ⟨.beginRead path, _⟩ => some (path, 0)
  | _ => none

namespace Follower

/-- The reads that came to their end, with what they brought. -/
def reads (es : List Exchange) : List (String × Except StoreError Bytes) :=
  es.filterMap Exchange.read?

/-- The reads that were begun, with the time that each takes. -/
def begun (es : List Exchange) : List (String × Nat) := es.filterMap Exchange.begun?

variable {c c' : Catalog} {e : Exchange} {es es' : List Exchange} {penalty : Nat} {α : Type}

theorem reads_append : reads (es ++ es') = reads es ++ reads es' := List.filterMap_append

theorem begun_append : begun (es ++ es') = begun es ++ begun es' := List.filterMap_append

/-- A visit is broken off by an error that a read brought, and it is not if no read brought a fatal
error. -/
def Settles (es : List Exchange) : Except StoreError α → Prop
  | .ok _ => ∀ path e, (path, .error e) ∈ reads es → isFatal e = false
  | .error e => isFatal e = true ∧ ∃ path, (path, .error e) ∈ reads es

theorem settles_nil (a : α) : Settles [] (.ok a) := fun _ _ h => by cases h

theorem Settles.append {a : α} {β : Type} {result : Except StoreError β}
    (h : Settles es (.ok a)) (h' : Settles es' result) : Settles (es ++ es') result := by
  cases result with
  | ok b =>
      intro path e he
      rw [reads_append] at he
      exact (List.mem_append.mp he).elim (h path e) (h' path e)
  | error e =>
      obtain ⟨hfatal, path, he⟩ := h'
      exact ⟨hfatal, path, by rw [reads_append]; exact List.mem_append_right _ he⟩

/-- Some answers add the records that they hold to the harvest. -/
def Adds (es : List Exchange) (h h' : Harvest) : Prop :=
  ∃ rs, Record.Read es rs ∧ h'.records = h.records ++ rs

theorem Adds.refl (h : Harvest) : Adds [] h h := ⟨[], .nil, (List.append_nil _).symm⟩

theorem Adds.trans {h h' h'' : Harvest} (ha : Adds es h h') (ha' : Adds es' h' h'') :
    Adds (es ++ es') h h'' := by
  obtain ⟨rs, hread, hrs⟩ := ha
  obtain ⟨rs', hread', hrs'⟩ := ha'
  exact ⟨rs ++ rs', hread.append hread', by rw [hrs', hrs, List.append_assoc]⟩

/-- An answer without a payload adds nothing. -/
theorem Adds.cons (he : e.payload? = none) {h h' : Harvest} (ha : Adds es h h') :
    Adds (e :: es) h h' := by
  obtain ⟨rs, hread, hrs⟩ := ha
  exact ⟨rs, .other (fun data hdata => by cases he.symm.trans hdata) hread, hrs⟩

theorem ends_reap {path : String} {data : Bytes} {h h' : Harvest}
    (hends : (reap penalty path data h).Ends c es h' c') :
    es = [] ∧ Adds [⟨.finishRead path, .ok data⟩] h h' ∧ c' = c := by
  unfold reap at hends
  split at hends
  · next hnil =>
    subst hnil
    cases hends with
    | done =>
        refine ⟨rfl, ⟨[], .other (fun data hdata fresh r => ?_) .nil,
          (List.append_nil _).symm⟩, rfl⟩
        cases hdata
        exact Record.decode_nil fresh r
  · cases hends with
    | fresh drawn _ rest =>
        cases hdecode : Record.decode drawn data with
        | ok r =>
            simp only [hdecode] at rest
            cases rest with
            | done => exact ⟨rfl, ⟨[r], .record rfl hdecode .nil, rfl⟩, rfl⟩
        | error e =>
            simp only [hdecode] at rest
            cases rest with
            | clock now _ rest =>
                cases rest with
                | done =>
                    refine ⟨rfl, ⟨[], .other (fun data' hdata fresh r hr => ?_) .nil,
                      (List.append_nil _).symm⟩, rfl⟩
                    cases hdata
                    obtain ⟨r', hr'⟩ := Record.exists_decode hr drawn
                    cases hdecode.symm.trans hr'

/-- A read that is finished is one exchange, and only a fatal error breaks the visit off. -/
theorem ends_collect {path : String} {h h' : Harvest} {result : Except StoreError Unit}
    (hends : (collect penalty path h).Ends c es (h', result) c') :
    (∃ answer, es = [⟨.finishRead path, answer⟩]) ∧ Settles es result ∧ Adds es h h' ∧ c' = c := by
  cases hends with
  | call _ _ answer rest =>
      cases answer with
      | error e =>
          cases rest with
          | done =>
              refine ⟨⟨_, rfl⟩, ?_, .cons rfl (.refl _), rfl⟩
              cases hfatal : isFatal e with
              | true => exact ⟨hfatal, path, by simp [reads, Exchange.read?]⟩
              | false =>
                  intro path' e' he'
                  obtain ⟨rfl, rfl⟩ : path' = path ∧ e' = e := by
                    simpa [reads, Exchange.read?] using he'
                  exact hfatal
      | ok data =>
          obtain ⟨es₁, h₁, c₁, es₂, rfl, hreap, hdone⟩ := Script.ends_bind rest
          obtain ⟨rfl, hadds, rfl⟩ := ends_reap hreap
          cases hdone with
          | done =>
              refine ⟨⟨_, rfl⟩, fun path' e' he' => ?_, hadds, rfl⟩
              simp [reads, Exchange.read?] at he'

/-! ### Reads that take time -/

variable {slow slow' : List (String × Nat)}

/-- Reads in the order in which they end. -/
def InOrder (slow : List (String × Nat)) : Prop := slow.Pairwise fun a b => a.2 ≤ b.2

theorem perm_enqueue (read : String × Nat) (slow : List (String × Nat)) :
    (enqueue read slow).Perm (read :: slow) := by
  induction slow with
  | nil => exact .refl _
  | cons next slow ih =>
      unfold enqueue
      split
      · exact .refl _
      · exact (ih.cons next).trans (.swap read next slow)

theorem inOrder_enqueue {read : String × Nat} (h : InOrder slow) :
    InOrder (enqueue read slow) := by
  induction slow with
  | nil => exact List.pairwise_singleton _ _
  | cons next slow ih =>
      obtain ⟨hnext, hslow⟩ := List.pairwise_cons.mp h
      unfold enqueue
      split
      · next hlt =>
        refine List.pairwise_cons.mpr ⟨fun other hother => ?_, h⟩
        rcases List.mem_cons.mp hother with rfl | hother
        · exact Nat.le_of_lt hlt
        · exact Nat.le_trans (Nat.le_of_lt hlt) (hnext other hother)
      · next hle =>
        refine List.pairwise_cons.mpr ⟨fun other hother => ?_, ih hslow⟩
        rcases List.mem_cons.mp ((perm_enqueue read slow).mem_iff.mp hother) with rfl | hother
        · exact Nat.not_lt.mp hle
        · exact hnext other hother

/-- What it comes to when the reads of some paths are begun while others still take time. -/
structure Begins (paths : List String) (slow : List (String × Nat)) (es : List Exchange)
    (result : Except StoreError (List (String × Nat))) : Prop where
  settles : Settles es result
  begun_prefix : (begun es).map (·.1) <+: paths
  /-- What came to its end took no time. -/
  timely : ∀ r ∈ reads es, (r.1, 0) ∈ begun es
  /-- Unless the visit is broken off, every read is begun, and comes to its end or still takes time.
  -/
  all : ∀ slow', result = .ok slow' → (begun es).map (·.1) = paths ∧
    List.Perm ((reads es).map (fun read => (read.1, 0)) ++ slow') (begun es ++ slow) ∧
    (InOrder slow → InOrder slow')

/-- What it comes to when reads are finished that take time. -/
structure Finishes (limit : Nat) (slow : List (String × Nat)) (es : List Exchange)
    (result : Except StoreError Unit) : Prop where
  settles : Settles es result
  begun_eq : begun es = []
  timely : ∀ r ∈ reads es, ∃ ms ≤ limit, (r.1, ms) ∈ slow
  /-- Unless the visit is broken off, the reads come to their end that are within the limit. -/
  all : result = .ok () → InOrder slow →
    (reads es).map (·.1) = (slow.filter (·.2 ≤ limit)).map (·.1)

/-- A read that takes no time is dealt with before the next one begins. -/
theorem Begins.cons {path : String} {paths : List String} (first : List Exchange)
    {answer : Except StoreError Bytes} {result : Except StoreError (List (String × Nat))}
    (hbegun : begun first = [(path, 0)]) (hreads : reads first = [(path, answer)])
    (hfirst : Settles first (.ok ())) (h : Begins paths slow es result) :
    Begins (path :: paths) slow (first ++ es) result := by
  refine ⟨hfirst.append h.settles, ?_, ?_, fun slow' hresult => ?_⟩
  · rw [begun_append, hbegun]
    exact List.prefix_cons_inj path |>.mpr h.begun_prefix
  · intro r hr
    rw [reads_append, hreads] at hr
    rw [begun_append, hbegun]
    rcases List.mem_cons.mp hr with rfl | hr
    · exact List.mem_cons_self
    · exact List.mem_cons_of_mem _ (h.timely r hr)
  · obtain ⟨hall, hperm, horder⟩ := h.all slow' hresult
    rw [begun_append, hbegun, reads_append, hreads]
    exact ⟨congrArg (path :: ·) hall, hperm.cons _, horder⟩

/-- A read that takes time waits among the others that do. -/
theorem Begins.cons_slow {path : String} {ms : Nat} {paths : List String}
    {result : Except StoreError (List (String × Nat))}
    (h : Begins paths (enqueue (path, ms) slow) es result) :
    Begins (path :: paths) slow (⟨.beginRead path, .ok (some ms)⟩ :: es) result := by
  have hreads : reads (⟨.beginRead path, .ok (some ms)⟩ :: es) = reads es := rfl
  have hbegun : begun (⟨.beginRead path, .ok (some ms)⟩ :: es) = (path, ms) :: begun es := rfl
  refine ⟨?_, ?_, ?_, fun slow' hresult => ?_⟩
  · exact (settles_nil () : Settles [] (.ok ())).append h.settles
  · rw [hbegun]
    exact List.prefix_cons_inj path |>.mpr h.begun_prefix
  · exact fun r hr => List.mem_cons_of_mem _ (h.timely r hr)
  · obtain ⟨hall, hperm, horder⟩ := h.all slow' hresult
    refine ⟨congrArg (path :: ·) hall, ?_, fun hslow => horder (inOrder_enqueue hslow)⟩
    rw [hreads, hbegun]
    refine hperm.trans (((perm_enqueue _ slow).append_left _).trans ?_)
    exact List.perm_middle

/-- A fatal error breaks off what was begun. -/
theorem Begins.broken {path : String} {paths : List String} {e : StoreError}
    (hbegun : begun es = [(path, 0)]) (hreads : reads es = [(path, .error e)])
    (hfatal : isFatal e = true) : Begins (path :: paths) slow es (.error e) := by
  refine ⟨⟨hfatal, path, by simp [hreads]⟩, ?_, fun r hr => ?_,
    fun slow' hresult => nomatch hresult⟩
  · rw [hbegun]
    exact ⟨paths, rfl⟩
  · rw [hreads] at hr
    obtain rfl := List.mem_singleton.mp hr
    simp [hbegun]

theorem begins_of_ends {paths : List String} {h h' : Harvest}
    {result : Except StoreError (List (String × Nat))}
    (hends : (begin' penalty paths slow h).Ends c es (h', result) c') :
    Begins paths slow es result ∧ Adds es h h' ∧ c' = c := by
  induction paths generalizing c es slow h with
  | nil =>
      cases hends with
      | done =>
          refine ⟨⟨settles_nil slow, List.prefix_rfl, fun r hr => (by cases hr),
            fun slow' hresult => ?_⟩, .refl _, rfl⟩
          cases hresult
          exact ⟨rfl, .refl _, id⟩
  | cons path paths ih =>
      cases hends with
      | call _ _ answer rest =>
          rcases answer with e | _ | ms
          · dsimp only at rest
            split at rest
            · next hfatal =>
              cases rest with
              | done => exact ⟨.broken rfl rfl hfatal, .cons rfl (.refl _), rfl⟩
            · next hfatal =>
              obtain ⟨hbegins, hadds, rfl⟩ := ih rest
              refine ⟨.cons [_] rfl rfl ?_ hbegins, .cons rfl hadds, rfl⟩
              intro path' e' he'
              obtain ⟨rfl, rfl⟩ : path' = path ∧ e' = e := by
                simpa [reads, Exchange.read?] using he'
              simpa using hfatal
          · obtain ⟨es₁, ⟨h₁, result₁⟩, c₁, es₂, rfl, hfirst, hrest⟩ := Script.ends_bind rest
            obtain ⟨⟨answer, rfl⟩, hsettles, hadds, rfl⟩ := ends_collect hfirst
            cases result₁ with
            | error e =>
                cases hrest with
                | done =>
                    obtain ⟨hfatal, path', he⟩ := hsettles
                    obtain ⟨rfl, rfl⟩ : path' = path ∧ .error e = answer := by
                      simpa [reads, Exchange.read?] using he
                    exact ⟨.broken rfl rfl hfatal, .cons rfl hadds, rfl⟩
            | ok =>
                obtain ⟨hbegins, hadds', rfl⟩ := ih hrest
                exact ⟨.cons [_, _] rfl rfl hsettles hbegins,
                  .cons rfl (hadds.trans hadds'), rfl⟩
          · obtain ⟨hbegins, hadds, rfl⟩ := ih rest
            exact ⟨hbegins.cons_slow, .cons rfl hadds, rfl⟩

/-- A read that ends within the limit is finished before the later ones. -/
theorem Finishes.cons {limit ms : Nat} {path : String} (hms : ms ≤ limit)
    {answer : Except StoreError Bytes} {result : Except StoreError Unit}
    (hfirst : Settles [⟨.finishRead path, answer⟩] (.ok ())) (h : Finishes limit slow es result) :
    Finishes limit ((path, ms) :: slow) (⟨.finishRead path, answer⟩ :: es) result := by
  have hreads : reads (⟨.finishRead path, answer⟩ :: es) = (path, answer) :: reads es := rfl
  refine ⟨hfirst.append h.settles, h.begun_eq, fun r hr => ?_, fun hresult hslow => ?_⟩
  · rw [hreads] at hr
    rcases List.mem_cons.mp hr with rfl | hr
    · exact ⟨ms, hms, List.mem_cons_self⟩
    · obtain ⟨ms', hms', hr'⟩ := h.timely r hr
      exact ⟨ms', hms', List.mem_cons_of_mem _ hr'⟩
  · have hrest := h.all hresult (List.pairwise_cons.mp hslow).2
    rw [hreads, List.filter_cons_of_pos (by simpa using hms), List.map_cons, hrest, List.map_cons]

/-- No read ends within the limit when the next one does not. -/
theorem filter_eq_nil_of_late {limit ms : Nat} {path : String} (hms : ¬ms ≤ limit)
    (h : InOrder ((path, ms) :: slow)) : ((path, ms) :: slow).filter (·.2 ≤ limit) = [] := by
  refine List.filter_eq_nil_iff.mpr fun r hr => ?_
  have hle : ms ≤ r.2 := by
    rcases List.mem_cons.mp hr with rfl | hr
    · exact Nat.le_refl _
    · exact (List.pairwise_cons.mp h).1 r hr
  simp only [decide_eq_true_eq]
  omega

/-- A pause makes no calls. -/
theorem ends_pauseFor {ms : Nat} {x : Script Catalog α} {a : α}
    (h : (Script.pauseFor ms x).Ends c es a c') : x.Ends c es a c' := by
  unfold Script.pauseFor at h
  split at h
  · exact h
  · cases h with
    | wait _ _ rest => exact rest

theorem finishes_of_ends {f : Follower} {passed : Nat} {h h' : Harvest}
    {result : Except StoreError Unit}
    (hends : (f.finish passed slow h).Ends c es (h', result) c') :
    Finishes f.timeLimit slow es result ∧ Adds es h h' ∧ c' = c := by
  induction slow generalizing c es passed h with
  | nil =>
      cases hends with
      | done =>
          exact ⟨⟨settles_nil (), rfl, fun r hr => (by cases hr), fun _ _ => rfl⟩, .refl _, rfl⟩
  | cons next slow ih =>
      obtain ⟨path, ms⟩ := next
      unfold finish at hends
      split at hends
      · next hms =>
        obtain ⟨es₁, ⟨h₁, result₁⟩, c₁, es₂, rfl, hfirst, hrest⟩ :=
          Script.ends_bind (ends_pauseFor hends)
        obtain ⟨⟨answer, rfl⟩, hsettles, hadds, rfl⟩ := ends_collect hfirst
        cases result₁ with
        | error e =>
            cases hrest with
            | done =>
                refine ⟨⟨hsettles, rfl, fun r hr => ?_, nofun⟩, hadds, rfl⟩
                obtain rfl : r = (path, answer) := by simpa [reads, Exchange.read?] using hr
                exact ⟨ms, hms, List.mem_cons_self⟩
        | ok =>
            obtain ⟨hfinishes, hadds', rfl⟩ := ih hrest
            exact ⟨hfinishes.cons hms hsettles, hadds.trans hadds', rfl⟩
      · next hms =>
        cases ends_pauseFor hends with
        | done =>
            refine ⟨⟨settles_nil (), rfl, fun r hr => (by cases hr), fun _ hslow => ?_⟩,
              .refl _, rfl⟩
            rw [filter_eq_nil_of_late hms hslow]
            rfl

/-! ### What is published -/

/-- What the reads of a visit to some paths come to. -/
structure Visits (limit : Nat) (paths : List String) (es : List Exchange)
    (result : Except StoreError Unit) : Prop where
  settles : Settles es result
  begun_prefix : (begun es).map (·.1) <+: paths
  timely : ∀ r ∈ reads es, ∃ ms ≤ limit, (r.1, ms) ∈ begun es
  all : result = .ok () → (begun es).map (·.1) = paths ∧
    ((reads es).map (·.1)).Perm (((begun es).filter (·.2 ≤ limit)).map (·.1))

/-- First all reads are begun, then those are finished that take time. -/
theorem Begins.visits {paths : List String} {limit : Nat} {result : Except StoreError Unit}
    (h : Begins paths [] es (.ok slow)) (h' : Finishes limit slow es' result) :
    Visits limit paths (es ++ es') result := by
  obtain ⟨hall, hperm, horder⟩ := h.all slow rfl
  rw [List.append_nil] at hperm
  refine ⟨h.settles.append h'.settles, ?_, fun r hr => ?_, fun hresult => ?_⟩
  · rw [begun_append, h'.begun_eq, List.append_nil]
    exact h.begun_prefix
  · rw [reads_append] at hr
    rw [begun_append, h'.begun_eq, List.append_nil]
    rcases List.mem_append.mp hr with hr | hr
    · exact ⟨0, Nat.zero_le _, h.timely r hr⟩
    · obtain ⟨ms, hms, hslow⟩ := h'.timely r hr
      exact ⟨ms, hms, hperm.subset (List.mem_append_right _ hslow)⟩
  · have hfinished := h'.all hresult (horder .nil)
    have hsoon : ((reads es).map fun read => (read.1, 0)).filter (·.2 ≤ limit) =
        (reads es).map fun read => (read.1, 0) := by
      refine List.filter_eq_self.mpr fun r hr => ?_
      obtain ⟨_, _, rfl⟩ := List.mem_map.mp hr
      exact decide_eq_true (Nat.zero_le limit)
    have hlimit := (hperm.filter (·.2 ≤ limit)).map (·.1)
    rw [List.filter_append, hsoon, List.map_append, List.map_map, ← hfinished] at hlimit
    rw [begun_append, h'.begun_eq, List.append_nil, reads_append, List.map_append]
    exact ⟨hall, hlimit⟩

/-- A visit that is broken off while its reads are begun finishes none that take time. -/
theorem Begins.visits_of_error {paths : List String} {limit : Nat} {e : StoreError}
    (h : Begins paths [] es (.error e)) : Visits limit paths es (.error e) :=
  ⟨h.settles, h.begun_prefix, fun r hr => ⟨0, Nat.zero_le _, h.timely r hr⟩, nofun⟩

/-- The listed nodes that are not in quarantine at a time. -/
def admitted (f : Follower) (now : Nat) (children : List String) : List String :=
  (children.map (Path.child f.root)).filter fun path => !f.isQuarantined now path

/-- A visit publishes the records of its reads, or it is broken off and publishes nothing. -/
theorem visits_of_ends {f f' : Follower} {now : Nat} {children : List String}
    {result : Except StoreError Unit}
    (hends : (f.visitAt now children).Ends c es (f', result) c') :
    Visits f.timeLimit (f.admitted now children) es result ∧
      (result = .ok () → ∃ rs, Record.Read es rs ∧ c' = c.publish f.layout rs) ∧
      (∀ e, result = .error e → c' = c) := by
  obtain ⟨es₁, ⟨h₁, result₁⟩, c₁, es₂, rfl, hbegin, hrest⟩ := Script.ends_bind hends
  obtain ⟨hbegins, hadds, rfl⟩ := begins_of_ends hbegin
  cases result₁ with
  | error e =>
      cases hrest with
      | done =>
          rw [List.append_nil]
          exact ⟨hbegins.visits_of_error, nofun, fun _ _ => rfl⟩
  | ok slow =>
      obtain ⟨es₃, ⟨h₂, result₂⟩, c₂, es₄, rfl, hfinish, hend⟩ := Script.ends_bind hrest
      obtain ⟨hfinishes, hadds', rfl⟩ := finishes_of_ends hfinish
      have hvisits := hbegins.visits hfinishes
      cases result₂ with
      | error e =>
          cases hend with
          | done =>
              rw [List.append_nil]
              exact ⟨hvisits, nofun, fun _ _ => rfl⟩
      | ok =>
          cases hend with
          | change _ _ hdone =>
              cases hdone with
              | done =>
                  obtain ⟨rs, hread, hrs⟩ := hadds.trans hadds'
                  rw [List.append_nil]
                  exact ⟨hvisits, fun _ => ⟨rs, hread, by rw [hrs]; rfl⟩, nofun⟩

/-- A visit that succeeds publishes the records that it read. -/
theorem publishes_of_ends {f f' : Follower} {children : List String}
    (hends : (f.visit children).Ends c es (f', .ok ()) c') :
    ∃ rs, Record.Read es rs ∧ c' = c.publish f.layout rs := by
  cases hends with
  | clock now _ rest => exact (visits_of_ends rest).2.1 rfl

/-- A visit publishes what it read, or nothing. If no read that ended within the time limit brought
a fatal error, it succeeds: every listed node that is not in quarantine was read, and one edition is
published that has exactly the records of the reads that ended within the limit, each under its
service. Otherwise it fails with a fatal error that a read brought, and nothing is published. -/
theorem visit_publishes_what_it_read_or_nothing {S : Type} {m : Script.Machine S Catalog}
    (hm : m.IsQuiet) (f : Follower) (children : List String) (st : S) :
    let es := (f.visit children).told m st
    let out := (f.visit children).execute m st
    ((begun es).map (·.1) <+: f.admitted (m.now st) children ∧
      ∀ r ∈ reads es, ∃ ms ≤ f.timeLimit, (r.1, ms) ∈ begun es) ∧
    ((∀ path e, (path, .error e) ∈ reads es → isFatal e = false) →
      out.1.2 = .ok () ∧
      (begun es).map (·.1) = f.admitted (m.now st) children ∧
      ((reads es).map (·.1)).Perm (((begun es).filter (·.2 ≤ f.timeLimit)).map (·.1)) ∧
      ∃ rs, Record.Read es rs ∧ (m.shared out.2).Shows rs ∧
        (m.shared out.2).edition = (m.shared st).edition + 1 ∧
        (m.shared out.2).isOpen = true) ∧
    ((∃ path e, (path, .error e) ∈ reads es ∧ isFatal e = true) →
      ∃ path e, (path, .error e) ∈ reads es ∧ isFatal e = true ∧
        out.1.2 = .error e ∧ m.shared out.2 = m.shared st) := by
  intro es out
  obtain ⟨hvisits, hok, herror⟩ :
      Visits f.timeLimit (f.admitted (m.now st) children) es out.1.2 ∧
        (out.1.2 = .ok () → ∃ rs, Record.Read es rs ∧
          m.shared out.2 = (m.shared st).publish f.layout rs) ∧
        (∀ e, out.1.2 = .error e → m.shared out.2 = m.shared st) :=
    visits_of_ends (Script.ends_execute hm (f.visitAt (m.now st) children) st)
  refine ⟨⟨hvisits.begun_prefix, hvisits.timely⟩, fun hcalm => ?_, ?_⟩
  · cases hresult : out.1.2 with
    | error e =>
        obtain ⟨hfatal, path, he⟩ : Settles es (.error e) := hresult ▸ hvisits.settles
        cases (hcalm path e he).symm.trans hfatal
    | ok =>
        obtain ⟨hall, hperm⟩ := hvisits.all hresult
        obtain ⟨rs, hread, hpublished⟩ := hok hresult
        rw [hpublished]
        exact ⟨rfl, hall, hperm, rs, hread, Catalog.shows_publish _ _ rs, rfl, rfl⟩
  · rintro ⟨path, e, he, hfatal⟩
    cases hresult : out.1.2 with
    | error e' =>
        obtain ⟨hfatal', path', he'⟩ : Settles es (.error e') := hresult ▸ hvisits.settles
        exact ⟨path', e', he', hfatal', rfl, herror e' hresult⟩
    | ok =>
        have hcalm : Settles es (.ok ()) := hresult ▸ hvisits.settles
        cases (hcalm path e he).symm.trans hfatal

/-! ### Some nodes -/

theorem reap_encode (penalty : Nat) (path : String) (r : Record) (h : Harvest) :
    reap penalty path r.encode h =
      .fresh fun _ => .done { h with records := h.records ++ [r] } := by
  unfold reap
  rw [if_neg r.encode_ne_nil]
  congr 1
  funext id
  rw [Record.decode_encode]
  rfl

/-- A record of the service `queue`, told from its twins by the address. -/
def queueAt (address : String) : Record where
  name := "queue"
  kind := none
  id := default
  properties := Dict.empty.insert Record.addressKey address
  isStatic := false
  name_ne := Record.written_name_ne "queue"

/-- A follower of the directory `/services`. -/
def reader : Follower where
  root := "/services"
  timeLimit := 500
  penalty := 600000

/-- Nodes with the time that it takes to read each, and what that brings; no time passes. -/
def shelf (held : String → Option Nat × Except StoreError Bytes) :
    Script.Machine Catalog Catalog where
  serve c
    | .beginRead path => (.ok (held path).1, c)
    | .finishRead path => ((held path).2, c)
    | .list path _ => (.error ⟨.noNode, path⟩, c)
    | .probe path => (.error ⟨.noNode, path⟩, c)
    | .create path _ _ => (.error ⟨.noNode, path⟩, c)
    | .delete path => (.error ⟨.noNode, path⟩, c)
  shared c := c
  setShared c _ := c
  now _ := 0
  draw c := (default, c)
  pause _ c := c

@[simp] theorem shared_shelf (held : String → Option Nat × Except StoreError Bytes) (c : Catalog) :
    (shelf held).shared c = c := rfl

theorem isQuiet_shelf (held : String → Option Nat × Except StoreError Bytes) :
    (shelf held).IsQuiet := ⟨fun _ r => by cases r <;> rfl, fun _ _ => rfl, fun _ => rfl,
  fun _ _ => rfl⟩

/-- A node with a record, one without data, one that is gone, and one that takes too long. -/
def mixed : String → Option Nat × Except StoreError Bytes
  | "/services/a" => (none, .ok (queueAt "10.0.0.1").encode)
  | "/services/b" => (none, .ok [])
  | "/services/c" => (none, .error ⟨.noNode, "/services/c"⟩)
  | _ => (some 600, .ok (queueAt "10.0.0.2").encode)

/-- A node with a record, and one at which the connection is lost. -/
def torn : String → Option Nat × Except StoreError Bytes
  | "/services/a" => (none, .ok (queueAt "10.0.0.1").encode)
  | path => (some 200, .error ⟨.connectionLoss, path⟩)

theorem told_mixed : (reader.visit ["a", "b", "c", "d"]).told (shelf mixed) {} =
    [⟨.beginRead "/services/a", .ok none⟩,
      ⟨.finishRead "/services/a", .ok (queueAt "10.0.0.1").encode⟩,
      ⟨.beginRead "/services/b", .ok none⟩, ⟨.finishRead "/services/b", .ok []⟩,
      ⟨.beginRead "/services/c", .ok none⟩,
      ⟨.finishRead "/services/c", .error ⟨.noNode, "/services/c"⟩⟩,
      ⟨.beginRead "/services/d", .ok (some 600)⟩] := by
  have hnil : ∀ penalty path h, reap penalty path [] h = .done h := fun _ _ _ => rfl
  simp [visit, visitAt, reader, isQuarantined, Path.child, begin', collect, enqueue, finish,
    Script.pauseFor, Script.told, shelf, mixed, Bind.bind, Script.bind, Pure.pure, reap_encode,
    hnil, isFatal, StoreError.isConnectionLoss, StoreError.isSessionExpired]

theorem told_torn : (reader.visit ["a", "b"]).told (shelf torn) {} =
    [⟨.beginRead "/services/a", .ok none⟩,
      ⟨.finishRead "/services/a", .ok (queueAt "10.0.0.1").encode⟩,
      ⟨.beginRead "/services/b", .ok (some 200)⟩,
      ⟨.finishRead "/services/b", .error ⟨.connectionLoss, "/services/b"⟩⟩] := by
  simp [visit, visitAt, reader, isQuarantined, Path.child, begin', collect, enqueue, finish,
    Script.pauseFor, Script.told, shelf, torn, Bind.bind, Script.bind, Pure.pure, reap_encode,
    isFatal, StoreError.isConnectionLoss, StoreError.isSessionExpired]

/-- Of four nodes the records are published that could be read in time; where the connection is lost
nothing is published. -/
theorem visit_publishes_four_or_nothing :
    let told := (reader.visit ["a", "b", "c", "d"]).told (shelf mixed) {}
    (shelf mixed).IsQuiet ∧ (shelf torn).IsQuiet ∧
    (reads told).map (·.1) = ["/services/a", "/services/b", "/services/c"] ∧
    (∃ rs, Record.Read told rs ∧
      ((reader.visit ["a", "b", "c", "d"]).execute (shelf mixed) {}).2.Shows rs) ∧
    ((reader.visit ["a", "b"]).execute (shelf torn) {}).2.edition = 0 := by
  intro told
  have hreads : reads told = [("/services/a", .ok (queueAt "10.0.0.1").encode),
      ("/services/b", .ok []), ("/services/c", .error ⟨.noNode, "/services/c"⟩)] := by
    rw [show told = _ from told_mixed]
    rfl
  have hlost : ("/services/b", .error ⟨.connectionLoss, "/services/b"⟩) ∈
      reads ((reader.visit ["a", "b"]).told (shelf torn) {}) := by
    rw [told_torn]
    simp [reads, Exchange.read?]
  have hmixed := (visit_publishes_what_it_read_or_nothing (isQuiet_shelf mixed) reader
    ["a", "b", "c", "d"] {}).2.1
  have htorn := (visit_publishes_what_it_read_or_nothing (isQuiet_shelf torn) reader
    ["a", "b"] {}).2.2
  simp only [shared_shelf] at hmixed htorn
  refine ⟨isQuiet_shelf _, isQuiet_shelf _, by rw [hreads]; rfl, ?_, ?_⟩
  · have hcalm : ∀ path e, (path, .error e) ∈ reads told → isFatal e = false := by
      intro path e he
      simp only [hreads, List.mem_cons, Prod.mk.injEq, reduceCtorEq, and_false, Except.error.injEq,
        List.not_mem_nil, or_false, false_or] at he
      rw [he.2]
      rfl
    obtain ⟨-, -, -, rs, hread, hshows, -⟩ := hmixed hcalm
    exact ⟨rs, hread, hshows⟩
  · generalize (reader.visit ["a", "b"]).execute (shelf torn) {} = out at htorn ⊢
    obtain ⟨path, e, he, -, hresult, hsame⟩ := htorn ⟨_, _, hlost, rfl⟩
    rw [hsame]

end Follower

end ServiceRegistry
