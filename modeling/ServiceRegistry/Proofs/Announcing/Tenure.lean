import ServiceRegistry.Proofs.Announcing.Rosters
import ServiceRegistry.Proofs.Script.Amid
import ServiceRegistry.Proofs.Store.Ready

/-! # What a publisher remembers

A tenure is the life of one publisher. It makes visits one after the other, for any sessions;
between two steps of a visit anything may happen to the store, and the roster may be changed. A
publisher confirms a record before it makes the node, and forgets a name only after it heard that
the node is gone. So, as long as no injected failure says that a node is gone, a publisher never
forgets an ephemeral node that it made and that is still there (`no_made_node_is_forgotten`), and
after a visit that succeeds it remembers exactly the names of the records that the visit saw. -/

namespace ServiceRegistry

/-- No injected failure says that a node is gone. -/
def Store.IsTruthful (s : Store) : Prop := (.delete, .noNode) ∉ s.failures

instance (s : Store) : Decidable s.IsTruthful := inferInstanceAs (Decidable (_ ∉ _))

namespace Publisher

open Store

/-! ### Nodes that were made -/

/-- The path of the ephemeral node that a call made, if it made one. -/
def madeBy : Exchange → List String
  | ⟨.create path _ .ephemeral, .ok _⟩ => [path]
  | _ => []

theorem mem_madeBy_create {root path : String} {data : Bytes} {r : Record}
    {answer : Except StoreError Unit}
    (h : path ∈ madeBy ⟨.create (Path.child root r.nodeName) data (mode r), answer⟩) :
    path = Path.child root r.nodeName ∧ r.isStatic = false := by
  cases hs : r.isStatic with
  | true =>
      rw [mode, hs] at h
      cases h
  | false =>
      rw [mode, hs] at h
      cases answer with
      | ok _ => exact ⟨List.mem_singleton.mp h, rfl⟩
      | error e => cases h

/-- All nodes that were made are children of the publisher's root with names that it remembers. -/
def Remembers (p : Publisher) (made : List String) : Prop :=
  ∀ path ∈ made, ∃ name, path = Path.child p.root name ∧ p.confirmed.contains name = true

/-- A store and a roster, with the paths of the ephemeral nodes that visits made and that have been
there since. -/
structure Holding where
  store : Store
  roster : Roster := {}
  made : List String := []

namespace Holding

variable (h : Holding)

/-- After something happened to the store, and perhaps nodes were made. -/
def next (s : Store) (made : List String) : Holding :=
  { h with
    store := s
    made := (h.made ++ made).filter s.nodes.contains }

/-- After a call of a session. -/
def after (id : SessionId) (r : Request) : Holding :=
  h.next (h.store.serve id r).2 (madeBy ⟨r, (h.store.serve id r).1⟩)

/-- A publisher that runs a visit for a session, among others that may take nodes away but make
none of its own. -/
def party (id : SessionId) : Script.Party Holding Roster where
  get := Holding.roster
  set t h := { h with roster := t }
  answers h r answer h' := answer = (h.store.serve id r).1 ∧ h' = h.after id r
  drift h h' := h'.made ⊆ h.made ∧ (h.store.IsTruthful → h'.store.IsTruthful)
  drift_refl _ := ⟨fun _ hp => hp, fun ht => ht⟩
  drift_trans h h' := ⟨fun _ hp => h.1 (h'.1 hp), fun ht => h'.2 (h.2 ht)⟩

end Holding

/-! ### Keeping names -/

/-- The publisher has its root, remembers what was made, and is told the truth. -/
structure Holds (root : String) (p : Publisher) (h : Holding) : Prop where
  root_eq : p.root = root
  truthful : h.store.IsTruthful
  remembers : p.Remembers h.made

namespace Holds

variable {root name : String} {p : Publisher} {h h' : Holding} {id : SessionId} {r : Request}

theorem drift (hp : Holds root p h) (hd : (Holding.party id).drift h h') : Holds root p h' :=
  ⟨hp.root_eq, hd.2 hp.truthful, fun path hpath => hp.remembers path (hd.1 hpath)⟩

theorem confirm (hp : Holds root p h) (r : Record) (generation : Nat) :
    Holds root (p.confirm r generation) h := by
  refine ⟨(p.root_confirm r generation).trans hp.root_eq, hp.truthful, fun path hpath => ?_⟩
  obtain ⟨name, rfl, hname⟩ := hp.remembers path hpath
  refine ⟨name, by rw [root_confirm], ?_⟩
  rw [Dict.contains, find?_confirm]
  split
  · rfl
  · exact hname

/-- A call may make nodes whose names are remembered. -/
theorem after (hp : Holds root p h)
    (hmade : p.Remembers (madeBy ⟨r, (h.store.serve id r).1⟩)) : Holds root p (h.after id r) := by
  refine ⟨hp.root_eq, fun hf => ?_, fun path hpath => ?_⟩
  · exact hp.truthful ((h.store.milder_serve id r).failures_subset hf)
  · exact (List.mem_append.mp (List.mem_filter.mp hpath).1).elim (hp.remembers path) (hmade path)

/-- A node that was deleted, or found gone, is not there any more. -/
theorem not_mem_made (hp : Holds root p h) {answer : Except StoreError Unit} {path : String}
    (hanswer : answer = (h.store.serve id (.delete path)).1)
    (hgone : ∀ e, answer = .error e → e.isNoNode = true) :
    path ∉ (h.after id (.delete path)).made := by
  have hcontains : (h.store.serve id (.delete path)).2.nodes.contains path = false := by
    rcases h.store.delete_cases id path with
      ⟨code, s', hserve, ha, hwhy⟩ | ⟨s', hserve, -, -, -⟩
    · rw [serve, hserve, ha.nodes_eq]
      rw [serve, hserve] at hanswer
      have hcode : code = .noNode := by simpa [StoreError.isNoNode] using hgone _ hanswer
      subst hcode
      rcases hwhy with hrefuses | ⟨-, hc⟩ | ⟨hcode, -⟩
      · rcases hrefuses with ⟨-, hcode⟩ | ⟨-, -, -, hcode⟩ | hinjected
        · cases hcode
        · cases hcode
        · exact absurd hinjected hp.truthful
      · exact hc
      · cases hcode
    · rw [serve, hserve, nodes_drop]
      simp [Dict.contains]
  intro hmem
  have hthere := (List.mem_filter.mp hmem).2
  exact Bool.noConfusion (hthere.symm.trans hcontains)

/-- A name whose node is gone may be forgotten. -/
theorem erase (hp : Holds root p h) (hgone : Path.child root name ∉ h.made) :
    Holds root { p with confirmed := p.confirmed.erase name } h := by
  refine ⟨hp.root_eq, hp.truthful, fun path hpath => ?_⟩
  obtain ⟨other, rfl, hother⟩ := hp.remembers path hpath
  refine ⟨other, rfl, ?_⟩
  have hne : name ≠ other := by
    rintro rfl
    exact hgone (hp.root_eq ▸ hpath)
  simpa [Dict.contains, hne] using hother

end Holds

section Leading

variable {root : String} {p : Publisher} {h : Holding}

/-- What a visit, or a part of it, is to leave. -/
abbrev LeavesHeld (root : String) (out : Publisher × Except StoreError Unit) (h : Holding) :
    Prop := Holds root out.1 h

theorem leads_of_holds {id : SessionId} {result : Except StoreError Unit} (hp : Holds root p h) :
    (Script.done (p, result)).Leads (Holding.party id) (LeavesHeld root) h :=
  fun _ hd => hp.drift hd

theorem leads_makeMissing_of_holds (id : SessionId) (names : List String) (generation : Nat)
    (rs : List Record) (hp : Holds root p h) :
    (makeMissing names generation rs p).Leads (Holding.party id) (LeavesHeld root) h := by
  induction rs generalizing p h with
  | nil => exact leads_of_holds hp
  | cons r rs ih =>
      have hconfirmed := hp.confirm r generation
      unfold makeMissing
      dsimp only
      split
      · exact ih hconfirmed
      · rintro h' hd answer h'' ⟨rfl, rfl⟩
        have hafter : Holds root (p.confirm r generation) (h'.after id
            (.create (Path.child (p.confirm r generation).root r.nodeName) r.encode (mode r))) := by
          refine (hconfirmed.drift hd).after fun path hpath => ?_
          -- Only the node of a record that is not static is ephemeral, and that was just confirmed.
          obtain ⟨rfl, hs⟩ := mem_madeBy_create hpath
          refine ⟨r.nodeName, rfl, ?_⟩
          rw [Dict.contains, find?_confirm, if_pos ⟨hs, rfl⟩]
          rfl
        dsimp only
        split
        · exact ih hafter
        · split
          · exact ih hafter
          · exact leads_of_holds hafter

theorem leads_sweep_of_holds (id : SessionId) (names : List String) (hp : Holds root p h) :
    (sweep names p).Leads (Holding.party id) (LeavesHeld root) h := by
  induction names generalizing p h with
  | nil => exact leads_of_holds hp
  | cons name names ih =>
      rintro h' hd answer h'' ⟨hanswer, rfl⟩
      have hdrifted := hp.drift hd
      have hafter : Holds root p (h'.after id (.delete (Path.child p.root name))) :=
        hdrifted.after fun path hpath => by cases hpath
      cases answer with
      | ok _ =>
          have hgone := hdrifted.not_mem_made hanswer fun e he => by cases he
          exact ih (hafter.erase (hp.root_eq ▸ hgone))
      | error e =>
          dsimp only
          split
          · next hnone =>
            have hgone := hdrifted.not_mem_made hanswer fun e' he => by cases he; exact hnone
            exact ih (hafter.erase (hp.root_eq ▸ hgone))
          · exact leads_of_holds hafter

theorem leads_removeStatic_of_holds (id : SessionId) (rs : List Record) (hp : Holds root p h) :
    (removeStatic root rs).Leads (Holding.party id) (fun _ h => Holds root p h) h := by
  induction rs generalizing h with
  | nil => exact fun _ hd => hp.drift hd
  | cons r rs ih =>
      rintro h' hd answer h'' ⟨rfl, rfl⟩
      have hafter : Holds root p (h'.after id (.delete (Path.child root r.nodeName))) :=
        (hp.drift hd).after fun path hpath => by cases hpath
      have hremoved : (Script.change (·.unqueue r) (removeStatic root rs)).Leads
          (Holding.party id) (fun _ h => Holds root p h)
          (h'.after id (.delete (Path.child root r.nodeName))) := by
        intro h'' hd'
        obtain ⟨hroot, htruthful, hremembers⟩ := hafter.drift hd'
        exact ih ⟨hroot, htruthful, hremembers⟩
      dsimp only
      split
      · exact hremoved
      · split
        · exact hremoved
        · exact ih hafter

theorem leads_visit_of_holds (id : SessionId) (names : List String) (generation : Nat)
    (hp : Holds root p h) :
    (p.visit names generation).Leads (Holding.party id) (LeavesHeld root) h := by
  rw [visit_eq]
  intro h' hd
  have hmake := leads_makeMissing_of_holds id names generation h'.roster.desired (hp.drift hd)
  refine Script.leads_bind (hmake.mono ?_)
  rintro ⟨q, result⟩ h₁ hq
  cases result with
  | error e => exact leads_of_holds hq
  | ok _ =>
      refine Script.leads_bind ((leads_sweep_of_holds id (q.stale generation) hq).mono ?_)
      rintro ⟨q', result'⟩ h₂ hq'
      cases result' with
      | error e => exact leads_of_holds hq'
      | ok _ =>
          intro h₃ hd'
          have hq₃ := hq'.drift hd'
          obtain rfl : q'.root = root := hq'.root_eq
          refine Script.leads_bind ((leads_removeStatic_of_holds id _ hq₃).mono ?_)
          exact fun _ _ hq'' => leads_of_holds hq''

end Leading

/-! ### Stamps -/

/-- Every name is stamped with one of some generations. -/
def StampedIn (generations : List Nat) (p : Publisher) : Prop :=
  ∀ name seen, p.confirmed.find? name = some seen → seen ∈ generations

/-- The names are those of the desired records that are not static, each with the stamp of a
generation. -/
def IsStamped (p : Publisher) (t : Roster) (generation : Nat) : Prop :=
  ∀ name seen, p.confirmed.find? name = some seen ↔
    seen = generation ∧ ∃ r ∈ t.desired, r.isStatic = false ∧ r.nodeName = name

/-- What a visit leaves that saw a roster, after visits of some generations. -/
structure Stamps (generations : List Nat) (generation : Nat) (t : Roster)
    (out : Publisher × Except StoreError Unit) : Prop where
  known : out.1.StampedIn (generation :: generations)
  exactly : out.2 = .ok () → generation ∉ generations → out.1.IsStamped t generation

section Stamping

variable {p q : Publisher} {t : Roster} {generation : Nat} {generations : List Nat}

theorem StampedIn.confirm (h : p.StampedIn (generation :: generations)) (r : Record) :
    (p.confirm r generation).StampedIn (generation :: generations) := by
  intro name seen hseen
  rw [find?_confirm] at hseen
  split at hseen
  · cases hseen
    exact List.mem_cons_self
  · exact h name seen hseen

theorem StampedIn.erase (h : p.StampedIn generations) (name : String) :
    StampedIn generations { p with confirmed := p.confirmed.erase name } := by
  intro other seen hseen
  rw [Dict.find?_erase] at hseen
  split at hseen
  · cases hseen
  · exact h other seen hseen

/-- Names that were swept are forgotten, and no others. -/
theorem keeps_sweep_find? (names : List String) (p : Publisher) :
    (sweep names p).Keeps {} fun out => out.2 = .ok () → ∀ name,
      out.1.confirmed.find? name = if name ∈ names then none else p.confirmed.find? name := by
  induction names generalizing p with
  | nil => exact fun _ name => by simp
  | cons first names ih =>
      have hrest : (sweep names { p with confirmed := p.confirmed.erase first }).Keeps {} fun out =>
          out.2 = .ok () → ∀ name, out.1.confirmed.find? name =
            if name ∈ first :: names then none else p.confirmed.find? name := by
        refine (ih { p with confirmed := p.confirmed.erase first }).mono fun out hout hok name => ?_
        rw [hout hok name, Dict.find?_erase]
        by_cases hmem : name ∈ names
        · simp [hmem]
        · by_cases hname : first = name
          · simp [hname]
          · simp [hmem, hname, Ne.symm hname]
      refine ⟨trivial, fun answer _ => ?_⟩
      cases answer with
      | ok _ => exact hrest
      | error e =>
          dsimp only
          split
          · exact hrest
          · exact fun hok => by cases hok

/-- A sweep leaves the names that were confirmed in the generation of a visit. -/
theorem isStamped_of_sweep (hp : p.StampedIn generations) (hnew : generation ∉ generations)
    (hq : ∀ name, q.confirmed.find? name =
      if name ∈ (p.confirmAll t.desired generation).stale generation then none
      else (p.confirmAll t.desired generation).confirmed.find? name) :
    q.IsStamped t generation := by
  intro name seen
  rw [hq name]
  split
  · next hstale =>
    obtain ⟨-, -, -, hstatic⟩ := mem_stale_confirmAll_iff.mp hstale
    refine iff_of_false (fun hseen => by cases hseen) ?_
    rintro ⟨-, r, hr, hs, hname⟩
    exact Bool.noConfusion (hs.symm.trans (hstatic r hr hname))
  · next hfresh =>
    rw [find?_confirmAll]
    by_cases hwanted : ∃ r ∈ t.desired, r.isStatic = false ∧ r.nodeName = name
    · rw [if_pos hwanted, and_iff_left hwanted, Option.some.injEq, eq_comm]
    · rw [if_neg hwanted]
      refine iff_of_false (fun hseen => hfresh (mem_stale_iff.mpr ⟨seen, ?_, ?_⟩)) fun h =>
        hwanted h.2
      · rw [find?_confirmAll, if_neg hwanted, hseen]
      · rintro rfl
        exact hnew (hp name seen hseen)

theorem keeps_afterLook_stamps (hp : p.StampedIn generations) (names : List String)
    (generation : Nat) (t : Roster) :
    (p.afterLook names generation t).Keeps {} (Stamps generations generation t) := by
  have hknown : p.StampedIn (generation :: generations) := fun name seen hseen =>
    List.mem_cons_of_mem _ (hp name seen hseen)
  have hmake := @keeps_makeMissing {} (StampedIn (generation :: generations)) generation names
    t.desired p hknown (fun _ r _ hq => hq.confirm r) fun _ _ => trivial
  refine Script.keeps_bind (hmake.mono ?_)
  rintro ⟨q, result⟩ ⟨hq, -, hall⟩
  cases result with
  | error e => exact ⟨hq, fun hok => by cases hok⟩
  | ok _ =>
      obtain rfl : q = p.confirmAll t.desired generation := hall rfl
      have hsweep := @keeps_sweep {} (StampedIn (generation :: generations))
        ((p.confirmAll t.desired generation).stale generation) _ hq
        (fun _ name hq => hq.erase name) fun _ _ => trivial
      refine Script.keeps_bind ((hsweep.and (keeps_sweep_find? _ _)).mono ?_)
      rintro ⟨q, result⟩ ⟨⟨hq, -⟩, hfind⟩
      cases result with
      | error e => exact ⟨hq, fun hok => by cases hok⟩
      | ok _ =>
          refine fun _ _ => Script.keeps_bind ((Script.keeps_trivial _).mono fun _ _ => ?_)
          exact ⟨hq, fun _ hnew => isStamped_of_sweep hp hnew (hfind rfl)⟩

end Stamping

/-! ### Tenures -/

/-- A visit that goes on. -/
structure Ongoing where
  session : SessionId
  generation : Nat
  /-- How the roster was whenever the visit looked at it, the first look first. -/
  looked : List Roster := []
  /-- What is left of the visit. -/
  rest : Script Roster (Publisher × Except StoreError Unit)

/-- A publisher with its roster over a store. During a visit, the publisher is the one that began
it. -/
structure Tenure extends Holding where
  publisher : Publisher
  visit : Option Ongoing := none
  /-- The generations of the visits that ended. -/
  generations : List Nat := []

namespace Tenure

/-- A visit made a step. -/
def worked (c : Tenure) (v : Ongoing) (e : Option Exchange) (s : Store) (t : Roster)
    (rest : Script Roster (Publisher × Except StoreError Unit)) : Tenure :=
  { c with
    toHolding := { c.toHolding.next s (e.toList.flatMap madeBy) with roster := t }
    visit := some { v with looked := v.looked ++ v.rest.looked c.roster, rest } }

/-- What can happen in a tenure. -/
inductive Step : Tenure → Tenure → Prop
  | ask (c : Tenure) (w : Roster.Wish) : Step c { c with roster := c.roster.heed w }
  /-- Something is done to the store, such as the end of a session. -/
  | deed (c : Tenure) {d : Deed} (honest : d ≠ .failNext .delete .noNode) :
      Step c { c with toHolding := c.toHolding.next (c.store.perform d) [] }
  /-- The publisher may ask for a pass. -/
  | request {c : Tenure} (idle : c.visit = none) (generation : Nat) :
      Step c { c with publisher := (c.publisher.request c.roster generation).1 }
  /-- A visit begins over any children. -/
  | visit {c : Tenure} (idle : c.visit = none) (session : SessionId) (names : List String)
      (generation : Nat) :
      Step c { c with
        visit := some { session, generation, rest := c.publisher.visit names generation } }
  | work {c : Tenure} {v : Ongoing} (goes : c.visit = some v) {e : Option Exchange} {s : Store}
      {t : Roster} {rest : Script Roster (Publisher × Except StoreError Unit)}
      (step : v.rest.Step v.session c.store c.roster e rest s t) : Step c (c.worked v e s t rest)
  | finish {c : Tenure} {v : Ongoing} (goes : c.visit = some v) {p : Publisher}
      {result : Except StoreError Unit} (ends : v.rest = .done (p, result)) :
      Step c { c with
        publisher := p
        visit := none
        generations := v.generation :: c.generations }

/-- A tenure is reached from the start of a publisher over a store. -/
def Reachable (root : String) (s : Store) (c : Tenure) : Prop :=
  Relation.ReflTransGen Step { publisher := { root }, store := s } c

/-- How the publisher, its visit, and the store belong together. -/
structure IsSound (root : String) (c : Tenure) : Prop where
  holds : c.visit = none → Holds root c.publisher c.toHolding
  leads : ∀ v, c.visit = some v →
    v.rest.Leads (Holding.party v.session) (LeavesHeld root) c.toHolding
  stamped : c.publisher.StampedIn c.generations
  stamps : ∀ v, c.visit = some v →
    (v.looked = [] ∧ ∃ names, v.rest = c.publisher.visit names v.generation) ∨
      ∃ t later, v.looked = t :: later ∧ v.rest.Keeps {} (Stamps c.generations v.generation t)

namespace IsSound

variable {root : String} {c : Tenure} {v : Ongoing}

/-- What others do to the store and the roster takes nodes away at most. -/
theorem drift (hc : IsSound root c) {h : Holding}
    (hmade : h.made ⊆ c.made) (htruthful : c.store.IsTruthful → h.store.IsTruthful) :
    IsSound root { c with toHolding := h } where
  holds idle :=
    have hdrift : (Holding.party 0).drift c.toHolding h := ⟨hmade, htruthful⟩
    (hc.holds idle).drift hdrift
  leads v hv := (hc.leads v hv).drift ⟨hmade, htruthful⟩
  stamped := hc.stamped
  stamps := hc.stamps

theorem deed (hc : IsSound root c) {d : Deed} (honest : d ≠ .failNext .delete .noNode) :
    IsSound root { c with toHolding := c.toHolding.next (c.store.perform d) [] } := by
  refine hc.drift (fun path hpath => ?_) fun htruthful hf => ?_
  · exact (List.append_nil c.made) ▸ (List.mem_filter.mp hpath).1
  · exact (c.store.failures_perform d hf).elim htruthful honest

theorem request (hc : IsSound root c) (idle : c.visit = none) (generation : Nat) :
    IsSound root { c with publisher := (c.publisher.request c.roster generation).1 } := by
  unfold Publisher.request
  split
  · obtain ⟨hroot, htruthful, hremembers⟩ := hc.holds idle
    exact ⟨fun _ => ⟨hroot, htruthful, hremembers⟩, hc.leads, hc.stamped,
      fun v hv => by cases idle.symm.trans hv⟩
  · exact hc

theorem visit (hc : IsSound root c) (idle : c.visit = none) (session : SessionId)
    (names : List String) (generation : Nat) : IsSound root { c with
      visit := some { session, generation, rest := c.publisher.visit names generation } } where
  holds hnone := by cases hnone
  leads v hv := by
    cases hv
    exact leads_visit_of_holds session names generation (hc.holds idle)
  stamped := hc.stamped
  stamps v hv := by
    cases hv
    exact .inl ⟨rfl, names, rfl⟩

theorem work (hc : IsSound root c) (hv : c.visit = some v) {e : Option Exchange} {s : Store}
    {t : Roster} {rest : Script Roster (Publisher × Except StoreError Unit)}
    (hstep : v.rest.Step v.session c.store c.roster e rest s t) :
    IsSound root (c.worked v e s t rest) where
  holds hnone := by cases hnone
  leads v' hv' := by
    cases hv'
    have hleads := hc.leads v hv
    rcases hstep.store_cases with ⟨r, rfl, rfl⟩ | ⟨rfl, rfl⟩
    · refine hleads.step hstep rfl rfl (fun r' hr' _ ht => ?_) fun hnone => by cases hnone
      cases hr'
      refine ⟨rfl, ?_⟩
      rw [ht]
      exact congrArg (c.toHolding.next _) (List.append_nil _)
    · have hquiet : rest.Leads (Holding.party v.session) (LeavesHeld root)
          { c.toHolding with roster := t } :=
        hleads.step hstep rfl rfl (fun r hr => by cases hr) fun _ => rfl
      refine hquiet.drift ⟨fun path hpath => ?_, fun ht => ht⟩
      exact (List.append_nil c.made) ▸ (List.mem_filter.mp hpath).1
  stamped := hc.stamped
  stamps v' hv' := by
    cases hv'
    refine .inr ?_
    rcases hc.stamps v hv with ⟨hlooked, names, hrest⟩ | ⟨t₀, later, hlooked, hkeeps⟩
    · obtain ⟨session, generation, looked, rest⟩ := v
      dsimp only at hlooked hrest
      subst hlooked hrest
      dsimp only [visit_eq] at hstep
      cases hstep
      exact ⟨c.roster, [], rfl, keeps_afterLook_stamps hc.stamped names generation c.roster⟩
    · refine ⟨t₀, _, by rw [hlooked]; rfl, ?_⟩
      exact (hkeeps.step hstep trivial fun _ _ _ => trivial).1

/-- What a visit leaves that has come to its end. -/
theorem ended (hc : IsSound root c) (hv : c.visit = some v) {p : Publisher}
    {result : Except StoreError Unit} (hends : v.rest = .done (p, result)) :
    Holds root p c.toHolding ∧ ∃ t later, v.looked = t :: later ∧
      Stamps c.generations v.generation t (p, result) := by
  have hleads := hc.leads v hv
  have hstamps := hc.stamps v hv
  rw [hends] at hleads hstamps
  refine ⟨hleads _ ((Holding.party v.session).drift_refl _), ?_⟩
  rcases hstamps with ⟨-, names, hrest⟩ | hlooked
  · cases hrest
  · exact hlooked

theorem finish (hc : IsSound root c) (hv : c.visit = some v) {p : Publisher}
    {result : Except StoreError Unit} (hends : v.rest = .done (p, result)) :
    IsSound root { c with
      publisher := p
      visit := none
      generations := v.generation :: c.generations } := by
  obtain ⟨hp, t, later, -, hstamps⟩ := hc.ended hv hends
  exact ⟨fun _ => hp, fun _ hv => (nomatch hv), hstamps.known, fun _ hv => (nomatch hv)⟩

end IsSound

variable {root : String} {s : Store} {c : Tenure}

theorem Step.isSound {c' : Tenure} (hstep : Step c c') (hc : IsSound root c) : IsSound root c' := by
  cases hstep with
  | ask w => exact hc.drift (fun _ hpath => hpath) fun htruthful => htruthful
  | deed honest => exact hc.deed honest
  | request idle generation => exact hc.request idle generation
  | visit idle session names generation => exact hc.visit idle session names generation
  | work goes step => exact hc.work goes step
  | finish goes ends => exact hc.finish goes ends

theorem Reachable.isSound (truthful : s.IsTruthful) (h : Reachable root s c) : IsSound root c := by
  induction h with
  | refl =>
      exact {
        holds := fun _ => ⟨rfl, truthful, fun path hpath => by cases hpath⟩
        leads := fun v hv => by cases hv
        stamped := fun name seen hseen => by cases hseen
        stamps := fun v hv => by cases hv }
  | tail _ hstep ih => exact hstep.isSound ih

end Tenure

/-- Between visits, and at the end of each, a publisher remembers the names of all ephemeral nodes
that it made and that are still there. After a visit that succeeds in a generation of its own it
remembers exactly the names of the records that are not static in the roster that the visit first
saw, each with that generation. -/
theorem no_made_node_is_forgotten {root : String} {s : Store} {c : Tenure}
    (truthful : s.IsTruthful) (h : Tenure.Reachable root s c) :
    (c.visit = none → c.publisher.Remembers c.made) ∧
    ∀ v p result, c.visit = some v → v.rest = .done (p, result) →
      p.Remembers c.made ∧ ∃ t, v.looked.head? = some t ∧
        (result = .ok () → v.generation ∉ c.generations → p.IsStamped t v.generation) := by
  have hsound := h.isSound truthful
  refine ⟨fun idle => (hsound.holds idle).remembers, fun v p result hv hends => ?_⟩
  obtain ⟨hp, t, later, hlooked, hstamps⟩ := hsound.ended hv hends
  exact ⟨hp.remembers, t, by rw [hlooked]; rfl, hstamps.exactly⟩

/-- A session over a root. -/
def openStore : Store := (({} : Store).put "/srv" []).perform .connect

theorem no_made_node_is_forgotten_of_webRecord :
    (∃ c v p, Tenure.Reachable "/srv" openStore c ∧ c.visit = some v ∧
      v.rest = .done (p, .ok ()) ∧ c.made = [Path.child "/srv" webRecord.nodeName] ∧
      p.Remembers c.made ∧ p.IsStamped (({} : Roster).announce webRecord) 1) ∧
    ∃ c, Tenure.Reachable "/srv" openStore c ∧ c.visit = none ∧
      c.made = [Path.child "/srv" webRecord.nodeName] ∧ c.publisher.Remembers c.made := by
  have truthful : openStore.IsTruthful := by decide
  have hstart : Tenure.Reachable "/srv" openStore
      { publisher := { root := "/srv" }, store := openStore } := .refl
  have hvisited := (hstart.tail (.ask _ (.announce webRecord))).tail (.visit rfl 1 [] 1)
  have hlooked := hvisited.tail (.work rfl (.look _ _ _))
  have hmade := hlooked.tail (.work rfl (.call _ _ _ _))
  have hends := hmade.tail (.work rfl (.look _ _ _))
  have hfinished := hends.tail (.finish rfl rfl)
  obtain ⟨hremembers, t, ht, hstamped⟩ :=
    (no_made_node_is_forgotten truthful hends).2 _ _ _ rfl rfl
  cases ht
  refine ⟨⟨_, _, _, hends, rfl, rfl, rfl, hremembers, hstamped rfl (by decide)⟩, ?_⟩
  exact ⟨_, hfinished, rfl, rfl, (no_made_node_is_forgotten truthful hfinished).1 rfl⟩

end Publisher

end ServiceRegistry
