import Mathlib.Logic.Function.Basic
import ServiceRegistry.Proofs.Announcing.Convergence
import ServiceRegistry.Proofs.Client.Following

/-! # Clients agree when they rest

Any number of clients follow the same directory of one store, and announce records there. They are
started and stopped, tick, make the steps of their passes, and change their rosters in any order,
while sessions end and connections are lost and come back (`Fleet.Step`).

When every started client is quiet, they all know the same: the records in the nodes of the
directory, service by service, and each record that one of them announces is among these
(`Fleet.views_agree`). A client is quiet if it holds a connected session without waiting events, has
processed the current generation and has noticed the present roster (`Fleet.IsQuiet`). -/

namespace ServiceRegistry

open Store Worker
open Client (Follows Course)

/-- A client, and its worker while it is started. -/
structure Site where
  client : Client
  bench : Option (Bench (Survey Client.Member) Client.Shared) := none

/-- Clients over one store. -/
structure Fleet (ι : Type) where
  store : Store
  site : ι → Site

namespace Fleet

variable {ι : Type} [DecidableEq ι] (f : Fleet ι) (i : ι)

/-! ### Runs -/

/-- The course of a client's worker. -/
def course (b : Bench (Survey Client.Member) Client.Shared) : Client.Course :=
  ⟨b, f.store, (f.site i).client.shared⟩

/-- The fleet after something was done at one site, and to the store. -/
def put (s : Store) (site : Site) : Fleet ι := ⟨s, Function.update f.site i site⟩

/-- The worker of a client has come to a point. -/
def place (c : Client.Course) : Fleet ι :=
  f.put i c.store
    { client := { (f.site i).client with shared := c.shared }, bench := some c.bench }

/-- A client is started. -/
def start : Fleet ι :=
  f.place i (Worker.Course.start (f.site i).client.survey f.store (f.site i).client.shared)

/-- The worker of a client has ended. -/
def retire : Fleet ι := f.put i f.store { f.site i with bench := none }

/-- A client takes the place of one that differs in what it shares. -/
def replace (client : Client) : Fleet ι := f.put i f.store { f.site i with client }

/-- What happens to the store besides what clients do. Anyone may put nodes elsewhere and remove
nodes, and sessions end, lose their connection and get it back. -/
def IsForeign (root : String) : Deed → Prop
  | .put path _ => ∀ p ∈ path :: Path.chain (Path.elements path), Path.parent p ≠ root
  | .remove _ => True
  | .expire _ => True
  | .disconnect _ => True
  | .reconnect _ => True
  | _ => False

/-- A step of a run in which records of a kind are announced. -/
inductive Step (used : Record → Prop) (root : String) : Fleet ι → Fleet ι → Prop
  | start {f : Fleet ι} {i : ι} (enabled : (f.site i).client.settings.enabled = true)
      (stopped : (f.site i).bench = none) : Step used root f (f.start i)
  | move {f : Fleet ι} {i : ι} {b : Bench (Survey Client.Member) Client.Shared}
      {c : Client.Course} (started : (f.site i).bench = some b)
      (move : Course.Move (f.course i b) c) : Step used root f (f.place i c)
  | retire {f : Fleet ι} {i : ι} {b : Bench (Survey Client.Member) Client.Shared}
      (started : (f.site i).bench = some b) (ended : b.isOver = true) :
      Step used root f (f.retire i)
  | announce {f : Fleet ι} {i : ι} {r : Record} {client : Client} (h : used r)
      (done : (f.site i).client.announce r = .ok client) : Step used root f (f.replace i client)
  | withdraw {f : Fleet ι} {i : ι} {r : Record} {client : Client}
      (done : (f.site i).client.withdraw r = .ok client) : Step used root f (f.replace i client)
  | withdrawAll {f : Fleet ι} {i : ι} {client : Client}
      (done : (f.site i).client.withdrawAll = .ok client) : Step used root f (f.replace i client)
  | deed {f : Fleet ι} (d : Deed) (h : IsForeign root d) :
      Step used root f { f with store := f.store.perform d }

/-- The second fleet is reached from the first. -/
def Reachable (used : Record → Prop) (root : String) : Fleet ι → Fleet ι → Prop :=
  Relation.ReflTransGen (Step used root)

/-- Nothing was announced or started yet, and the directory is empty. No failure is injected, and
reads take no time. -/
structure IsFresh (root : String) : Prop where
  stopped : ∀ i, (f.site i).bench = none
  root_eq : ∀ i, (f.site i).client.settings.root = root
  desired : ∀ i, (f.site i).client.roster.desired = []
  bare : f.store.childPaths root = []
  failures_eq : f.store.failures = []
  readDelay_eq : f.store.readDelay = 0

/-! ### The invariant -/

/-- What holds of a fleet all the time. -/
structure Sound (used : Record → Prop) (root : String) (f : Fleet ι) : Prop where
  tidy : f.store.Tidy used root
  root_eq : ∀ i, (f.site i).client.settings.root = root
  desired_used : ∀ i, ∀ r ∈ (f.site i).client.roster.desired, used r
  follows : ∀ i b, (f.site i).bench = some b →
    ∃ noticed, Follows used root (f.site i).client.announces noticed (f.course i b)
  apart : ∀ i j b b' id, i ≠ j → (f.site i).bench = some b → (f.site j).bench = some b' →
    b.worker.session = some id → b'.worker.session ≠ some id

variable {f} {i} {used : Record → Prop} {root : String} {g : Fleet ι}

omit [DecidableEq ι] in
theorem IsFresh.sound (h : f.IsFresh root) (hroot : Path.IsDirectory root) :
    f.Sound used root where
  tidy := {
    nodes := by
      intro path node hfind hp
      have hne : path ≠ root := by
        rintro rfl
        obtain ⟨name, -, hpath⟩ := (Path.eq_child_iff hroot).mp hp
        exact Path.child_ne_self path name hpath.symm
      have hmem : path ∈ f.store.childPaths root :=
        f.store.mem_childPaths_iff.mpr ⟨by simp [Dict.contains, hfind], hne, hp⟩
      rw [h.bare] at hmem
      cases hmem
    failures_eq := h.failures_eq
    readDelay_eq := h.readDelay_eq }
  root_eq := h.root_eq
  desired_used i r hr := by
    rw [h.desired i] at hr
    cases hr
  follows i b hb := by cases (h.stopped i).symm.trans hb
  apart i j b b' id _ hb := by cases (h.stopped i).symm.trans hb

theorem site_put_self (s : Store) (site : Site) : (f.put i s site).site i = site :=
  Function.update_self _ _ _

theorem site_put_of_ne {j : ι} (s : Store) (site : Site) (hj : j ≠ i) :
    (f.put i s site).site j = f.site j := Function.update_of_ne hj _ _

namespace Sound

/-- Something was done at one site, and what was done to the store the others were told of. -/
theorem put (h : f.Sound used root) {s : Store} {site : Site} (htidy : s.Tidy used root)
    (hroot : site.client.settings.root = root)
    (hdesired : ∀ r ∈ site.client.roster.desired, used r)
    (hfollows : ∀ b, site.bench = some b →
      ∃ noticed, Follows used root site.client.announces noticed ⟨b, s, site.client.shared⟩)
    (htells : ∀ j b id, j ≠ i → (f.site j).bench = some b → b.worker.session = some id →
      Tells root id f.store s)
    (hopened : f.store.opened ≤ s.opened)
    (hapart : ∀ b, site.bench = some b → ∀ j b' id, j ≠ i → (f.site j).bench = some b' →
      b'.worker.session = some id → b.worker.session ≠ some id) :
    (f.put i s site).Sound used root where
  tidy := htidy
  root_eq j := by
    by_cases hj : j = i
    · subst hj
      rw [site_put_self]
      exact hroot
    · rw [site_put_of_ne s site hj]
      exact h.root_eq j
  desired_used j := by
    by_cases hj : j = i
    · subst hj
      rw [site_put_self]
      exact hdesired
    · rw [site_put_of_ne s site hj]
      exact h.desired_used j
  follows j b hb := by
    by_cases hj : j = i
    · subst hj
      rw [site_put_self] at hb
      rw [course, site_put_self]
      exact hfollows b hb
    · rw [site_put_of_ne s site hj] at hb
      obtain ⟨noticed, hother⟩ := h.follows j b hb
      refine ⟨noticed, ?_⟩
      rw [course, site_put_of_ne s site hj]
      exact hother.others (fun id hid => htells j b id hj hb hid) hopened rfl hother.desired_used
        (Nat.le_refl _) fun _ => rfl
  apart j k b b' id hjk hb hb' hid := by
    by_cases hj : j = i
    · subst hj
      rw [site_put_self] at hb
      rw [site_put_of_ne s site hjk.symm] at hb'
      exact fun hid' => hapart b hb k b' id hjk.symm hb' hid' hid
    · rw [site_put_of_ne s site hj] at hb
      by_cases hk : k = i
      · subst hk
        rw [site_put_self] at hb'
        exact hapart b' hb' j b id hj hb hid
      · rw [site_put_of_ne s site hk] at hb'
        exact h.apart j k b b' id hjk hb hb' hid

theorem start (h : f.Sound used root) : (f.start i).Sound used root := by
  refine h.put h.tidy (h.root_eq i) (h.desired_used i) ?_ (fun _ _ _ _ _ _ => .refl _)
    (Nat.le_refl _) ?_
  · intro b hb
    cases hb
    have hfollows := Follows.start (h.desired_used i) f.store
    rw [h.root_eq i] at hfollows
    exact ⟨0, hfollows⟩
  · intro b hb _ _ _ _ _ _ hid
    cases hb
    cases hid

theorem move (h : f.Sound used root) (hroot : Path.IsDirectory root)
    (hd : Publisher.Distinct used) {b : Bench (Survey Client.Member) Client.Shared}
    {c : Client.Course} (started : (f.site i).bench = some b)
    (hm : Course.Move (f.course i b) c) : (f.place i c).Sound used root := by
  obtain ⟨noticed, hfollows⟩ := h.follows i b started
  obtain ⟨noticed', hfollows'⟩ := hfollows.move h.tidy hroot hd hm
  have hdeeds := hfollows.byDeeds hm
  -- the session of another client is neither the one that is held here nor a new one
  have hother : ∀ j b' id, j ≠ i → (f.site j).bench = some b' → b'.worker.session = some id →
      ¬b.worker.Mine f.store id := by
    rintro j b' id hj hb' hid (hmine | hnew)
    · exact h.apart i j b b' id hj.symm started hb' hmine hid
    · obtain ⟨_, hfollows⟩ := h.follows j b' hb'
      exact absurd (hfollows.attends.opened id hid) (Nat.not_le.mpr hnew)
  refine h.put (hfollows.tidy h.tidy hm) (h.root_eq i) hfollows'.desired_used ?_ ?_
    hdeeds.opened_le ?_
  · intro b' hb'
    cases hb'
    exact ⟨noticed', hfollows'⟩
  · intro j b' id hj hb' hid
    refine tells_of_byDeeds hdeeds ?_
    rintro d hown rfl
    exact hother j b' id hj hb' hid hown
  · intro b' hb' j b'' id hj hb'' hid hid'
    cases hb'
    exact hother j b'' id hj hb'' hid (hm.session hid')

theorem retire (h : f.Sound used root) : (f.retire i).Sound used root :=
  h.put h.tidy (h.root_eq i) (h.desired_used i) (fun _ hb => by cases hb)
    (fun _ _ _ _ _ _ => .refl _) (Nat.le_refl _) fun _ hb => by cases hb

/-- The roster of a client is changed from outside, and rises by a generation. -/
theorem changeRoster (h : f.Sound used root) {client : Client} {change : Roster → Roster}
    (hgen : ∀ t, (change t).generation = t.generation + 1)
    (hused : ∀ t, (∀ r ∈ t.desired, used r) → ∀ r ∈ (change t).desired, used r)
    (done : (f.site i).client.changeRoster change = .ok client) :
    (f.replace i client).Sound used root := by
  unfold Client.changeRoster at done
  split at done
  · cases done
    have hdesired := hused _ (h.desired_used i)
    refine h.put h.tidy (h.root_eq i) hdesired ?_ (fun _ _ _ _ _ _ => .refl _) (Nat.le_refl _) ?_
    · intro b hb
      obtain ⟨noticed, hfollows⟩ := h.follows i b hb
      refine ⟨noticed, hfollows.others (fun _ _ => .refl _) (Nat.le_refl _) rfl hdesired ?_ ?_⟩
      · exact (hgen _).symm ▸ Nat.le_succ _
      · intro hsame
        exact absurd (hsame.symm.trans (hgen _)) (Nat.ne_of_lt (Nat.lt_succ_self _))
    · intro b hb j b' id hj hb' hid hid'
      exact h.apart i j b b' id hj.symm hb hb' hid' hid
  · cases done

omit [DecidableEq ι] in
theorem deed (h : f.Sound used root) {d : Deed} (hd : IsForeign root d) :
    Sound used root { f with store := f.store.perform d } := by
  have hsuits : d.Suits used root := by
    cases d with
    | put path data => exact hd
    | failNext | delayReads | serve => exact hd.elim
    | _ => trivial
  have htells : ∀ id, Tells root id f.store (f.store.perform d) := by
    intro id
    refine tells_perform f.store ?_
    rintro rfl
    exact hd
  refine ⟨h.tidy.perform hsuits, h.root_eq, h.desired_used, fun j b hb => ?_, h.apart⟩
  obtain ⟨noticed, hj⟩ := h.follows j b hb
  exact ⟨noticed, hj.others (fun id _ => htells id) (opened_le_perform f.store d) rfl
    hj.desired_used (Nat.le_refl _) fun _ => rfl⟩

theorem step (h : f.Sound used root) (hroot : Path.IsDirectory root)
    (hd : Publisher.Distinct used) (hs : Step used root f g) : g.Sound used root := by
  cases hs with
  | start enabled stopped => exact h.start
  | move started move => exact h.move hroot hd started move
  | retire started ended => exact h.retire
  | announce hr done =>
      refine h.changeRoster (fun _ => rfl) (fun t ht r' hr' => ?_) done
      rcases Roster.mem_add.mp hr' with rfl | hr'
      · exact hr
      · exact ht r' hr'
  | withdraw done =>
      exact h.changeRoster (fun _ => rfl)
        (fun t ht r' hr' => ht r' (Roster.mem_drop.mp hr').1) done
  | withdrawAll done =>
      exact h.changeRoster (fun _ => rfl) (fun _ _ r hr => (List.not_mem_nil hr).elim) done
  | deed d hd => exact h.deed hd

end Sound

theorem Reachable.sound (h : Reachable used root f g) (hroot : Path.IsDirectory root)
    (hd : Publisher.Distinct used) (fresh : f.IsFresh root) : g.Sound used root := by
  induction h with
  | refl => exact fresh.sound hroot
  | tail _ hstep ih => exact ih.step hroot hd hstep

/-! ### Rest -/

section Rest

omit [DecidableEq ι]

/-- A client that has nothing to do. -/
structure IsQuiet (f : Fleet ι) (i : ι) (b : Bench (Survey Client.Member) Client.Shared) :
    Prop where
  session : ∃ id, b.worker.session = some id ∧ f.store.IsConnected id ∧ f.store.inbox id = []
  processed_eq : b.worker.processed = b.worker.generation
  noticed_eq : ∀ p, .publisher p ∈ b.worker.task.visitors →
    p.noticed = (f.site i).client.roster.generation

instance (f : Fleet ι) (i : ι) (b : Bench (Survey Client.Member) Client.Shared) :
    Decidable (f.IsQuiet i b) :=
  decidable_of_iff
    ((b.worker.session.any fun id =>
        (f.store.session? id).any (·.isConnected) && (f.store.inbox id).isEmpty) = true ∧
      b.worker.processed = b.worker.generation ∧
      ∀ v ∈ b.worker.task.visitors, ∀ p ∈ v.publisher?,
        p.noticed = (f.site i).client.roster.generation)
    (by
      simp only [Client.Member.forall_publisher?_iff, Option.any_eq_true, Bool.and_eq_true,
        List.isEmpty_iff]
      constructor
      · rintro ⟨session, processed_eq, noticed_eq⟩
        exact ⟨session, processed_eq, noticed_eq⟩
      · rintro ⟨session, processed_eq, noticed_eq⟩
        exact ⟨session, processed_eq, noticed_eq⟩)

/-- The record is the payload of a node of the directory. -/
def IsAnnounced (root : String) (f : Fleet ι) (r : Record) : Prop :=
  ∃ name ∈ f.store.children root, ∃ data, f.store.data? (Path.child root name) = some data ∧
    ∃ fresh, Record.decode fresh data = .ok r

/-- A client that is quiet shows the nodes of the directory, and announces by some of them. -/
theorem Sound.displays (h : f.Sound used root)
    {b : Bench (Survey Client.Member) Client.Shared} (started : (f.site i).bench = some b)
    (quiet : f.IsQuiet i b) : ∃ rs, Client.AreNames used rs (f.store.children root) ∧
      Client.Displays (f.site i).client.announces rs (f.site i).client.shared := by
  obtain ⟨noticed, hfollows⟩ := h.follows i b started
  obtain ⟨id, hid, ⟨e, he, -⟩, hinbox⟩ := quiet.session
  obtain ⟨a, ha, hgen, rfl, -⟩ := hfollows.attends.sound.served quiet.processed_eq hid
  obtain ⟨names, hheard, hwatched⟩ := hfollows.attends.completed a ha hgen a.session hid
  have hcalm : Client.Calm root (f.site i).client.announces noticed (f.course i b) a := by
    refine ⟨hgen, ?_, ?_, fun hann => ?_⟩
    · rw [course, he]
      rfl
    · rw [course, hinbox]
      exact List.not_mem_nil
    · obtain ⟨p, hp, hnoticed⟩ := hfollows.survey.crew.exists_publisher hann
      exact hnoticed.symm.trans (quiet.noticed_eq p hp)
  obtain ⟨rs, hrs, hdisplays⟩ := hfollows.completed a names ha hheard hid hcalm
  have hchildren : f.store.children root = names := (hcalm.watched hwatched).1
  exact ⟨rs, hchildren ▸ hrs, hdisplays⟩

theorem isAnnounced_iff (h : f.store.Tidy used root) (hroot : Path.IsDirectory root)
    (hd : Publisher.Distinct used) {rs : List Record}
    (hrs : Client.AreNames used rs (f.store.children root)) (r : Record) :
    f.IsAnnounced root r ↔ r ∈ rs := by
  have hdata : ∀ r' ∈ rs, f.store.data? (Path.child root r'.nodeName) = some r'.encode :=
    fun r' hr' => h.data?_of_listed hroot hd (hrs.2 r' hr') (hrs.1 ▸ List.mem_map_of_mem hr')
  constructor
  · rintro ⟨name, hname, data, hread, fresh, hdecode⟩
    rw [hrs.1] at hname
    obtain ⟨r', hr', rfl⟩ := List.mem_map.mp hname
    cases (hdata r' hr').symm.trans hread
    cases (Record.decode_encode fresh r').symm.trans hdecode
    exact hr'
  · intro hr
    exact ⟨r.nodeName, hrs.1 ▸ List.mem_map_of_mem hr, r.encode, hdata r hr, .ofDigits [],
      Record.decode_encode _ r⟩

/-- All started clients know the records of the directory, which are those that are announced at
least. -/
structure Agrees (root : String) (f : Fleet ι) : Prop where
  /-- Every node holds a record. -/
  decodes : ∀ name ∈ f.store.children root, ∃ r data,
    f.store.data? (Path.child root name) = some data ∧ ∀ fresh, Record.decode fresh data = .ok r
  services : ∀ i b, (f.site i).bench = some b → ∀ service,
    (f.site i).client.findAllServices.contains service = true ↔
      ∃ r, f.IsAnnounced root r ∧ r.name = service
  world : ∀ i b, (f.site i).bench = some b → ∀ service r,
    r ∈ (f.site i).client.findAll service ↔ f.IsAnnounced root r ∧ r.name = service
  desired : ∀ i b, (f.site i).bench = some b → (f.site i).client.announces = true →
    ∀ r ∈ (f.site i).client.roster.desired, f.IsAnnounced root r

end Rest

/-- Clients that are all quiet agree. -/
theorem views_agree (hroot : Path.IsDirectory root) (hd : Publisher.Distinct used)
    (fresh : f.IsFresh root) (h : Reachable used root f g)
    (quiet : ∀ i b, (g.site i).bench = some b → g.IsQuiet i b) : g.Agrees root := by
  have hsound := h.sound hroot hd fresh
  constructor
  · intro name hname
    obtain ⟨rs, hrs, hmem⟩ := hsound.tidy.exists_records hroot
    rw [hrs] at hname
    obtain ⟨r, hr, rfl⟩ := List.mem_map.mp hname
    exact ⟨r, r.encode, (hmem r hr).2, fun fresh => Record.decode_encode fresh r⟩
  · intro i b hb service
    obtain ⟨rs, hrs, hdisplays⟩ := hsound.displays hb (quiet i b hb)
    simp only [isAnnounced_iff hsound.tidy hroot hd hrs]
    have hknows := hdisplays.shows.knows_iff service
    rw [Catalog.pool?, Option.isSome_map] at hknows
    rw [← hknows, Client.findAllServices, Catalog.listing, Dict.contains, Dict.find?_map,
      Option.isSome_map]
    rfl
  · intro i b hb service r
    obtain ⟨rs, hrs, hdisplays⟩ := hsound.displays hb (quiet i b hb)
    rw [isAnnounced_iff hsound.tidy hroot hd hrs]
    have hknows := hdisplays.shows.knows_iff service
    have hmem := hdisplays.shows.mem_iff service
    rw [Client.findAll, Client.catalog]
    cases hpool : (g.site i).client.shared.catalog.pool? service with
    | none =>
        rw [hpool] at hknows
        constructor
        · exact fun hr => by cases hr
        · exact fun hr => by cases hknows.mpr ⟨r, hr.1, hr.2⟩
    | some pool => exact hmem pool hpool r
  · intro i b hb hann r hr
    obtain ⟨rs, hrs, hdisplays⟩ := hsound.displays hb (quiet i b hb)
    rw [isAnnounced_iff hsound.tidy hroot hd hrs]
    obtain ⟨r', hr', hname⟩ := List.mem_map.mp (hdisplays.desired hann r hr)
    exact hd.injective r' r (hrs.2 r' hr') (hsound.desired_used i r hr) hname ▸ hr'

/-! ### Two clients -/

theorem place_course {b : Bench (Survey Client.Member) Client.Shared}
    (started : (f.site i).bench = some b) : f.place i (f.course i b) = f := by
  have hsite : ({ client := (f.site i).client, bench := some b } : Site) = f.site i := by
    rw [← started]
  rw [place, course, Fleet.put]
  dsimp only
  rw [hsite, Function.update_eq_self]

theorem place_place (c d : Client.Course) : (f.place i c).place i d = f.place i d := by
  simp only [place, Fleet.put, Function.update_self, Function.update_idem]

theorem course_place (c : Client.Course) : (f.place i c).course i c.bench = c := by
  rw [course, place, site_put_self]
  rfl

theorem Reachable.moves (h : Reachable used root f g)
    {b : Bench (Survey Client.Member) Client.Shared} (started : (g.site i).bench = some b)
    {c : Client.Course} (hm : Relation.ReflTransGen Course.Move (g.course i b) c) :
    Reachable used root f (g.place i c) := by
  induction hm with
  | refl => rwa [place_course started]
  | tail _ move ih =>
      rename_i c d _
      have hstarted : ((g.place i c).site i).bench = some c.bench := by
        rw [place, site_put_self]
      have hmove : Course.Move ((g.place i c).course i c.bench) d := by
        rw [course_place]
        exact move
      rw [← place_place c d]
      exact ih.tail (.move hstarted hmove)

/-- A tick of a client, and the pass that it begins. -/
def round (f : Fleet ι) (i : ι) : Fleet ι :=
  match (f.site i).bench with
  | none => f
  | some b => f.place i (f.course i b).round

theorem Reachable.round (h : Reachable used root f g)
    (idle : (g.site i).bench.all (fun b => b.underway.isNone && !b.isOver) = true) :
    Reachable used root f (g.round i) := by
  unfold Fleet.round
  split
  · exact h
  · next b hb =>
    have hidle : b.IsIdle := by simpa [hb, Bench.IsIdle] using idle
    exact h.moves hb (Worker.Course.moves_round hidle 0 {})

/-- A client that may announce, and one that may not. -/
def pair : Fleet Bool where
  store := ({} : Store).put "/srv" []
  site isWritable := { client := .make { enabled := true, root := "/srv" } isWritable }

/-- The one that may announces a record. -/
def announcingPair : Fleet Bool :=
  let client := (pair.site true).client
  pair.replace true { client with
    shared := { client.shared with roster := client.shared.roster.announce Publisher.webRecord } }

/-- Both are started, and tick until there is nothing left to do. -/
def restingPair : Fleet Bool :=
  ((((announcingPair.start true).start false).round true).round false).round true

theorem isFresh_pair : pair.IsFresh "/srv" where
  stopped _ := rfl
  root_eq _ := rfl
  desired _ := rfl
  bare := by decide
  failures_eq := by decide
  readDelay_eq := by decide

theorem reachable_restingPair : Reachable Publisher.IsWebOrQueue "/srv" pair restingPair := by
  have hannounced : Reachable Publisher.IsWebOrQueue "/srv" pair announcingPair :=
    .single (.announce (.inl rfl) rfl)
  have hfirst := hannounced.tail (.start (i := true) rfl rfl)
  have hsecond := hfirst.tail (.start (i := false) rfl rfl)
  have hmade := Reachable.round (i := true) hsecond (by decide +kernel)
  have hread := Reachable.round (i := false) hmade (by decide +kernel)
  exact Reachable.round (i := true) hread (by decide +kernel)

theorem quiet_restingPair (i : Bool) (b : Bench (Survey Client.Member) Client.Shared)
    (hb : (restingPair.site i).bench = some b) : restingPair.IsQuiet i b := by
  have hall : (restingPair.site i).bench.all (fun b => restingPair.IsQuiet i b) = true := by
    cases i <;> decide +kernel
  simpa [hb] using hall

/-- The client that may not announce knows what the other one announces. -/
theorem views_agree_of_two : restingPair.Agrees "/srv" ∧
    Publisher.webRecord ∈ (restingPair.site false).client.findAll "web" := by
  have hagrees := views_agree (by decide) Publisher.distinct_isWebOrQueue isFresh_pair
    reachable_restingPair quiet_restingPair
  have hstarted : ∀ i, ∃ b, (restingPair.site i).bench = some b := by
    intro i
    cases i <;> exact ⟨_, rfl⟩
  obtain ⟨b, hb⟩ := hstarted true
  obtain ⟨b', hb'⟩ := hstarted false
  have hannounced : restingPair.IsAnnounced "/srv" Publisher.webRecord :=
    hagrees.desired true b hb (by decide +kernel) _ (by decide +kernel)
  exact ⟨hagrees, (hagrees.world false b' hb' "web" _).mpr ⟨hannounced, rfl⟩⟩

end Fleet

end ServiceRegistry
